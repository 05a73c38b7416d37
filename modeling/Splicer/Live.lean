import Splicer.SpliceIo
import Splicer.Interaction.Handler

/-! The system calls under a transfer: `Live`, the sockets and files, and the two pipe ends. -/
namespace Splicer

open Interaction

/-- `as_fd()`: the number that a system call sees. -/
abbrev BorrowedFd := ℕ

def OwnedFd.asFd (fd : OwnedFd) : BorrowedFd := fd.raw

structure PipeFlags where
  nonblock : Bool
  cloexec : Bool
  deriving DecidableEq, Repr

structure SpliceFlags where
  move : Bool
  nonblock : Bool
  more : Bool
  gift : Bool
  deriving DecidableEq, Repr

def SpliceFlags.NONBLOCK : SpliceFlags := ⟨false, true, false, false⟩

inductive Interest where
  | readable
  | writable
  deriving DecidableEq, Repr

/-- What `splice(2)` returns, and what it leaves in the two offsets. -/
structure SpliceAnswer where
  ret : IoResult ℕ
  offIn : Option ℕ
  offOut : Option ℕ

/-- The calls of the process to the kernel and to tokio; `suspend` returns `Pending` to the
executor. -/
inductive SysCall where
  | pipeWith (flags : PipeFlags)
  | fcntlSetpipeSize (fd : BorrowedFd) (size : ℕ)
  | fcntlGetpipeSize (fd : BorrowedFd)
  | close (fd : OwnedFd)
  | splice (fdIn : BorrowedFd) (offIn : Option ℕ) (fdOut : BorrowedFd) (offOut : Option ℕ)
      (len : ℕ) (flags : SpliceFlags)
  | pollReadReady (fd : BorrowedFd)
  | pollWriteReady (fd : BorrowedFd)
  | tryIo (fd : BorrowedFd) (interest : Interest)
  | pollShutdown (fd : BorrowedFd)
  | suspend
  deriving DecidableEq, Repr

@[reducible] def SysAnswer : SysCall → Type
  | .pipeWith _ => IoResult (OwnedFd × OwnedFd)
  | .fcntlSetpipeSize _ _ => IoResult ℕ
  | .fcntlGetpipeSize _ => IoResult ℕ
  | .close _ => Unit
  | .splice _ _ _ _ _ _ => SpliceAnswer
  | .pollReadReady _ => Poll (IoResult Unit)
  | .pollWriteReady _ => Poll (IoResult Unit)
  | .tryIo _ _ => TryIo
  | .pollShutdown _ => Poll (IoResult Unit)
  | .suspend => Resume

abbrev sys : Interface := ⟨SysCall, SysCall, fun c => c, SysAnswer, Panic⟩

def sysCall (c : SysCall) : Prog sys (SysAnswer c) := .ask (I := sys) c .ret

theorem run_sysCall {c : SysCall} {a : SysAnswer c} {es : List (Event sys)}
    (h : (sysCall c).Run es (.val a)) : es = [⟨c, a⟩] := by
  cases h with
  | ask h =>
    cases h
    rfl

/-! ### Sockets and files -/

/-- The two arms of `impl_async_fd`. -/
inductive AsyncFd where
  | socket (fd : BorrowedFd)
  | file (fd : BorrowedFd)
  deriving DecidableEq, Repr

namespace AsyncFd

def asFd : AsyncFd → BorrowedFd
  | .socket fd => fd
  | .file fd => fd

def pollReadReady : AsyncFd → Prog sys (Poll (IoResult Unit))
  | .socket fd => sysCall (.pollReadReady fd)
  | .file _ => .ret (.ready (.ok ()))

def tryIoRead : AsyncFd → Prog sys TryIo
  | .socket fd => sysCall (.tryIo fd .readable)
  | .file _ => .ret .callInner

def pollWriteReady : AsyncFd → Prog sys (Poll (IoResult Unit))
  | .socket fd => sysCall (.pollWriteReady fd)
  | .file _ => .ret (.ready (.ok ()))

def tryIoWrite : AsyncFd → Prog sys TryIo
  | .socket fd => sysCall (.tryIo fd .writable)
  | .file _ => .ret .callInner

end AsyncFd

/-! ### `Live` -/

namespace Live

def spliceIn (r : BorrowedFd) (offIn : Option ℕ) (pipeW : BorrowedFd) (maxLen : ℕ) :
    Prog sys Spliced := do
  let answer ← sysCall (.splice r offIn pipeW none maxLen .NONBLOCK)
  return ⟨answer.ret, answer.offIn⟩

def spliceOut (pipeR w : BorrowedFd) (offOut : Option ℕ) (maxLen : ℕ) : Prog sys Spliced := do
  let answer ← sysCall (.splice pipeR none w offOut maxLen .NONBLOCK)
  return ⟨answer.ret, answer.offOut⟩

end Live

/-- The instances behind the loop's calls, with the pipe that the loop lends to `Live`. -/
def implement (r w : AsyncFd) (pipe : Pipe) : Handler calls sys
  | .pollReadReady => r.pollReadReady
  | .tryIoRead => r.tryIoRead
  | .spliceIn offIn maxLen =>
    match pipe.fillFd with
    | some pipeW => Live.spliceIn r.asFd offIn pipeW.asFd maxLen
    | none => .panic .closedFd
  | .pollWriteReady => w.pollWriteReady
  | .tryIoWrite => w.tryIoWrite
  | .spliceOut offOut maxLen =>
    match pipe.drainFd with
    | some pipeR => Live.spliceOut pipeR.asFd w.asFd offOut maxLen
    | none => .panic .closedFd
  | .pollShutdown => sysCall (.pollShutdown w.asFd)

/-! ### The pipe -/

/-- An `OwnedFd` closes when it is dropped. -/
def dropFds : List OwnedFd → Prog sys Unit
  | [] => .ret ()
  | fd :: fds => do
    sysCall (.close fd)
    dropFds fds

namespace Pipe

/-- The ends a pipe owns, in the order its fields are dropped. -/
def fds (p : Pipe) : List OwnedFd := p.drainFd.toList ++ p.fillFd.toList

def drop (p : Pipe) : Prog sys Unit := dropFds p.fds

/-- What `p` owned and `p'` does not is dropped when `p'` takes its place. -/
def dropLost (p p' : Pipe) : Prog sys Unit := dropFds (p.fds.filter fun fd => fd ∉ p'.fds)

/-- An early return from the closure of `Pipe::new`, which owns both descriptors. -/
def abandon (drainFd fillFd : OwnedFd) (e : IoError) : Prog sys (IoResult Pipe) := do
  dropFds [fillFd, drainFd]
  return .error e

/-- The end of that closure: a pipe of the size that the kernel reports. -/
def sized (drainFd fillFd : OwnedFd) (size : ℕ) : Prog sys (IoResult Pipe) :=
  match NonZeroUsize.new size with
  | some size => .ret (.ok { drainFd := some drainFd, fillFd := some fillFd, size })
  | none => abandon drainFd fillFd ⟨.other, "failed to set pipe size, using default size"⟩

/-- `Pipe::new`. -/
def create : Prog sys (IoResult Pipe) := do
  match ← sysCall (.pipeWith ⟨true, true⟩) with
  | .error e => return .error e
  | .ok (drainFd, fillFd) =>
    match ← sysCall (.fcntlSetpipeSize drainFd.asFd MAXIMUM_PIPE_SIZE) with
    | .ok size => sized drainFd fillFd size
    | .error _ =>
      match ← sysCall (.fcntlGetpipeSize drainFd.asFd) with
      | .ok size => sized drainFd fillFd size
      | .error e => abandon drainFd fillFd e

/-- An early return from `with_pipe_size`, which has consumed the pipe. -/
def discard (p : Pipe) (e : IoError) : Prog sys (IoResult Pipe) := do
  p.drop
  return .error e

/-- `Pipe::with_pipe_size`. -/
def resize (p : Pipe) (pipeSize : ℕ) : Prog sys (IoResult Pipe) :=
  match p.fillFd with
  | none => p.discard ⟨.other, "fill-side file descriptor is not available"⟩
  | some fillFd => do
    match ← sysCall (.fcntlSetpipeSize fillFd.asFd pipeSize) with
    | .error e => p.discard e
    | .ok newSize =>
      match NonZeroUsize.new newSize with
      | some size => return .ok { p with size }
      | none => p.discard ⟨.other, "fcntl returned zero pipe size"⟩

end Pipe

/-! ### The loop -/

/-- One iteration over `Live`; the pipe end that `set_fill_done` or `set_drain_done` gives up
closes, and a panic releases what the caller holds. -/
def SpliceIo.liveBody (r w : AsyncFd) (release : SpliceIo → Prog sys Unit) :
    Machine sys SpliceIo (IoResult Unit) := fun io => do
  let (io', flow) ← ((loopBody io).interp (implement r w io.splicer.pipe) id).unwind (release io)
  io.splicer.pipe.dropLost io'.splicer.pipe
  return (io', flow)

end Splicer
