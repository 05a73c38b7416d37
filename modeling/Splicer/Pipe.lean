import Splicer.Io

/-! The kernel pipe as the code holds it: two optional ends and a size. -/
namespace Splicer

structure OwnedFd where
  raw : ℕ
  deriving DecidableEq, Repr

abbrev NonZeroUsize := { n : ℕ // 0 < n }

def NonZeroUsize.new (n : ℕ) : Option NonZeroUsize := if h : 0 < n then some ⟨n, h⟩ else none

def MAXIMUM_PIPE_SIZE : NonZeroUsize := ⟨2 ^ 20, by decide⟩

/-- What the kernel answers to `pipe2(2)` and to the two `fcntl(2)` pipe size commands. -/
structure PipeKernel where
  pipeWith : IoResult (OwnedFd × OwnedFd)
  fcntlSetpipeSize : OwnedFd → ℕ → IoResult ℕ
  fcntlGetpipeSize : OwnedFd → IoResult ℕ

structure Pipe where
  drainFd : Option OwnedFd
  fillFd : Option OwnedFd
  size : NonZeroUsize
  deriving DecidableEq, Repr

namespace Pipe

/-- The size the kernel reports, after a first attempt to raise it to the maximum. -/
def newSize (k : PipeKernel) (drainFd : OwnedFd) : IoResult NonZeroUsize := do
  let size ← match k.fcntlSetpipeSize drainFd MAXIMUM_PIPE_SIZE with
    | .ok size => .ok (NonZeroUsize.new size)
    | .error _ => (k.fcntlGetpipeSize drainFd).map NonZeroUsize.new
  match size with
  | some size => .ok size
  | none => .error ⟨.other, "failed to set pipe size, using default size"⟩

def new (k : PipeKernel) : IoResult Pipe :=
  match k.pipeWith with
  | .error e => .error e
  | .ok (drainFd, fillFd) =>
    (newSize k drainFd).map fun size => { drainFd := some drainFd, fillFd := some fillFd, size }

def withPipeSize (p : Pipe) (k : PipeKernel) (pipeSize : ℕ) : IoResult Pipe := do
  match p.fillFd with
  | none => throw ⟨.other, "fill-side file descriptor is not available"⟩
  | some fillFd =>
    let newSize ← k.fcntlSetpipeSize fillFd pipeSize
    match NonZeroUsize.new newSize with
    | some size => return { p with size }
    | none => throw ⟨.other, "fcntl returned zero pipe size"⟩

def setDrainDone (p : Pipe) : Pipe := { p with drainFd := none }

def setFillDone (p : Pipe) : Pipe := { p with fillFd := none }

def isDrainDone (p : Pipe) : Bool := p.drainFd.isNone

def isFillDone (p : Pipe) : Bool := p.fillFd.isNone

variable (p : Pipe)

@[simp] theorem setDrainDone_drainFd : p.setDrainDone.drainFd = none := rfl

@[simp] theorem setDrainDone_fillFd : p.setDrainDone.fillFd = p.fillFd := rfl

@[simp] theorem setFillDone_fillFd : p.setFillDone.fillFd = none := rfl

@[simp] theorem setFillDone_drainFd : p.setFillDone.drainFd = p.drainFd := rfl

@[simp] theorem setFillDone_isFillDone : p.setFillDone.isFillDone = true := rfl

@[simp] theorem setDrainDone_isFillDone : p.setDrainDone.isFillDone = p.isFillDone := rfl

@[simp] theorem setDrainDone_isDrainDone : p.setDrainDone.isDrainDone = true := rfl

@[simp] theorem setFillDone_isDrainDone : p.setFillDone.isDrainDone = p.isDrainDone := rfl

/-- Both ends of a pipe are open when it is handed out, and a resize keeps them. -/
theorem new_open {k : PipeKernel} {p : Pipe} (h : Pipe.new k = .ok p) :
    p.isFillDone = false ∧ p.isDrainDone = false := by
  unfold Pipe.new at h
  cases hk : k.pipeWith with
  | error e => simp [hk] at h
  | ok fds =>
    cases hs : newSize k fds.1 with
    | error e => simp [hk, hs, Except.map] at h
    | ok size =>
      simp only [hk, hs, Except.map, Except.ok.injEq] at h
      subst h
      exact ⟨rfl, rfl⟩

end Pipe

end Splicer
