import Mathlib.Algebra.Group.Nat.Defs
import Splicer.Interaction.Script

/-! The calls a transfer makes, what they may answer, and the panics it can end in. -/
namespace Splicer

open Interaction

/-- The kinds of `io::Error` that the code builds or tests; `os` stands for all others. -/
inductive ErrorKind where
  | wouldBlock
  | invalidInput
  | other
  | os (code : ℕ)
  deriving DecidableEq, Repr

structure IoError where
  kind : ErrorKind
  message : String
  deriving DecidableEq, Repr

abbrev IoResult (α : Type) := Except IoError α

/-- `ErrorKind::WouldBlock.into()`. -/
def IoError.wouldBlock : IoError := ⟨.wouldBlock, ""⟩

/-- What `try_io_read` and `try_io_write` do with the closure they are given. -/
inductive TryIo where
  | callInner
  | err (e : IoError)
  deriving DecidableEq, Repr

/-- A `Splicer` call returns a count or an error, and may store into the offset it was lent. -/
structure Spliced where
  ret : IoResult ℕ
  off : Option ℕ

inductive Channel where
  | pollReadReady
  | tryIoRead
  | spliceIn
  | pollWriteReady
  | tryIoWrite
  | spliceOut
  | pollShutdown
  deriving DecidableEq, Repr

inductive Call where
  | pollReadReady
  | tryIoRead
  | spliceIn (offIn : Option ℕ) (maxLen : ℕ)
  | pollWriteReady
  | tryIoWrite
  | spliceOut (offOut : Option ℕ) (maxLen : ℕ)
  | pollShutdown
  deriving DecidableEq, Repr

@[reducible] def Call.channel : Call → Channel
  | .pollReadReady => .pollReadReady
  | .tryIoRead => .tryIoRead
  | .spliceIn _ _ => .spliceIn
  | .pollWriteReady => .pollWriteReady
  | .tryIoWrite => .tryIoWrite
  | .spliceOut _ _ => .spliceOut
  | .pollShutdown => .pollShutdown

@[reducible] def Answer : Channel → Type
  | .pollReadReady => Poll (IoResult Unit)
  | .tryIoRead => TryIo
  | .spliceIn => Spliced
  | .pollWriteReady => Poll (IoResult Unit)
  | .tryIoWrite => TryIo
  | .spliceOut => Spliced
  | .pollShutdown => Poll (IoResult Unit)

inductive Panic where
  | underflow
  | overflow
  | closedFd
  | unreachable
  deriving DecidableEq, Repr

abbrev calls : Interface := ⟨Call, Channel, Call.channel, Answer, Panic⟩

abbrev Comp := Prog calls

def call (c : Call) : Comp (Answer c.channel) := .ask c .ret

/-- `usize` is 64 bits wide. -/
def usizeMax : ℕ := 2 ^ 64 - 1

def isizeMax : ℕ := 2 ^ 63 - 1

/-- Checked `usize` subtraction; a release build would wrap where this panics. -/
def usizeSub (a b : ℕ) : Comp ℕ := if b ≤ a then .ret (a - b) else .panic .underflow

def usizeAdd (a b : ℕ) : Comp ℕ := if a + b ≤ usizeMax then .ret (a + b) else .panic .overflow

/-- `u64 as usize` through `try_into`. -/
def usizeTryFrom (n : UInt64) : Option ℕ :=
  if n.toNat ≤ usizeMax then some n.toNat else none

theorem usizeTryFrom_eq (n : UInt64) : usizeTryFrom n = some n.toNat := by
  have hn : n.toNat < 2 ^ 64 := n.toNat_lt
  rw [usizeTryFrom, if_pos]
  unfold usizeMax
  omega

/-- `fd.expect(..)` on a pipe end. -/
def expectFd {α : Type} : Option α → Comp α
  | some fd => .ret fd
  | none => .panic .closedFd

end Splicer
