import Splicer.SpliceCtx

/-! `SpliceIo`: the fill, drain and shutdown loop of one direction. -/
namespace Splicer

open Interaction

inductive TransferState where
  | fill
  | drain
  | finished (error : Option IoError)
  deriving DecidableEq, Repr

def TransferState.faulted (e : IoError) : TransferState := .finished (some e)

structure SpliceIo where
  splicer : SpliceCtx
  state : TransferState
  deriving DecidableEq, Repr

def SpliceIo.ofCtx (splicer : SpliceCtx) : SpliceIo := ⟨splicer, .fill⟩

structure TransferReport where
  tx : ℕ
  rx : ℕ
  error : Option IoError
  deriving DecidableEq, Repr

/-- The gate of `try_io_read`: it runs the closure or answers in its place. -/
def tryIoRead (ctx : SpliceCtx) (f : Comp (IoResult SpliceOutcome × SpliceCtx)) :
    Comp (IoResult SpliceOutcome × SpliceCtx) := do
  match ← call .tryIoRead with
  | .callInner => f
  | .err e => return (.error e, ctx)

def tryIoWrite (ctx : SpliceCtx) (f : Comp (IoResult SpliceOutcome × SpliceCtx)) :
    Comp (IoResult SpliceOutcome × SpliceCtx) := do
  match ← call .tryIoWrite with
  | .callInner => f
  | .err e => return (.error e, ctx)

/-- The match on the outcome of a fill; `none` is its `unreachable!()` arm. -/
def afterFill (pipeHasData : Bool) : IoResult SpliceOutcome → Option TransferState
  | .ok .closed => some .drain
  | .ok (.bytesWritten _) => some .fill
  | .error e =>
    if e.kind = .wouldBlock then
      if pipeHasData then some .drain else some .fill
    else
      some (.faulted e)
  | .ok .noProgress => none

def afterDrain (pipeHasData : Bool) : IoResult SpliceOutcome → TransferState
  | .ok .closed => .finished none
  | .ok .noProgress => .fill
  | .ok (.bytesWritten _) => .drain
  | .error e =>
    if e.kind = .wouldBlock then
      if pipeHasData then .drain else .fill
    else
      .faulted e

namespace SpliceIo

/-- `ready!(check)?`: `Pending` and `Err` return from `poll_execute` on the spot. -/
def ready (io : SpliceIo) (check : Comp (Poll (IoResult Unit)))
    (rest : Comp (SpliceIo × Flow (IoResult Unit))) : Comp (SpliceIo × Flow (IoResult Unit)) := do
  match ← check with
  | .pending => return (io, .done .pending)
  | .ready (.error e) => return (io, .done (.ready (.error e)))
  | .ready (.ok ()) => rest

/-- One iteration of the loop of `poll_execute`. -/
def loopBody : Machine calls SpliceIo (IoResult Unit) := fun io =>
  match io.state with
  | .finished error => ready io (call .pollShutdown) do
      let io := { io with state := .finished none }
      match error with
      | some e => return (io, .done (.ready (.error e)))
      | none => return (io, .done (.ready (.ok ())))
  | .fill => ready io (call .pollReadReady) do
      let (res, splicer) ← tryIoRead io.splicer io.splicer.trySpliceFromSource
      match afterFill splicer.pipeHasData res with
      | some state => return ({ splicer, state }, .again)
      | none => .panic .unreachable
  | .drain => ready io (call .pollWriteReady) do
      let (res, splicer) ← tryIoWrite io.splicer io.splicer.trySpliceToDest
      return ({ splicer, state := afterDrain splicer.pipeHasData res }, .again)

/-- One call; `none` when the fuel runs out before the loop returns. -/
def pollExecute (fuel : ℕ) (io : SpliceIo) : Comp (Option (SpliceIo × Poll (IoResult Unit))) :=
  Machine.poll loopBody fuel io

def report (io : SpliceIo) (res : IoResult Unit) : TransferReport where
  tx := io.splicer.bytesWritten
  rx := 0
  error := match res with
    | .ok () => none
    | .error e => some e

def execute (fuel : ℕ) (io : SpliceIo) : Comp (Option TransferReport) := do
  match ← Machine.await loopBody fuel io with
  | some (io, res) => return some (io.report res)
  | none => return none

/-- `execute` reports on the context and the result of the first `Ready`. -/
theorem run_execute {fuel : ℕ} {io : SpliceIo} {es : List (Event calls)}
    {report : TransferReport} :
    (execute fuel io).Run es (.val (some report)) ↔
      ∃ io' res, (Machine.await loopBody fuel io).Run es (.val (some (io', res))) ∧
        report = io'.report res := by
  refine Iff.trans (Prog.run_wrap (g := fun r => r.1.report r.2) ?_ ?_) Prod.exists
  · intro _
    rfl
  · rfl

end SpliceIo

end Splicer
