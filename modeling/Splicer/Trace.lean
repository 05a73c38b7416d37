import Splicer.Invariant

/-! What the events of an iteration show: its fault, its shutdown, and the bytes it moved. -/
namespace Splicer

open Interaction

/-! ### Faults -/

def TransferState.fault? : TransferState → Option IoError
  | .finished error => error
  | _ => none

@[simp] theorem fault?_fill : TransferState.fill.fault? = none := rfl

@[simp] theorem fault?_drain : TransferState.drain.fault? = none := rfl

@[simp] theorem fault?_finished (error : Option IoError) :
    (TransferState.finished error).fault? = error := rfl

def fault? : IoResult SpliceOutcome → Option IoError
  | .error e => if e.kind = .wouldBlock then none else some e
  | .ok _ => none

/-- The fault an event shows: an error of a splice, or of the gate in its place. -/
def faultOf : Event calls → Option IoError
  | ⟨.tryIoRead, .err e⟩ => fault? (.error e)
  | ⟨.tryIoWrite, .err e⟩ => fault? (.error e)
  | ⟨.spliceIn _ _, ⟨.error e, _⟩⟩ => fault? (.error e)
  | ⟨.spliceOut _ _, ⟨.error e, _⟩⟩ => fault? (.error e)
  | _ => none

/-- A trace in which a splice faulted with `e`. -/
def FaultIn (e : IoError) (es : List (Event calls)) : Prop := ∃ ev ∈ es, faultOf ev = some e

/-- A readiness check that failed. -/
def ReadinessFailed : Event calls → Prop
  | ⟨.pollReadReady, .ready (.error _)⟩ => True
  | ⟨.pollWriteReady, .ready (.error _)⟩ => True
  | _ => False

section Faults

variable {ctx ctx' : SpliceCtx} {es es' : List (Event calls)} {res : IoResult SpliceOutcome}
  {b : Bool} {e : IoError} {io io' : SpliceIo} {t : Turn calls (IoResult Unit)}

@[simp] theorem faultIn_nil : ¬ FaultIn e [] := by
  simp [FaultIn]

@[simp] theorem faultIn_append : FaultIn e (es ++ es') ↔ FaultIn e es ∨ FaultIn e es' := by
  simp only [FaultIn, List.mem_append, or_and_right, exists_or]

theorem faultIn_cons {ev : Event calls} :
    FaultIn e (ev :: es) ↔ faultOf ev = some e ∨ FaultIn e es := by
  simp [FaultIn]

theorem faultOf_checked (s : TransferState) (a : Poll (IoResult Unit)) :
    faultOf (checked s a) = none := by
  cases s <;> rfl

theorem AfterError.fault?_eq {next : TransferState} (h : AfterError b e next) :
    next.fault? = fault? (.error e) := by
  cases h with
  | drain hk => simp [fault?, hk]
  | fill hk => simp [fault?, hk]
  | faulted hk => simp [fault?, hk]

theorem afterFill_fault? {next : TransferState} (h : afterFill b res = some next) :
    next.fault? = fault? res := by
  rcases res with e | _ | _ | n
  · exact (afterFill_error h).fault?_eq
  · cases h
    rfl
  · cases h
  · cases h
    rfl

theorem afterDrain_fault? : (afterDrain b res).fault? = fault? res := by
  rcases res with e | _ | _ | n
  · exact (afterDrain_error b e).fault?_eq
  all_goals rfl

theorem FillAttempt.faultIn_iff (h : FillAttempt ctx es res ctx') :
    FaultIn e es ↔ fault? res = some e := by
  cases h <;> simp [FaultIn, faultOf, fault?]

theorem DrainAttempt.faultIn_iff (h : DrainAttempt ctx es res ctx') :
    FaultIn e es ↔ fault? res = some e := by
  cases h <;> simp [FaultIn, faultOf, fault?]

/-- While the transfer goes on, a fault in the events is a fault in the state. -/
theorem Iteration.faultIn_iff (hi : Iteration io t io') (hs : ∀ error, io.state ≠ .finished error) :
    FaultIn e t.events ↔ io'.state.fault? = some e := by
  have unchanged : io.state.fault? = none := by
    cases h : io.state with
    | fill | drain => rfl
    | finished error => exact absurd h (hs error)
  cases hi with
  | pending => simp [faultIn_cons, faultOf_checked, unchanged]
  | failed => simp [faultIn_cons, faultOf_checked, unchanged]
  | fill _ hf hn =>
    rw [afterFill_fault? hn, ← hf.faultIn_iff]
    simp [faultIn_cons, faultOf]
  | drain _ hd =>
    rw [afterDrain_fault?, ← hd.faultIn_iff]
    simp [faultIn_cons, faultOf]
  | clean h => exact absurd h (hs _)
  | fault h => exact absurd h (hs _)

end Faults

/-! ### What is called in which state -/

section Called

variable {io io' : SpliceIo} {es : List (Event calls)} {t : Turn calls (IoResult Unit)}
  {o : Outcome calls (SpliceIo × Flow (IoResult Unit))} {off : Option ℕ} {maxLen : ℕ}
  {answer : Spliced} {e : IoError}

/-- Every end of an iteration, the panics included. -/
theorem run_cases (h : (SpliceIo.loopBody io).Run es o) :
    (∃ io' f, o = .val (io', f) ∧ Iteration io ⟨es, f⟩ io') ∨
      ∃ why, o = .fault why ∧ Crash io es why := by
  cases o with
  | val r => exact .inl ⟨r.1, r.2, rfl, step_iff.mp h⟩
  | fault why => exact .inr ⟨why, rfl, panics_iff.mp h⟩

/-- Every `splice_in` is made in `Fill`, with the fill end open, for all that is still missing. -/
theorem spliceIn_asked (h : (SpliceIo.loopBody io).Run es o)
    (he : ⟨.spliceIn off maxLen, answer⟩ ∈ es) :
    io.state = .fill ∧ io.splicer.isSourceDone = false ∧ off = io.splicer.offset.offIn ∧
      io.splicer.bytesRead < io.splicer.sizeToSplice ∧
      maxLen = io.splicer.sizeToSplice - io.splicer.bytesRead := by
  obtain ⟨io', f, -, hi⟩ | ⟨why, -, hc⟩ := run_cases h
  · cases hi with
    | pending | failed => cases hs : io.state <;> simp [hs, checked] at he
    | clean | fault => simp at he
    | fill hs hf _ => cases hf <;> simp_all
    | drain _ hd => cases hd <;> simp_all
  · cases hc <;> simp_all

theorem spliceOut_asked (h : (SpliceIo.loopBody io).Run es o)
    (he : ⟨.spliceOut off maxLen, answer⟩ ∈ es) :
    io.state = .drain ∧ io.splicer.pipe.isDrainDone = false ∧ off = io.splicer.offset.offOut ∧
      io.splicer.bytesWritten < io.splicer.bytesRead ∧
      maxLen = io.splicer.bytesRead - io.splicer.bytesWritten := by
  obtain ⟨io', f, -, hi⟩ | ⟨why, -, hc⟩ := run_cases h
  · cases hi with
    | pending | failed => cases hs : io.state <;> simp [hs, checked] at he
    | clean | fault => simp at he
    | fill _ hf _ => cases hf <;> simp_all
    | drain hs hd => cases hd <;> simp_all
  · cases hc <;> simp_all

/-- The shutdown is called in `Finished` only. -/
theorem pollShutdown_asked {a : Poll (IoResult Unit)} (h : (SpliceIo.loopBody io).Run es o)
    (he : ⟨.pollShutdown, a⟩ ∈ es) : ∃ error, io.state = .finished error := by
  obtain ⟨io', f, -, hi⟩ | ⟨why, -, hc⟩ := run_cases h
  · cases hi with
    | pending | failed => cases hs : io.state <;> simp [hs, checked] at he ⊢
    | clean hs => exact ⟨_, hs⟩
    | fault hs => exact ⟨_, hs⟩
    | fill _ hf _ => cases hf <;> simp at he
    | drain _ hd => cases hd <;> simp at he
  · cases hc <;> simp at he

/-- In `Finished` nothing but the shutdown is called. -/
theorem finished_asks {error : Option IoError} (h : (SpliceIo.loopBody io).Run es o)
    (hs : io.state = .finished error) : ∃ a, es = [⟨.pollShutdown, a⟩] := by
  obtain ⟨io', f, -, hi⟩ | ⟨why, -, hc⟩ := run_cases h
  · cases hi with
    | pending => exact ⟨.pending, by simp [hs, checked]⟩
    | failed e => exact ⟨.ready (.error e), by simp [hs, checked]⟩
    | clean => exact ⟨_, rfl⟩
    | fault => exact ⟨_, rfl⟩
    | fill hs' | drain hs' => cases hs.symm.trans hs'
  · cases hc <;> simp_all

/-- A finished transfer moves nothing and stays finished. -/
theorem Iteration.of_finished {error : Option IoError} (hi : Iteration io t io')
    (hs : io.state = .finished error) :
    io'.splicer = io.splicer ∧ ∃ error', io'.state = .finished error' := by
  cases hi with
  | pending => exact ⟨rfl, error, hs⟩
  | failed => exact ⟨rfl, error, hs⟩
  | clean => exact ⟨rfl, error, hs⟩
  | fault => exact ⟨rfl, none, rfl⟩
  | fill hs' | drain hs' => cases hs.symm.trans hs'

/-- A finished transfer has no more faults. -/
theorem Iteration.unfinished_of_faultIn (hi : Iteration io t io') (hf : FaultIn e t.events) :
    ∀ error, io.state ≠ .finished error := by
  intro error hs
  obtain ⟨a, hev⟩ := finished_asks hi.run hs
  rw [hev] at hf
  simp [FaultIn, faultOf] at hf

/-- A fault finishes the transfer, and is recorded. -/
theorem Iteration.faulted (hi : Iteration io t io') (hf : FaultIn e t.events) :
    io'.state = .finished (some e) := by
  have hfault := (hi.faultIn_iff (hi.unfinished_of_faultIn hf)).mp hf
  cases hs : io'.state with
  | finished error =>
    rw [hs, fault?_finished] at hfault
    rw [hfault]
  | fill | drain =>
    rw [hs] at hfault
    cases hfault

end Called

/-! ### Tallies -/

/-- The bytes an event put into the pipe; `bytesOut` took them out of it. -/
def bytesIn : Event calls → ℕ
  | ⟨.spliceIn _ _, ⟨.ok n, _⟩⟩ => n
  | _ => 0

def bytesOut : Event calls → ℕ
  | ⟨.spliceOut _ _, ⟨.ok n, _⟩⟩ => n
  | _ => 0

/-- Whether an event is a `WouldBlock`, from a closure or from the gate in its place. -/
def blocked : Event calls → ℕ
  | ⟨.tryIoRead, .err e⟩ => if e.kind = .wouldBlock then 1 else 0
  | ⟨.tryIoWrite, .err e⟩ => if e.kind = .wouldBlock then 1 else 0
  | ⟨.spliceIn _ _, ⟨.error e, _⟩⟩ => if e.kind = .wouldBlock then 1 else 0
  | ⟨.spliceOut _ _, ⟨.error e, _⟩⟩ => if e.kind = .wouldBlock then 1 else 0
  | _ => 0

section Tallies

variable {ctx ctx' : SpliceCtx} {es : List (Event calls)} {res : IoResult SpliceOutcome}
  {io io' : SpliceIo} {t : Turn calls (IoResult Unit)}

@[simp] theorem bytesOut_checked (s : TransferState) (a : Poll (IoResult Unit)) :
    bytesOut (checked s a) = 0 := by
  cases s <;> rfl

theorem FillAttempt.bytesOut_eq (h : FillAttempt ctx es res ctx') : tally bytesOut es = 0 := by
  cases h <;> rfl

theorem DrainAttempt.bytesOut_eq (h : DrainAttempt ctx es res ctx') :
    ctx'.bytesWritten = ctx.bytesWritten + tally bytesOut es := by
  cases h <;> simp [bytesOut]

/-- The counter of an iteration is the tally of its events. -/
theorem Iteration.bytesOut_eq (hi : Iteration io t io') :
    io'.splicer.bytesWritten = io.splicer.bytesWritten + tally bytesOut t.events := by
  cases hi with
  | pending => simp
  | failed => simp
  | fill _ hf _ => simp [hf.frame.2.1, hf.bytesOut_eq, bytesOut]
  | drain _ hd => simp [hd.bytesOut_eq, bytesOut]
  | clean => simp [bytesOut]
  | fault => simp [bytesOut]

end Tallies

end Splicer
