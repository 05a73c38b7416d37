import Splicer.Trace

/-! The pipe ends, the counters and the state record one history, and agree on it. -/
namespace Splicer

open Interaction

/-- The iteration of a target check that fires; it asks for no splice. -/
def targetTurn : Turn calls (IoResult Unit) :=
  ⟨[⟨.pollReadReady, .ready (.ok ())⟩, ⟨.tryIoRead, .callInner⟩], .again⟩

/-- The iteration of a drain attempt that finds the pipe empty. -/
def emptyTurn : Turn calls (IoResult Unit) :=
  ⟨[⟨.pollWriteReady, .ready (.ok ())⟩, ⟨.tryIoWrite, .callInner⟩], .again⟩

/-- The source ends with an EOF or with the target check. -/
def EndsSource (t : Turn calls (IoResult Unit)) : Prop :=
  (∃ off maxLen stored, ⟨.spliceIn off maxLen, ⟨.ok 0, stored⟩⟩ ∈ t.events) ∨ t = targetTurn

/-- The transfer ends with an empty drain attempt after the end of the source. -/
def EndsTransfer (ts : List (Turn calls (IoResult Unit))) : Prop :=
  ∃ pre post, ts = pre ++ emptyTurn :: post ∧ ∃ t ∈ pre, EndsSource t

section Ends

variable {io io' : SpliceIo} {t : Turn calls (IoResult Unit)}
  {ts : List (Turn calls (IoResult Unit))} {s : TransferState} {a : Poll (IoResult Unit)}
  {f : Flow (IoResult Unit)}

theorem not_endsSource_checked : ¬ EndsSource ⟨[checked s a], f⟩ := by
  cases s <;> simp [EndsSource, targetTurn, checked]

theorem checked_ne_emptyTurn : (⟨[checked s a], f⟩ : Turn calls (IoResult Unit)) ≠ emptyTurn := by
  cases s <;> simp [emptyTurn, checked]

theorem endsTransfer_snoc :
    EndsTransfer (ts ++ [t]) ↔ EndsTransfer ts ∨ (t = emptyTurn ∧ ∃ t' ∈ ts, EndsSource t') := by
  constructor
  · rintro ⟨pre, post, heq, hends⟩
    rcases List.eq_nil_or_concat post with rfl | ⟨post, last, rfl⟩
    · obtain ⟨rfl, ht⟩ := List.append_inj' heq rfl
      exact .inr ⟨List.singleton_inj.mp ht, hends⟩
    · rw [List.concat_eq_append, ← List.cons_append, ← List.append_assoc] at heq
      obtain ⟨rfl, -⟩ := List.append_inj' heq rfl
      exact .inl ⟨pre, post, rfl, hends⟩
  · rintro (⟨pre, post, rfl, hends⟩ | ⟨rfl, hends⟩)
    · exact ⟨pre, post ++ [t], by simp, hends⟩
    · exact ⟨ts, [], rfl, hends⟩

/-- The fill end is closed by the iterations that end the source, and by no other. -/
theorem Iteration.isSourceDone_iff (hi : Iteration io t io') :
    io'.splicer.isSourceDone = true ↔ io.splicer.isSourceDone = true ∨ EndsSource t := by
  cases hi with
  | pending => simp [not_endsSource_checked]
  | failed => simp [not_endsSource_checked]
  | fill _ hf _ =>
    cases hf with
    | gate | failed => simp [EndsSource, targetTurn]
    | target | eof => simp [EndsSource, targetTurn]
    | moved _ _ hn => simp [EndsSource, targetTurn, Nat.ne_of_lt hn]
  | drain _ hd => cases hd <;> simp [EndsSource, targetTurn]
  | clean => simp [EndsSource, targetTurn]
  | fault => simp [EndsSource, targetTurn]

/-- The drain end is closed by an empty drain attempt, once the fill end is. -/
theorem Iteration.isDrainDone_iff (hi : Iteration io t io') :
    io'.splicer.pipe.isDrainDone = true ↔
      io.splicer.pipe.isDrainDone = true ∨ (t = emptyTurn ∧ io.splicer.isSourceDone = true) := by
  cases hi with
  | pending => simp [checked_ne_emptyTurn]
  | failed => simp [checked_ne_emptyTurn]
  | fill _ hf _ => simp [hf.frame.2.2, emptyTurn]
  | drain _ hd => cases hd <;> simp_all [emptyTurn]
  | clean => simp [emptyTurn]
  | fault => simp [emptyTurn]

end Ends

/-! ### The invariant -/

/-- What the pipe ends, the counters and the state say about the iterations `ts` so far. -/
structure Recorded (ts : List (Turn calls (IoResult Unit))) (io : SpliceIo) : Prop where
  fill_iff : io.splicer.isSourceDone = true ↔ ∃ t ∈ ts, EndsSource t
  target : targetTurn ∈ ts → io.splicer.bytesRead = io.splicer.sizeToSplice
  drain_iff : io.splicer.pipe.isDrainDone = true ↔ EndsTransfer ts
  clean_iff : io.splicer.pipe.isDrainDone = true ↔
    io.state = .finished none ∧ ∀ e, ¬ FaultIn e (ts.flatMap Turn.events)
  drained : io.splicer.pipe.isDrainDone = true →
    io.splicer.isSourceDone = true ∧ io.splicer.bytesRead = io.splicer.bytesWritten
  faulted : ∀ e, io.state = .finished (some e) → FaultIn e (ts.flatMap Turn.events)
  finished : ∀ e, FaultIn e (ts.flatMap Turn.events) → ∃ error, io.state = .finished error

section Recording

variable {ctx : SpliceCtx} {io io' : SpliceIo} {t : Turn calls (IoResult Unit)}
  {ts : List (Turn calls (IoResult Unit))}

theorem Fresh.recorded (h : Fresh ctx) : Recorded [] (.ofCtx ctx) where
  fill_iff := by simp [SpliceIo.ofCtx, h.fill]
  target := by simp
  drain_iff := by simp [SpliceIo.ofCtx, h.drain, EndsTransfer]
  clean_iff := by simp [SpliceIo.ofCtx, h.drain]
  drained := by simp [SpliceIo.ofCtx, h.drain]
  faulted := by simp [SpliceIo.ofCtx]
  finished := by simp

/-- Once the fill end is closed, nothing is read any more. -/
theorem Iteration.of_source_done (hi : Iteration io t io') (hd : io.splicer.isSourceDone = true) :
    io'.splicer.isSourceDone = true ∧ io'.splicer.bytesRead = io.splicer.bytesRead := by
  refine ⟨hi.isSourceDone_iff.mpr (.inl hd), ?_⟩
  cases hi with
  | pending | failed | clean | fault => rfl
  | fill _ hf _ =>
    cases hf with
    | gate | target | failed | eof => rfl
    | moved _ hfd => simp_all
  | drain _ hd => exact hd.frame.2.1

theorem Iteration.of_targetTurn (hi : Iteration io targetTurn io') :
    io'.splicer.bytesRead = io'.splicer.sizeToSplice := by
  generalize ht : targetTurn = t at hi
  cases hi with
  | pending => cases hs : io.state <;> simp [targetTurn, checked, hs] at ht
  | failed => cases hs : io.state <;> simp [targetTurn, checked, hs] at ht
  | clean | fault => simp [targetTurn] at ht
  | fill _ hf _ =>
    cases hf with
    | target h => exact h
    | gate | failed | eof | moved => simp [targetTurn] at ht
  | drain => simp [targetTurn] at ht

theorem Iteration.target_kept (hi : Iteration io t io')
    (heq : io.splicer.bytesRead = io.splicer.sizeToSplice) :
    io'.splicer.bytesRead = io'.splicer.sizeToSplice := by
  rw [hi.sizeToSplice_eq, ← heq]
  cases hi with
  | pending | failed | clean | fault => rfl
  | fill _ hf _ =>
    cases hf with
    | gate | target | failed | eof => rfl
    | moved hlt => omega
  | drain _ hd => exact hd.frame.2.1

/-- The iteration that closes the drain end ends the transfer, without a fault and with nothing
left to move. -/
theorem Iteration.closes (hi : Iteration io t io') (hopen : io.splicer.pipe.isDrainDone = false)
    (hdone : io'.splicer.pipe.isDrainDone = true) :
    io'.state = .finished none ∧ (∀ e, ¬ FaultIn e t.events) ∧
      io'.splicer.isSourceDone = true ∧ io'.splicer.bytesRead = io'.splicer.bytesWritten := by
  cases hi with
  | pending => cases hopen.symm.trans hdone
  | failed => cases hopen.symm.trans hdone
  | clean => cases hopen.symm.trans hdone
  | fault => cases hopen.symm.trans hdone
  | fill _ hf _ =>
    have hsame := hf.frame.2.2
    cases hopen.symm.trans (hsame.symm.trans hdone)
  | drain _ hd =>
    cases hd with
    | closed heq hfd => exact ⟨rfl, by simp [FaultIn, faultOf, fault?], hfd, heq⟩
    | gate | empty | failed | stuck | moved => cases hopen.symm.trans hdone

theorem Iteration.closes_of_clean (hi : Iteration io t io')
    (hs : ∀ error, io.state ≠ .finished error) (hs' : io'.state = .finished none) :
    io'.splicer.pipe.isDrainDone = true := by
  cases hi with
  | pending => exact absurd hs' (hs none)
  | failed => exact absurd hs' (hs none)
  | clean h => exact absurd h (hs none)
  | fault h => exact absurd h (hs _)
  | fill _ _ hn => exact absurd hs' (afterFill_ne_clean hn)
  | drain _ hd =>
    have hres := afterDrain_eq_clean hs'
    cases hd with
    | closed => rfl
    | gate | empty | failed | stuck | moved => cases hres

/-- The trace after one more iteration has the faults it had, and those of the iteration. -/
theorem faultIn_snoc {e : IoError} : FaultIn e ((ts ++ [t]).flatMap Turn.events) ↔
    FaultIn e (ts.flatMap Turn.events) ∨ FaultIn e t.events := by
  rw [List.flatMap_append, List.flatMap_singleton, faultIn_append]

theorem Recorded.going (h : Recorded ts io) (hs : ∀ error, io.state ≠ .finished error)
    (e : IoError) : ¬ FaultIn e (ts.flatMap Turn.events) := by
  intro hf
  obtain ⟨error, hfin⟩ := h.finished e hf
  exact hs error hfin

theorem Recorded.clean_step (h : Recorded ts io) (hi : Iteration io t io') :
    io'.splicer.pipe.isDrainDone = true ↔
      io'.state = .finished none ∧ ∀ e, ¬ FaultIn e ((ts ++ [t]).flatMap Turn.events) := by
  simp only [faultIn_snoc, not_or, forall_and]
  by_cases hfin : ∃ error, io.state = .finished error
  · obtain ⟨error, hs⟩ := hfin
    obtain ⟨a, hev⟩ := finished_asks hi.run hs
    have hquiet (e : IoError) : ¬ FaultIn e t.events := by
      rw [hev]
      simp [FaultIn, faultOf]
    simp only [hquiet, not_false_eq_true, implies_true, and_true]
    cases hi with
    | pending | failed | clean => exact h.clean_iff
    | fault hs' =>
      -- the recorded fault is returned now, and stays in the trace
      have hf := h.faulted _ hs'
      have hopen : ¬ io.splicer.pipe.isDrainDone = true := by
        intro hd
        exact (h.clean_iff.mp hd).2 _ hf
      constructor
      · intro hd
        exact absurd hd hopen
      · rintro ⟨-, hno⟩
        exact absurd hf (hno _)
    | fill hs' | drain hs' => cases hs.symm.trans hs'
  · have hgo : ∀ error, io.state ≠ .finished error := not_exists.mp hfin
    have hopen : io.splicer.pipe.isDrainDone = false := by
      apply Bool.eq_false_iff.mpr
      intro hd
      exact hgo none (h.clean_iff.mp hd).1
    constructor
    · intro hd
      obtain ⟨hs', hquiet, -⟩ := hi.closes hopen hd
      exact ⟨hs', h.going hgo, hquiet⟩
    · rintro ⟨hs', -⟩
      exact hi.closes_of_clean hgo hs'

theorem Recorded.fault_step (h : Recorded ts io) (hi : Iteration io t io') :
    (∀ e, io'.state = .finished (some e) → FaultIn e ((ts ++ [t]).flatMap Turn.events)) ∧
      ∀ e, FaultIn e ((ts ++ [t]).flatMap Turn.events) → ∃ error, io'.state = .finished error := by
  simp only [faultIn_snoc]
  by_cases hfin : ∃ error, io.state = .finished error
  · obtain ⟨error, hs⟩ := hfin
    refine ⟨?_, fun _ _ => (hi.of_finished hs).2⟩
    intro e hs'
    left
    cases hi with
    | pending | failed | clean => exact h.faulted e hs'
    | fault => cases hs'
    | fill hs₁ | drain hs₁ => cases hs.symm.trans hs₁
  · have hgo : ∀ error, io.state ≠ .finished error := not_exists.mp hfin
    constructor
    · intro e hs'
      right
      rw [hi.faultIn_iff hgo, hs', fault?_finished]
    · rintro e (hf | hf)
      · exact absurd hf (h.going hgo e)
      · exact ⟨some e, hi.faulted hf⟩

theorem Recorded.step (h : Recorded ts io) (hi : Iteration io t io') :
    Recorded (ts ++ [t]) io' := by
  have hclean := h.clean_step hi
  obtain ⟨hfaulted, hfinished⟩ := h.fault_step hi
  refine ⟨?_, ?_, ?_, hclean, ?_, hfaulted, hfinished⟩
  · rw [hi.isSourceDone_iff, h.fill_iff]
    simp only [List.mem_append, List.mem_singleton, or_and_right, exists_or, exists_eq_left]
  · intro ht
    rcases List.mem_append.mp ht with ht | ht
    · exact hi.target_kept (h.target ht)
    · obtain rfl := List.mem_singleton.mp ht
      exact hi.of_targetTurn
  · rw [hi.isDrainDone_iff, h.drain_iff, h.fill_iff, endsTransfer_snoc]
  · intro hdone
    cases hd : io.splicer.pipe.isDrainDone with
    | false => exact (hi.closes hd hdone).2.2
    | true =>
      obtain ⟨hs, -⟩ := h.clean_iff.mp hd
      rw [(hi.of_finished hs).1]
      exact h.drained hd

theorem run_recorded (hctx : Constructed ctx)
    (h : Runs SpliceIo.loopBody (.of fun _ => True) Always (.ofCtx ctx) () ts io ()) :
    Recorded ts io := by
  apply h.history (fun ts io _ => Recorded ts io) hctx.fresh.recorded
  intro ts io _ t io' _ hI hs _ _
  exact hI.step (step_iff.mp hs)

/-- A closed fill end stays closed. -/
theorem run_source_done {us : List (Turn calls (IoResult Unit))}
    (h : Runs SpliceIo.loopBody (.of fun _ => True) Always io () us io' ())
    (hd : io.splicer.isSourceDone = true) :
    io'.splicer.isSourceDone = true ∧ io'.splicer.bytesRead = io.splicer.bytesRead := by
  apply transfer_invariant (fun u _ => u.splicer.isSourceDone = true ∧
    u.splicer.bytesRead = io.splicer.bytesRead) h ⟨hd, rfl⟩
  rintro u _ t u' _ ⟨hdone, hread⟩ hi _ _
  obtain ⟨hdone', hread'⟩ := hi.of_source_done hdone
  exact ⟨hdone', hread'.trans hread⟩

/-- In every reachable state the records agree, a closed fill end ends all reading, and a splice
asks for at least one byte, in its own state only. -/
theorem representation (hctx : Constructed ctx)
    (h : Runs SpliceIo.loopBody (.of fun _ => True) Always (.ofCtx ctx) () ts io ()) :
    Recorded ts io ∧
    (io.splicer.isSourceDone = true → ∀ us io',
      Runs SpliceIo.loopBody (.of fun _ => True) Always io () us io' () →
      io'.splicer.isSourceDone = true ∧ io'.splicer.bytesRead = io.splicer.bytesRead ∧
      ∀ off maxLen answer, ⟨.spliceIn off maxLen, answer⟩ ∉ us.flatMap Turn.events) ∧
    ∀ es o, (SpliceIo.loopBody io).Run es o →
      (∀ off maxLen answer, ⟨.spliceIn off maxLen, answer⟩ ∈ es →
        io.state = .fill ∧ io.splicer.isSourceDone = false ∧
        maxLen = io.splicer.sizeToSplice - io.splicer.bytesRead ∧ 1 ≤ maxLen) ∧
      ∀ off maxLen answer, ⟨.spliceOut off maxLen, answer⟩ ∈ es →
        io.state = .drain ∧ io.splicer.pipe.isDrainDone = false ∧
        maxLen = io.splicer.bytesRead - io.splicer.bytesWritten ∧ 1 ≤ maxLen := by
  refine ⟨run_recorded hctx h, ?_, ?_⟩
  · intro hd us io' hrun
    obtain ⟨hdone, hread⟩ := run_source_done hrun hd
    refine ⟨hdone, hread, ?_⟩
    intro off maxLen answer he
    obtain ⟨t, ht, he⟩ := List.mem_flatMap.mp he
    -- the iteration of the call starts from a state whose fill end is closed
    obtain ⟨pre, post, u, v, u', v', -, hpre, hs, -, -, -⟩ := hrun.split ht
    have hclosed := (run_source_done hpre hd).1
    have hopen := (spliceIn_asked hs he).2.1
    cases hopen.symm.trans hclosed
  · intro es o hrun
    constructor
    · intro off maxLen answer he
      obtain ⟨hs, hopen, -, hlt, hmax⟩ := spliceIn_asked hrun he
      exact ⟨hs, hopen, hmax, by omega⟩
    · intro off maxLen answer he
      obtain ⟨hs, hopen, -, hlt, hmax⟩ := spliceOut_asked hrun he
      exact ⟨hs, hopen, hmax, by omega⟩

/-- Five bytes and an EOF: the fill end is closed, five bytes are still to be drained. -/
theorem representation_eof :
    Recorded [fillTurn none isizeMax ⟨.ok 5, none⟩, fillTurn none (isizeMax - 5) ⟨.ok 0, none⟩]
      ⟨({ SpliceCtx.new .granted with bytesRead := 5 } : SpliceCtx).setFillDone, .drain⟩ := by
  have hfills := granted_fills (n := 5) (by decide) (by decide)
  have hends := granted_ends (n := 5) (by decide)
  exact (representation (.new Pipe.new_granting)
    (.step_of (step_iff.mpr hfills) (by simp) trivial
      (.step_of (step_iff.mpr hends) (by simp) trivial (.refl _ ())))).1

end Recording

end Splicer
