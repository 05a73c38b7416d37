import Splicer.Safety

/-! A reached target: what the machine still asks of the reader, and how it completes. -/
namespace Splicer

open Interaction

variable {ctx ctx' : SpliceCtx} {io io' : SpliceIo} {es : List (Event calls)}
  {res : IoResult SpliceOutcome} {t : Turn calls (IoResult Unit)} {why : Panic}

/-- With the target read, a fill iteration finds the reader ready and runs its closure, and a
drain iteration does not retreat. -/
def Served (io : SpliceIo) (t : Turn calls (IoResult Unit)) : Prop :=
  io.splicer.bytesRead = io.splicer.sizeToSplice →
    (io.state = .fill →
      t.events = [⟨.pollReadReady, .ready (.ok ())⟩, ⟨.tryIoRead, .callInner⟩]) ∧
    (io.state = .drain → ∀ e ∈ t.events, ¬ Retreat io.splicer e)

/-- The writer is always ready, always takes something, and shuts down. -/
def Willing : Event calls → Prop
  | ⟨.pollWriteReady, .ready (.ok ())⟩ => True
  | ⟨.pollWriteReady, _⟩ => False
  | ⟨.tryIoWrite, .callInner⟩ => True
  | ⟨.tryIoWrite, _⟩ => False
  | ⟨.spliceOut _ _, ⟨.ok n, _⟩⟩ => 0 < n
  | ⟨.spliceOut _ _, _⟩ => False
  | ⟨.pollShutdown, .ready (.ok ())⟩ => True
  | ⟨.pollShutdown, _⟩ => False
  | _ => True

/-- An upper bound on the iterations a transfer with its target read has left. -/
def SpliceIo.remaining (io : SpliceIo) : ℕ :=
  match io.state with
  | .fill => io.splicer.bytesRead - io.splicer.bytesWritten + 3
  | .drain => io.splicer.bytesRead - io.splicer.bytesWritten + 2
  | .finished _ => 1

/-- A drain that starts with the target read starts with the fill end closed. -/
structure Settled (io : SpliceIo) : Prop where
  counted : Counted io
  clean : Clean io
  drained : io.state = .drain → io.splicer.bytesRead = io.splicer.sizeToSplice →
    io.splicer.isSourceDone = true

theorem Fresh.settled (h : Fresh ctx) : Settled (.ofCtx ctx) where
  counted := h.counted
  clean := by intro hs; cases hs
  drained := by intro hs; cases hs

theorem FillAttempt.target_closed (h : FillAttempt ctx es res ctx')
    (hgate : ctx.bytesRead = ctx.sizeToSplice → es = [⟨.tryIoRead, .callInner⟩])
    {b : Bool} (hn : afterFill b res = some .drain)
    (hT : ctx'.bytesRead = ctx'.sizeToSplice) : ctx'.isSourceDone = true := by
  cases h with
  | gate e =>
    have hgate := hgate hT
    cases hgate
  | target => rfl
  | failed hlt => exact absurd hT (Nat.ne_of_lt hlt)
  | eof => rfl
  | moved => simp [afterFill] at hn

theorem Settled.step (h : Settled io) (hi : Iteration io t io') (hb : ∀ e ∈ t.events, Bounded e)
    (hS : Served io t) (ht : t.flow.ready? = none) : Settled io' := by
  refine ⟨h.counted.step hi hb, h.clean.step hi ht, ?_⟩
  cases hi with
  | pending => exact h.drained
  | failed | clean | fault => cases ht
  | fill hs hf hn =>
    rintro rfl hT
    apply hf.target_closed _ hn hT
    intro hT₀
    exact (List.cons.inj ((hS hT₀).1 hs)).2
  | drain hs hd =>
    intro hnext hT
    obtain ⟨htarget, hread, hdone⟩ := hd.frame
    simp only [hdone]
    apply h.drained hs
    rw [← htarget, ← hread]
    exact hT

/-- With the target read, one iteration leaves `Fill` for good, and none that returns has asked
the reader. -/
theorem Settled.target_step (h : Settled io)
    (hT : io.splicer.bytesRead = io.splicer.sizeToSplice) (hi : Iteration io t io')
    (hS : Served io t) :
    (∀ p, t.flow = .done p → ∀ a, ⟨.pollReadReady, a⟩ ∉ t.events) ∧
      io'.splicer.bytesRead = io'.splicer.sizeToSplice ∧ io'.state ≠ .fill := by
  obtain ⟨hfill, hdrain⟩ := hS hT
  cases hi with
  | pending | failed =>
    have hne : io.state ≠ .fill := by
      intro hs
      have hlen := congrArg List.length (hfill hs)
      simp at hlen
    refine ⟨?_, hT, hne⟩
    intro p _ a ha
    cases hs : io.state with
    | fill => exact hne hs
    | drain => simp [hs, checked] at ha
    | finished => simp [hs, checked] at ha
  | clean hs =>
    refine ⟨by simp, hT, ?_⟩
    intro hs'
    cases hs.symm.trans hs'
  | fault hs => exact ⟨by simp, hT, by simp⟩
  | fill hs hf hn =>
    have hes := (List.cons.inj (hfill hs)).2
    refine ⟨by simp, ?_⟩
    cases hf with
    | gate e => cases hes
    | target heq =>
      cases hn
      exact ⟨heq, by simp⟩
    | failed hlt | eof hlt | moved hlt => exact absurd hT (Nat.ne_of_lt hlt)
  | drain hs hd =>
    obtain ⟨htarget, hread, -⟩ := hd.frame
    refine ⟨by simp, ?_, ?_⟩
    · simp only [htarget, hread, hT]
    · intro hnext
      have hdone := h.drained hs hT
      rcases hd.fill_cases h.counted.written_le hnext with hopen | ⟨e, he, hret⟩
      · cases hdone.symm.trans hopen
      · exact hdrain hs e (List.mem_cons_of_mem _ he) hret

theorem Settled.target_no_crash (h : Settled io)
    (hT : io.splicer.bytesRead = io.splicer.sizeToSplice) (hb : ∀ e ∈ es, Bounded e) :
    ¬ Crash io es why := by
  have hsound : Sound io := ⟨h.counted, fun _ _ => hT⟩
  exact hsound.no_crash hb

theorem run_settled {C} {ts : List (Turn calls (IoResult Unit))}
    (h : Runs SpliceIo.loopBody (.of Bounded) C io () ts io' ())
    (hC : ∀ io t, C io () t → Served io t ∧ t.flow.ready? = none) (init : Settled io) :
    Settled io' := by
  apply transfer_invariant (fun io _ => Settled io) h init
  intro io w t io' w' hI hi ha hc
  obtain ⟨hS, ht⟩ := hC io t hc
  exact hI.step hi (Env.accepts_of.mp ha) hS ht

/-! ### Completion -/

/-- What a willing writer drains, one byte or more at a time. -/
theorem DrainAttempt.willing (h : DrainAttempt ctx es res ctx') (hw : ∀ e ∈ es, Willing e)
    (hfd : ctx.isSourceDone = true) :
    res = .ok .closed ∧ ctx'.bytesWritten = ctx.bytesWritten ∨
      ∃ n, 0 < n ∧ ctx.bytesWritten < ctx.bytesRead ∧ res = .ok (.bytesWritten n) ∧
        ctx'.bytesWritten = ctx.bytesWritten + n := by
  cases h with
  | closed => exact .inl ⟨rfl, rfl⟩
  | @moved n off hlt hopen hn hmax => exact .inr ⟨n, hn, hlt, rfl, rfl⟩
  | empty heq hopen => cases hfd.symm.trans hopen
  | gate e => exact (hw _ (List.mem_singleton_self _)).elim
  | failed => exact (hw _ (List.mem_cons_of_mem _ (List.mem_singleton_self _))).elim
  | stuck =>
    have hpos := hw _ (List.mem_cons_of_mem _ (List.mem_singleton_self _))
    exact absurd hpos (Nat.lt_irrefl 0)

/-- Every iteration before `Ready` takes something off the bound, and no fault appears. -/
theorem Settled.willing_step (h : Settled io)
    (hT : io.splicer.bytesRead = io.splicer.sizeToSplice) (hi : Iteration io t io')
    (hw : ∀ e ∈ t.events, Willing e) (hS : Served io t) (ht : t.flow.ready? = none) :
    io'.remaining < io.remaining ∧
      ((∀ e, io.state ≠ .finished (some e)) → ∀ e, io'.state ≠ .finished (some e)) := by
  obtain ⟨hfill, -⟩ := hS hT
  cases hi with
  | failed | clean | fault => cases ht
  | pending =>
    have hcheck := hw _ (List.mem_singleton_self _)
    cases hs : io.state with
    | fill =>
      have hlen := congrArg List.length (hfill hs)
      simp at hlen
    | drain => simp [hs, checked, Willing] at hcheck
    | finished => simp [hs, checked, Willing] at hcheck
  | fill hs hf hn =>
    have hes := (List.cons.inj (hfill hs)).2
    cases hf with
    | gate e => cases hes
    | target heq =>
      cases hn
      simp [SpliceIo.remaining, hs]
    | failed hlt | eof hlt | moved hlt => exact absurd hT (Nat.ne_of_lt hlt)
  | drain hs hd =>
    have hw := fun e he => hw e (List.mem_cons_of_mem _ he)
    obtain ⟨-, hread, -⟩ := hd.frame
    rcases hd.willing hw (h.drained hs hT) with ⟨rfl, hwritten⟩ | ⟨n, hpos, hlt, rfl, hwritten⟩
    · simp [SpliceIo.remaining, hs, afterDrain]
    · simp only [SpliceIo.remaining, hs, afterDrain, hread, hwritten]
      refine ⟨by omega, ?_⟩
      intro _ e he
      cases he

/-- A willing writer lets the transfer return nothing but `Ok(())`, with the target written. -/
theorem Settled.willing_ready (h : Settled io)
    (hT : io.splicer.bytesRead = io.splicer.sizeToSplice) (hi : Iteration io t io')
    (hw : ∀ e ∈ t.events, Willing e) (hS : Served io t)
    (hgood : ∀ e, io.state ≠ .finished (some e)) {r : IoResult Unit}
    (ht : t.flow = .done (.ready r)) :
    r = .ok () ∧ io'.splicer.bytesWritten = io'.splicer.sizeToSplice := by
  obtain ⟨hfill, -⟩ := hS hT
  cases hi with
  | pending | fill | drain => cases ht
  | failed e =>
    have hcheck := hw _ (List.mem_singleton_self _)
    cases hs : io.state with
    | fill =>
      have hlen := congrArg List.length (hfill hs)
      simp at hlen
    | drain => simp [hs, checked, Willing] at hcheck
    | finished => simp [hs, checked, Willing] at hcheck
  | clean hs =>
    cases ht
    obtain ⟨-, heq⟩ := h.clean hs
    exact ⟨rfl, heq.symm.trans hT⟩
  | fault hs => exact absurd hs (hgood _)

/-- No `Ready` yet, in a run that is served. -/
def Serving (io : SpliceIo) (_ : Unit) (t : Turn calls (IoResult Unit)) : Prop :=
  Served io t ∧ t.flow.ready? = none

theorem Settled.willing_run (h : Settled io)
    (hT : io.splicer.bytesRead = io.splicer.sizeToSplice)
    {us : List (Turn calls (IoResult Unit))}
    (hr : Runs SpliceIo.loopBody (.of fun e => Bounded e ∧ Willing e) Serving io () us io' ()) :
    us.length + io'.remaining ≤ io.remaining ∧ Settled io' ∧
      io'.splicer.bytesRead = io'.splicer.sizeToSplice ∧
      ((∀ e, io.state ≠ .finished (some e)) → ∀ e, io'.state ≠ .finished (some e)) := by
  have step : ∀ u v t u' v', (Settled u ∧ u.splicer.bytesRead = u.splicer.sizeToSplice ∧
        ((∀ e, io.state ≠ .finished (some e)) → ∀ e, u.state ≠ .finished (some e))) →
      Machine.Step SpliceIo.loopBody u t u' →
      (Env.of fun e => Bounded e ∧ Willing e).Accepts v t.events v' → Serving u v t →
      (Settled u' ∧ u'.splicer.bytesRead = u'.splicer.sizeToSplice ∧
        ((∀ e, io.state ≠ .finished (some e)) → ∀ e, u'.state ≠ .finished (some e))) ∧
        u'.remaining < u.remaining := by
    rintro u v t u' v' ⟨hset, htarget, hgood⟩ hs ha ⟨hS, ht⟩
    have hall := Env.accepts_of.mp ha
    have hi := step_iff.mp hs
    obtain ⟨-, htarget', -⟩ := hset.target_step htarget hi hS
    obtain ⟨hlt, hstays⟩ :=
      hset.willing_step htarget hi (fun e he => (hall e he).2) hS ht
    exact ⟨⟨hset.step hi (fun e he => (hall e he).1) hS ht, htarget',
      fun hio => hstays (hgood hio)⟩, hlt⟩
  have hlen := hr.length_add_rank_le ⟨h, hT, id⟩ step
  have hinv := hr.invariant _ ⟨h, hT, id⟩
    fun u v t u' v' hI hs ha hc => (step u v t u' v' hI hs ha hc).1
  exact ⟨hlen, hinv⟩

/-- In a run that is served, once the target is read: no iteration that returns has asked the
reader, none panics, and with a willing writer the rest takes at most `remaining` iterations
and ends in `Ok(())`. Until the first fill iteration after that, a silent reader stops it. -/
theorem target_completes (hctx : Constructed ctx) {ts : List (Turn calls (IoResult Unit))}
    (h : Runs SpliceIo.loopBody (.of Bounded) Serving (.ofCtx ctx) () ts io ())
    (hT : io.splicer.bytesRead = io.splicer.sizeToSplice) :
    (∀ t io', Machine.Step SpliceIo.loopBody io t io' → Served io t →
      (∀ p, t.flow = .done p → ∀ a, ⟨.pollReadReady, a⟩ ∉ t.events) ∧
        io'.splicer.bytesRead = io'.splicer.sizeToSplice ∧ io'.state ≠ .fill) ∧
    (∀ es why, (∀ e ∈ es, Bounded e) → ¬ Machine.Panics SpliceIo.loopBody io es why) ∧
    (∀ us io', Runs SpliceIo.loopBody (.of fun e => Bounded e ∧ Willing e) Serving
        io () us io' () →
      us.length + io'.remaining ≤ io.remaining ∧
      ((∀ e, io.state ≠ .finished (some e)) → ∀ t io'' r,
        Machine.Step SpliceIo.loopBody io' t io'' → (∀ e ∈ t.events, Willing e) →
        Served io' t → t.flow = .done (.ready r) →
        r = .ok () ∧ io''.splicer.bytesWritten = ctx.sizeToSplice)) ∧
    (io.state = .fill → Machine.Step SpliceIo.loopBody io
      ⟨[⟨.pollReadReady, .pending⟩], .done .pending⟩ io) := by
  have hset := run_settled h (fun _ _ hc => hc) hctx.fresh.settled
  refine ⟨?_, ?_, ?_, ?_⟩
  · intro t io' hs hS
    exact hset.target_step hT (step_iff.mp hs) hS
  · intro es why hb hp
    exact hset.target_no_crash hT hb (panics_iff.mp hp)
  · intro us io' hr
    obtain ⟨hlen, hset', hT', hstays⟩ := hset.willing_run hT hr
    have htarget : io'.splicer.sizeToSplice = ctx.sizeToSplice :=
      (run_sizeToSplice hr).trans (run_sizeToSplice h)
    refine ⟨hlen, ?_⟩
    intro hgood t io'' r hs hw hS ht
    have hi := step_iff.mp hs
    obtain ⟨hres, hwritten⟩ := hset'.willing_ready hT' hi hw hS (hstays hgood) ht
    exact ⟨hres, hwritten.trans (hi.sizeToSplice_eq.trans htarget)⟩
  · intro hs
    have hp : Iteration io _ io := .pending
    rw [hs] at hp
    exact step_iff.mpr hp

theorem reads_five : Iteration (.ofCtx ((SpliceCtx.new .granted).withTargetLen 5))
    (fillTurn none 5 ⟨.ok 5, none⟩)
    ⟨{ (SpliceCtx.new .granted).withTargetLen 5 with bytesRead := 5 }, .fill⟩ :=
  .fill rfl (.moved (by decide) rfl (by decide) (by decide)) rfl

/-- A target of five bytes, read in one fill. -/
theorem target_completes_five :
    ∃ io, io.splicer.bytesRead = 5 ∧ io.state = .fill ∧
      ∀ us io', Runs SpliceIo.loopBody (.of fun e => Bounded e ∧ Willing e) Serving
        io () us io' () → us.length + io'.remaining ≤ 8 := by
  let ctx : SpliceCtx := (SpliceCtx.new .granted).withTargetLen 5
  have hserved : Serving (.ofCtx ctx) () (fillTurn none 5 ⟨.ok 5, none⟩) := by
    refine ⟨?_, rfl⟩
    intro hT
    cases hT
  obtain ⟨-, -, hrest, -⟩ := target_completes (.targetLen (.new Pipe.new_granting) rfl 5)
    (.step_of (step_iff.mpr reads_five) (fillTurn_bounded (Nat.le_refl 5)) hserved (.refl _ _)) rfl
  exact ⟨_, rfl, rfl, fun us io' hr => (hrest us io' hr).1⟩

/-- Five bytes of five are read and none is written, and the transfer waits for the reader. -/
theorem target_waits_for_reader :
    Constructed ((SpliceCtx.new .granted).withTargetLen 5) ∧ ∃ ts io t,
      Runs SpliceIo.loopBody (.of Bounded) Unready
        (.ofCtx ((SpliceCtx.new .granted).withTargetLen 5)) () ts io () ∧
      io.splicer.bytesRead = 5 ∧ io.splicer.bytesWritten = 0 ∧
      Machine.Step SpliceIo.loopBody io t io ∧ t.flow = .done .pending ∧
      t.events = [⟨.pollReadReady, .pending⟩] := by
  let ctx : SpliceCtx := (SpliceCtx.new .granted).withTargetLen 5
  exact ⟨.targetLen (.new Pipe.new_granting) rfl 5, _, ⟨{ ctx with bytesRead := 5 }, .fill⟩,
    ⟨[⟨.pollReadReady, .pending⟩], .done .pending⟩,
    .step_of (step_iff.mpr reads_five) (fillTurn_bounded (Nat.le_refl 5)) rfl (.refl _ _), rfl, rfl,
    step_iff.mpr .pending, rfl, rfl⟩

end Splicer
