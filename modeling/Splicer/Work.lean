import Splicer.Parking
import Splicer.Trace

/-! One poll does a bounded amount of work: what its loop costs, byte by byte. -/
namespace Splicer

open Interaction

/-- What one call may spend: an iteration a byte on either side, three for each `WouldBlock`,
and five more. -/
def allowance (es : List (Event calls)) : ℕ :=
  tally bytesIn es + tally bytesOut es + 3 * tally blocked es + 5

/-- What an event pays for. -/
def pay (ev : Event calls) : ℕ := bytesIn ev + bytesOut ev + 2 * blocked ev

/-- What a state may still spend before an event pays again. -/
def potential (io : SpliceIo) : ℕ :=
  match io.state with
  | .finished _ => 0
  | .fill => 2
  | .drain => if io.splicer.isSourceDone then 1 else 3

section Work

variable {ctx ctx' : SpliceCtx} {io io' : SpliceIo} {es : List (Event calls)}
  {res : IoResult SpliceOutcome} {t : Turn calls (IoResult Unit)}
  {ts : List (Turn calls (IoResult Unit))}

theorem potential_drain (ctx : SpliceCtx) :
    potential ⟨ctx, .drain⟩ = if ctx.isSourceDone then 1 else 3 := rfl

theorem potential_drain_le (ctx : SpliceCtx) : potential ⟨ctx, .drain⟩ ≤ 3 := by
  rw [potential_drain]
  split <;> omega

theorem potential_drain_pos (ctx : SpliceCtx) : 1 ≤ potential ⟨ctx, .drain⟩ := by
  rw [potential_drain]
  split <;> omega

theorem pay_le_allowance (es : List (Event calls)) : tally pay es + 5 ≤ allowance es := by
  have hpay : tally pay es = tally bytesIn es + tally bytesOut es + 2 * tally blocked es := by
    induction es with
    | nil => rfl
    | cons ev es ih =>
      simp only [tally_cons, ih, pay]
      omega
  unfold allowance
  omega

/-- An error pays two if it is a `WouldBlock`, and ends the loop for good if it is not. -/
theorem AfterError.potential_le {e : IoError} {next : TransferState} {b : Bool}
    (h : AfterError b e next) :
    potential ⟨ctx, next⟩ + 1 ≤ 2 + 2 * (if e.kind = .wouldBlock then 1 else 0) := by
  cases h with
  | drain hk =>
    have hdrain := potential_drain_le ctx
    simp only [hk, if_true]
    omega
  | fill hk => simp [hk, potential]
  | faulted hk => simp [hk, potential]

/-- From `Drain` as well: it stays, or falls to the potential of `Fill`. -/
theorem AfterError.potential_drain_le {e : IoError} {next : TransferState} {b : Bool}
    (h : AfterError b e next) (hdone : ctx'.isSourceDone = ctx.isSourceDone) :
    potential ⟨ctx', next⟩ + 1 ≤
      potential ⟨ctx, .drain⟩ + 2 * (if e.kind = .wouldBlock then 1 else 0) := by
  have hpos := potential_drain_pos ctx
  cases h with
  | drain hk =>
    have hsame : potential ⟨ctx', .drain⟩ = potential ⟨ctx, .drain⟩ := by
      rw [potential_drain, potential_drain, hdone]
    simp only [hk, if_true]
    omega
  | fill hk =>
    have hfill : potential ⟨ctx', .fill⟩ = 2 := rfl
    simp only [hk, if_true]
    omega
  | faulted hk =>
    have hfinished : potential ⟨ctx', .finished (some e)⟩ = 0 := rfl
    simp only [hk, if_false]
    omega

theorem FillAttempt.potential_le (h : FillAttempt ctx es res ctx') {next : TransferState}
    (hn : afterFill ctx'.pipeHasData res = some next) :
    potential ⟨ctx', next⟩ + 1 ≤ 2 + tally pay es := by
  cases h with
  | gate e => simpa [pay, bytesIn, bytesOut, blocked] using (afterFill_error hn).potential_le
  | failed => simpa [pay, bytesIn, bytesOut, blocked] using (afterFill_error hn).potential_le
  | target | eof =>
    cases hn
    simp [potential, pay, bytesIn, bytesOut, blocked]
  | moved _ _ hpos _ =>
    cases hn
    simp [potential, pay, bytesIn, bytesOut, blocked]
    omega

theorem DrainAttempt.potential_le (h : DrainAttempt ctx es res ctx')
    (hp : ∀ ev ∈ es, Productive ev) :
    potential ⟨ctx', afterDrain ctx'.pipeHasData res⟩ + 1 ≤
      potential ⟨ctx, .drain⟩ + tally pay es := by
  have hsame := h.frame.2.2
  cases h with
  | gate e =>
    have herror := (afterDrain_error ctx.pipeHasData e).potential_drain_le hsame
    simpa [pay, bytesIn, bytesOut, blocked] using herror
  | @failed e off =>
    have herror := (afterDrain_error (ctx.storeOut off).pipeHasData e).potential_drain_le hsame
    simpa [pay, bytesIn, bytesOut, blocked] using herror
  | closed _ hfd =>
    have hpos := potential_drain_pos ctx
    have hfinished : potential ⟨ctx.setDrainDone, .finished none⟩ = 0 := rfl
    simp only [afterDrain]
    omega
  | empty _ hfd =>
    have hdrain : potential ⟨ctx, .drain⟩ = 3 := by
      rw [potential_drain, hfd]
      rfl
    have hfill : potential ⟨ctx, .fill⟩ = 2 := rfl
    simp only [afterDrain]
    omega
  | stuck =>
    have hpos := hp _ (List.mem_cons_of_mem _ (List.mem_singleton_self _))
    exact absurd hpos (Nat.lt_irrefl 0)
  | @moved n off _ _ hpos _ =>
    have hstay : potential
        ⟨{ ctx.storeOut off with bytesWritten := ctx.bytesWritten + n }, .drain⟩ =
        potential ⟨ctx, .drain⟩ := by
      rw [potential_drain, potential_drain, hsame]
    simp only [afterDrain, tally_cons, tally_nil, pay, bytesIn, bytesOut, blocked] at hstay ⊢
    omega

/-- Each iteration that goes on is paid for. -/
theorem Iteration.potential_le (hi : Iteration io t io') (hp : ∀ ev ∈ t.events, Productive ev)
    (ht : t.flow = .again) : potential io' + 1 ≤ potential io + tally pay t.events := by
  cases hi with
  | pending | failed | clean | fault => cases ht
  | @fill es res ctx next hs hf hn =>
    have hfill : potential io = 2 := by simp [potential, hs]
    have hattempt := hf.potential_le hn
    simp only [tally_cons]
    omega
  | @drain es res ctx hs hd =>
    have hdrain : potential io = potential ⟨io.splicer, .drain⟩ := by simp [potential, hs]
    have hattempt := hd.potential_le fun ev he => hp ev (List.mem_cons_of_mem _ he)
    simp only [tally_cons]
    omega

theorem run_potential_le
    (h : Runs SpliceIo.loopBody (.of Productive) (fun _ _ t => t.flow = .again) io () ts io' ()) :
    ts.length + potential io' ≤ potential io + tally pay (ts.flatMap Turn.events) := by
  apply h.length_add_potential_le
  intro u _ t u' _ hs ha ht
  exact (step_iff.mp hs).potential_le (Env.accepts_of.mp ha) ht

/-- From any state, the iterations of one call are within its allowance: those that go on and the
one after them, however it ends. No amount of fuel makes a call run longer. -/
theorem poll_work (io : SpliceIo) :
    (∀ ts io' es o,
      Runs SpliceIo.loopBody (.of fun _ => True) (fun _ _ t => t.flow = .again) io () ts io' () →
      (SpliceIo.loopBody io').Run es o →
      (∀ ev ∈ ts.flatMap Turn.events ++ es, Productive ev) →
      ts.length + 1 ≤ allowance (ts.flatMap Turn.events ++ es)) ∧
    ∀ fuel es, (io.pollExecute fuel).Run es (.val none) →
      (∀ ev ∈ es, Productive ev) → fuel < allowance es := by
  have hstart : potential io ≤ 3 := by
    cases hs : io.state with
    | drain => simpa [potential, hs] using potential_drain_le io.splicer
    | fill | finished => simp [potential, hs]
  have hrun {ts io'} (h : Runs SpliceIo.loopBody (.of fun _ => True) (fun _ _ t => t.flow = .again)
      io () ts io' ()) (hp : ∀ ev ∈ ts.flatMap Turn.events, Productive ev) :
      ts.length ≤ 3 + tally pay (ts.flatMap Turn.events) := by
    have hle := run_potential_le (h.accept (Env.accepts_of.mpr hp))
    omega
  constructor
  · intro ts io' es o h hlast hproductive
    have hle := hrun h fun ev he => hproductive ev (List.mem_append_left _ he)
    have hallow := pay_le_allowance (ts.flatMap Turn.events ++ es)
    rw [tally_append] at hallow
    omega
  · intro fuel es h hproductive
    obtain ⟨ts, u, hr, hlen, rfl⟩ := Machine.run_iterate_none h
    have hr := hr.mono (fun _ _ _ he => he) fun _ _ t ht => (Flow.poll?_eq_none).mp ht
    have hle := hrun hr hproductive
    have hallow := pay_le_allowance (ts.flatMap Turn.events)
    omega

/-- A fill of five bytes, a `WouldBlock`, and a writer that is not ready: three iterations. -/
theorem poll_work_blocked :
    3 ≤ allowance ([fillTurn none isizeMax ⟨.ok 5, none⟩,
      fillTurn none (isizeMax - 5) ⟨.error .wouldBlock, none⟩].flatMap Turn.events ++
        [⟨.pollWriteReady, .pending⟩]) := by
  have hfills := granted_fills (n := 5) (by decide) (by decide)
  have hblocks := granted_blocks (n := 5) (by decide) (by decide)
  exact (poll_work (.ofCtx (.new .granted))).1 _ _ [⟨.pollWriteReady, .pending⟩] _
    (.step_of (step_iff.mpr hfills) (by simp) rfl
      (.step_of (step_iff.mpr hblocks) (by simp) rfl (.refl _ ())))
    (Iteration.run .pending) (by simp [fillTurn, Productive])

end Work

end Splicer
