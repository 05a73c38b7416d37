import Splicer.Safety

/-! Where a transfer waits: on the reader, on the writer, and what it still needs to finish. -/
namespace Splicer

open Interaction

/-! ### Waiting with data in the pipe -/

/-- A `splice_out` that succeeds moves something. -/
def Productive : Event calls → Prop
  | ⟨.spliceOut _ _, ⟨.ok n, _⟩⟩ => 0 < n
  | _ => True

/-- Whether the latest attempt was a `splice_in` that moved bytes. -/
def justFilled (b : Bool) : Event calls → Bool
  | ⟨.tryIoRead, _⟩ => false
  | ⟨.tryIoWrite, _⟩ => false
  | ⟨.spliceIn _ _, ⟨.ok n, _⟩⟩ => decide (0 < n)
  | _ => b

/-- The machine sits in `Fill` with data in the pipe right after a fill, and at no other time. -/
structure Poised (io : SpliceIo) (filled : Bool) : Prop where
  counted : Counted io
  clean : Clean io
  filled_iff : filled = true ↔ io.state = .fill ∧ io.splicer.bytesWritten < io.splicer.bytesRead

variable {ctx ctx' : SpliceCtx} {io io' : SpliceIo} {es : List (Event calls)}
  {res : IoResult SpliceOutcome} {t : Turn calls (IoResult Unit)} {filled : Bool}

theorem Fresh.poised (h : Fresh ctx) : Poised (.ofCtx ctx) false where
  counted := h.counted
  clean := by intro hs; cases hs
  filled_iff := by simp [SpliceIo.ofCtx, h.read]

theorem AfterError.fill_empty {b : Bool} {e : IoError} (h : AfterError b e .fill) : b = false := by
  cases h with
  | fill _ hd => exact hd

theorem FillAttempt.justFilled_iff (h : FillAttempt ctx es res ctx')
    (hle : ctx.bytesWritten ≤ ctx.bytesRead) {next : TransferState}
    (hn : afterFill ctx'.pipeHasData res = some next) :
    es.foldl justFilled filled = true ↔
      next = .fill ∧ ctx'.bytesWritten < ctx'.bytesRead := by
  have stays {e : IoError} (hn : afterFill ctx'.pipeHasData (.error e) = some next) :
      ¬ (next = .fill ∧ ctx'.bytesWritten < ctx'.bytesRead) := by
    rintro ⟨rfl, hlt⟩
    have hno := (afterFill_error hn).fill_empty
    have hyes := (SpliceCtx.pipeHasData_iff ctx').mpr hlt
    cases hno.symm.trans hyes
  cases h with
  | gate e => simpa [justFilled] using stays hn
  | failed => simpa [justFilled] using stays hn
  | target | eof =>
    cases hn
    simp [justFilled]
  | moved hlt hopen hpos hmax =>
    cases hn
    simp [justFilled, hpos]
    omega

theorem DrainAttempt.justFilled_eq (h : DrainAttempt ctx es res ctx') (filled : Bool) :
    es.foldl justFilled filled = false := by
  cases h <;> rfl

/-- A drain attempt that goes back to `Fill` leaves an empty pipe. -/
theorem DrainAttempt.fill_empty (h : DrainAttempt ctx es res ctx')
    (hp : ∀ e ∈ es, Productive e) (hn : afterDrain ctx'.pipeHasData res = .fill) :
    ¬ ctx'.bytesWritten < ctx'.bytesRead := by
  have empty {e : IoError} (hn : afterDrain ctx'.pipeHasData (.error e) = .fill) :
      ¬ ctx'.bytesWritten < ctx'.bytesRead := by
    intro hlt
    have herror := afterDrain_error ctx'.pipeHasData e
    rw [hn] at herror
    have hno := herror.fill_empty
    have hyes := (SpliceCtx.pipeHasData_iff ctx').mpr hlt
    cases hno.symm.trans hyes
  cases h with
  | gate e => exact empty hn
  | failed => exact empty hn
  | empty heq hfd => omega
  | stuck =>
    have hpos := hp _ (List.mem_cons_of_mem _ (List.mem_singleton_self _))
    exact absurd hpos (Nat.lt_irrefl 0)
  | closed | moved => cases hn

theorem Poised.step (h : Poised io filled) (hi : Iteration io t io')
    (hb : ∀ e ∈ t.events, Bounded e) (hp : ∀ e ∈ t.events, Productive e)
    (ht : t.flow.ready? = none) : Poised io' (t.events.foldl justFilled filled) := by
  refine ⟨h.counted.step hi hb, h.clean.step hi ht, ?_⟩
  cases hi with
  | pending =>
    have hsame : justFilled filled (checked io.state .pending) = filled := by
      cases io.state <;> rfl
    rw [List.foldl_cons, hsame]
    exact h.filled_iff
  | failed | clean | fault => cases ht
  | fill hs hf hn => exact hf.justFilled_iff h.counted.written_le hn
  | drain hs hd =>
    have hfold := hd.justFilled_eq filled
    have hp := fun e he => hp e (List.mem_cons_of_mem _ he)
    constructor
    · intro hfilled
      cases hfold.symm.trans hfilled
    · rintro ⟨hnext, hlt⟩
      exact absurd hlt (hd.fill_empty hp hnext)

/-- A transfer with its history: whether its latest attempt was a fill that moved bytes. -/
def history : Env calls (Unit × Bool) :=
  (Env.of fun e => Bounded e ∧ Productive e).ghost justFilled

theorem run_poised {ts : List (Turn calls (IoResult Unit))} (hctx : Constructed ctx)
    (h : Runs SpliceIo.loopBody history Unready (.ofCtx ctx) ((), false) ts io ((), filled)) :
    Poised io filled := by
  apply transfer_invariant (fun io w => Poised io w.2) h hctx.fresh.poised
  rintro io ⟨u, b⟩ t io' ⟨u', b'⟩ hI hi ha hc
  obtain ⟨hof, rfl⟩ := Env.accepts_ghost.mp ha
  have hall := Env.accepts_of.mp hof
  exact hI.step hi (fun e he => (hall e he).1) (fun e he => (hall e he).2) hc

/-- A `Pending` with data in the pipe comes from the writer, or from the shutdown after a
fault, exactly when it does not come right after a fill that moved bytes. -/
theorem parks_on_writer_iff {ts : List (Turn calls (IoResult Unit))} (hctx : Constructed ctx)
    (h : Runs SpliceIo.loopBody history Unready (.ofCtx ctx) ((), false) ts io ((), filled))
    (hs : Machine.Step SpliceIo.loopBody io t io') (ht : t.flow = .done .pending)
    (hdata : io.splicer.bytesWritten < io.splicer.bytesRead) :
    (io.state = .drain ∧ t.events = [⟨.pollWriteReady, .pending⟩] ∨
      ∃ e, io.state = .finished (some e) ∧ t.events = [⟨.pollShutdown, .pending⟩]) ↔
    filled = false := by
  have hpoised := run_poised hctx h
  cases step_iff.mp hs with
  | failed | fill | drain | clean | fault => cases ht
  | pending =>
    cases hstate : io.state with
    | fill =>
      have hfilled := hpoised.filled_iff.mpr ⟨hstate, hdata⟩
      simp [hfilled]
    | drain =>
      have hnot : filled ≠ true := by
        intro hfilled
        cases hstate.symm.trans (hpoised.filled_iff.mp hfilled).1
      simpa [checked] using hnot
    | finished error =>
      have hnot : filled ≠ true := by
        intro hfilled
        cases hstate.symm.trans (hpoised.filled_iff.mp hfilled).1
      cases error with
      | none =>
        obtain ⟨-, heq⟩ := hpoised.clean hstate
        omega
      | some e => simpa [checked] using hnot

/-- A fill of eight bytes, a source with no more for now, and a writer that is not ready. -/
theorem parks_on_writer_iff_drain :
    ∃ io, io.state = .drain ∧ io.splicer.bytesRead = 8 ∧
      Machine.Step SpliceIo.loopBody io ⟨[⟨.pollWriteReady, .pending⟩], .done .pending⟩ io := by
  let ctx : SpliceCtx := { SpliceCtx.new .granted with bytesRead := 8 }
  have h₁ : Iteration (.ofCtx (.new .granted)) (fillTurn none isizeMax ⟨.ok 8, none⟩)
      ⟨ctx, .fill⟩ := granted_fills (by decide) (by decide)
  have h₂ : Iteration ⟨ctx, .fill⟩ (fillTurn none (isizeMax - 8) ⟨.error .wouldBlock, none⟩)
      ⟨ctx, .drain⟩ := granted_blocks (by decide) (by decide)
  have hrun : Runs SpliceIo.loopBody (.of fun e => Bounded e ∧ Productive e) Unready
      (.ofCtx (.new .granted)) () _ ⟨ctx, .drain⟩ () :=
    .step_of (step_iff.mpr h₁) (by simp [fillTurn, Bounded, Productive]; decide) rfl
      (.step_of (step_iff.mpr h₂) (by simp [fillTurn, Bounded, Productive]) rfl (.refl _ _))
  have hs : Machine.Step SpliceIo.loopBody ⟨ctx, .drain⟩
      ⟨[⟨.pollWriteReady, .pending⟩], .done .pending⟩ ⟨ctx, .drain⟩ := step_iff.mpr .pending
  rcases (parks_on_writer_iff (.new Pipe.new_granting) (hrun.ghost justFilled false) hs rfl
    (by decide)).mpr rfl with ⟨hstate, -⟩ | ⟨e, hstate, -⟩
  · exact ⟨_, hstate, rfl, hs⟩
  · cases hstate

/-- After the same fill the source is not ready either: eight bytes wait in the pipe. -/
theorem parks_on_reader :
    Constructed (.new .granted) ∧ ∃ ts io t,
      Runs SpliceIo.loopBody (.of fun e => Bounded e ∧ Productive e) Unready
        (.ofCtx (.new .granted)) () ts io () ∧
      Machine.Step SpliceIo.loopBody io t io ∧ t.flow = .done .pending ∧ io.state = .fill ∧
      t.events = [⟨.pollReadReady, .pending⟩] ∧
      io.splicer.bytesWritten < io.splicer.bytesRead := by
  let ctx : SpliceCtx := { SpliceCtx.new .granted with bytesRead := 8 }
  have h₁ : Iteration (.ofCtx (.new .granted)) (fillTurn none isizeMax ⟨.ok 8, none⟩)
      ⟨ctx, .fill⟩ := granted_fills (by decide) (by decide)
  refine ⟨.new Pipe.new_granting, _, ⟨ctx, .fill⟩, ⟨[⟨.pollReadReady, .pending⟩], .done .pending⟩,
    .step_of (step_iff.mpr h₁) (by simp [fillTurn, Bounded, Productive]; decide) rfl (.refl _ _),
    step_iff.mpr .pending, rfl, rfl, rfl, by decide⟩

end Splicer
