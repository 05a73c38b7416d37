import Splicer.Invariant

/-! Panic freedom: the `expect`s, the `unreachable!` arm and the counter subtractions. -/
namespace Splicer

open Interaction

/-- What sends a drain iteration back to `Fill`: a `splice_out` of zero bytes, or a
`try_io_write` that answers `WouldBlock` for an empty pipe. -/
def Retreat (ctx : SpliceCtx) : Event calls → Prop
  | ⟨.tryIoWrite, .err e⟩ => e.kind = .wouldBlock ∧ ctx.bytesRead = ctx.bytesWritten
  | ⟨.spliceOut _ _, ⟨.ok n, _⟩⟩ => n = 0
  | _ => False

/-- A retreat after the source ended below the target. -/
def EofRetreat (io : SpliceIo) (t : Turn calls (IoResult Unit)) : Prop :=
  io.state = .drain ∧ io.splicer.isSourceDone = true ∧
    io.splicer.bytesRead < io.splicer.sizeToSplice ∧ ∃ e ∈ t.events, Retreat io.splicer e

/-- `Fill` is entered with an open fill end, or with nothing left to read. -/
structure Sound (io : SpliceIo) : Prop where
  counted : Counted io
  fillable : io.state = .fill → io.splicer.isSourceDone = true →
    io.splicer.bytesRead = io.splicer.sizeToSplice

variable {ctx ctx' : SpliceCtx} {io io' : SpliceIo} {es : List (Event calls)}
  {res : IoResult SpliceOutcome} {t : Turn calls (IoResult Unit)} {why : Panic}

theorem Fresh.sound (h : Fresh ctx) : Sound (.ofCtx ctx) where
  counted := h.counted
  fillable := by simp [SpliceIo.ofCtx, h.fill]

/-- A fill attempt that goes on filling has not closed the fill end. -/
theorem FillAttempt.fill_open (h : FillAttempt ctx es res ctx') {b : Bool}
    (hn : afterFill b res = some .fill) (hfd : ctx'.isSourceDone = true) :
    ctx.isSourceDone = true ∧ ctx' = ctx := by
  cases h with
  | gate e => exact ⟨hfd, rfl⟩
  | target | eof => simp [afterFill] at hn
  | failed hlt hopen => cases hfd.symm.trans hopen
  | moved hlt hopen => cases hfd.symm.trans hopen

/-- A drain attempt returns to `Fill` by a retreat, or because the pipe ran empty. -/
theorem DrainAttempt.fill_cases (h : DrainAttempt ctx es res ctx')
    (hle : ctx.bytesWritten ≤ ctx.bytesRead)
    (hn : afterDrain ctx'.pipeHasData res = .fill) :
    ctx.isSourceDone = false ∨ ∃ e ∈ es, Retreat ctx e := by
  cases h with
  | gate e =>
    right
    refine ⟨_, List.mem_singleton_self _, ?_⟩
    have herror := afterDrain_error ctx.pipeHasData e
    rw [hn] at herror
    cases herror with
    | fill hk hd =>
      have hnot : ¬ ctx.bytesWritten < ctx.bytesRead := by
        simp [← SpliceCtx.pipeHasData_iff, hd]
      exact ⟨hk, by omega⟩
  | closed => simp [afterDrain] at hn
  | empty heq hfd => exact .inl hfd
  | @failed e off hlt hfd =>
    have hd : (ctx.storeOut off).pipeHasData = true := by simpa using hlt
    have herror := afterDrain_error (ctx.storeOut off).pipeHasData e
    rw [hn] at herror
    cases herror with
    | fill _ hno => cases hd.symm.trans hno
  | stuck =>
    right
    exact ⟨_, List.mem_cons_of_mem _ (List.mem_singleton_self _), rfl⟩
  | moved => simp [afterDrain] at hn

theorem Sound.step (h : Sound io) (hi : Iteration io t io') (hb : ∀ e ∈ t.events, Bounded e)
    (ht : ¬ EofRetreat io t) : Sound io' := by
  refine ⟨h.counted.step hi hb, ?_⟩
  have hle := h.counted.written_le
  have hread := h.counted.read_le
  cases hi with
  | pending => exact h.fillable
  | failed => exact h.fillable
  | clean => exact h.fillable
  | fault => intro hs; cases hs
  | fill hs hf hn =>
    rintro rfl hfd
    obtain ⟨hfd, rfl⟩ := hf.fill_open hn hfd
    exact h.fillable hs hfd
  | drain hs hd =>
    intro hnext hfd
    obtain ⟨htarget, hr, hsrc⟩ := hd.frame
    have hfd : io.splicer.isSourceDone = true := hsrc ▸ hfd
    rcases hd.fill_cases hle hnext with hopen | ⟨e, he, hret⟩
    · cases hfd.symm.trans hopen
    · have hnot : ¬ io.splicer.bytesRead < io.splicer.sizeToSplice := by
        intro hlt
        exact ht ⟨hs, hfd, hlt, e, List.mem_cons_of_mem _ he, hret⟩
      simp only [hr, htarget]
      omega

theorem Sound.no_crash (h : Sound io) (hb : ∀ e ∈ es, Bounded e) : ¬ Crash io es why := by
  have hw := h.counted.written_le
  have hr := h.counted.read_le
  have ht := h.counted.target_le
  intro hc
  cases hc with
  | fillUnderflow hs hlt => omega
  | fillClosed hs hlt hfd =>
    have heq := h.fillable hs hfd
    omega
  | @fillOverflow n off hs hlt hfd hmax =>
    have hn : n + 1 ≤ io.splicer.sizeToSplice - io.splicer.bytesRead := by
      simpa [Bounded] using hb
    omega
  | drainUnderflow hs hlt => omega
  | drainClosed hs hlt hfd => cases hs.symm.trans (h.counted.drained hfd)
  | @drainOverflow n off hs hlt hfd hmax =>
    have hn : n + 1 ≤ io.splicer.bytesRead - io.splicer.bytesWritten := by
      simpa [Bounded] using hb
    omega

/-- After the retreat, the first fill attempt meets the closed fill end. -/
theorem EofRetreat.crash (ht : EofRetreat io t) (hi : Iteration io t io') :
    Crash io' [⟨.pollReadReady, .ready (.ok ())⟩, ⟨.tryIoRead, .callInner⟩] .closedFd := by
  obtain ⟨hs, hfd, hlt, e, he, hret⟩ := ht
  cases hi with
  | pending | failed => simp [hs, checked] at he; subst he; cases hret
  | fill hs' => cases hs.symm.trans hs'
  | clean hs' => cases hs.symm.trans hs'
  | fault hs' => cases hs.symm.trans hs'
  | drain _ hd =>
    rcases List.mem_cons.mp he with rfl | he
    · cases hret
    · cases hd with
      | gate e' =>
        cases List.mem_singleton.mp he
        obtain ⟨hk, heq⟩ := hret
        exact .fillClosed (by simp [afterDrain, hk, SpliceCtx.pipeHasData, heq]) hlt hfd
      | stuck => exact .fillClosed rfl (by simpa using hlt) (by simpa using hfd)
      | closed | empty =>
        cases List.mem_singleton.mp he
        cases hret
      | failed =>
        simp only [List.mem_cons, List.not_mem_nil, or_false] at he
        rcases he with rfl | rfl <;> cases hret
      | moved _ _ hn _ =>
        simp only [List.mem_cons, List.not_mem_nil, or_false] at he
        rcases he with rfl | rfl
        · cases hret
        · cases hret
          exact absurd hn (Nat.lt_irrefl 0)

theorem run_sound {C} {ts : List (Turn calls (IoResult Unit))}
    (h : Runs SpliceIo.loopBody (.of Bounded) C io () ts io' ())
    (hC : ∀ io t, C io () t → ¬ EofRetreat io t) (init : Sound io) : Sound io' := by
  apply transfer_invariant (fun io _ => Sound io) h init
  intro io w t io' w' hI hi ha hc
  exact hI.step hi (Env.accepts_of.mp ha) (hC io t hc)

/-- No panic, in any run that never retreats from the drain at an end of source below the
target; and one such retreat makes the next fill attempt panic. -/
theorem pollExecute_never_panics (hctx : Constructed ctx)
    {ts : List (Turn calls (IoResult Unit))}
    (h : Runs SpliceIo.loopBody (.of Bounded) (fun io _ t => ¬ EofRetreat io t) (.ofCtx ctx) ()
      ts io ()) :
    (∀ es why, (∀ e ∈ es, Bounded e) → ¬ Machine.Panics SpliceIo.loopBody io es why) ∧
    ∀ t io', Machine.Step SpliceIo.loopBody io t io' → EofRetreat io t →
      Machine.Panics SpliceIo.loopBody io'
        [⟨.pollReadReady, .ready (.ok ())⟩, ⟨.tryIoRead, .callInner⟩] .closedFd := by
  have hsound := run_sound h (fun _ _ hc => hc) hctx.fresh.sound
  constructor
  · intro es why hb hp
    exact hsound.no_crash hb (panics_iff.mp hp)
  · intro t io' hs ht
    exact panics_iff.mpr (ht.crash (step_iff.mp hs))

/-- Five bytes and the end of the source: the hypotheses hold of an ordinary run. -/
theorem pollExecute_never_panics_eof :
    ∃ io, (∀ es why, (∀ e ∈ es, Bounded e) → ¬ Machine.Panics SpliceIo.loopBody io es why) ∧
      io.state = .drain ∧ io.splicer.bytesRead = 5 := by
  let ctx : SpliceCtx := { SpliceCtx.new .granted with bytesRead := 5 }
  have h₁ : Iteration (.ofCtx (.new .granted)) (fillTurn none isizeMax ⟨.ok 5, none⟩)
      ⟨ctx, .fill⟩ := granted_fills (by decide) (by decide)
  have h₂ : Iteration ⟨ctx, .fill⟩ (fillTurn none (isizeMax - 5) ⟨.ok 0, none⟩)
      ⟨ctx.setFillDone, .drain⟩ := granted_ends (by decide)
  refine ⟨_, (pollExecute_never_panics (.new Pipe.new_granting)
    (.step_of (step_iff.mpr h₁) (fillTurn_bounded (by decide)) ?_
      (.step_of (step_iff.mpr h₂) (fillTurn_bounded (Nat.zero_le _)) ?_ (.refl _ ())))).1, rfl, rfl⟩
  · rintro ⟨hs, -⟩
    cases hs
  · rintro ⟨hs, -⟩
    cases hs

/-- The source ends below the target, the writer accepts nothing once, and the reader is ready. -/
theorem pollExecute_panics_closedFd :
    ∃ ts io es, Constructed (SpliceCtx.new .granted) ∧
      Runs SpliceIo.loopBody (.of Bounded) Unready (.ofCtx (SpliceCtx.new .granted)) () ts io () ∧
      (∀ e ∈ es, Bounded e) ∧ Machine.Panics SpliceIo.loopBody io es .closedFd := by
  let ctx : SpliceCtx := { SpliceCtx.new .granted with bytesRead := 5 }
  have h₁ : Iteration (.ofCtx (.new .granted)) (fillTurn none isizeMax ⟨.ok 5, none⟩)
      ⟨ctx, .fill⟩ := granted_fills (by decide) (by decide)
  have h₂ : Iteration ⟨ctx, .fill⟩ (fillTurn none (isizeMax - 5) ⟨.ok 0, none⟩)
      ⟨ctx.setFillDone, .drain⟩ := granted_ends (by decide)
  have h₃ : Iteration ⟨ctx.setFillDone, .drain⟩ (drainTurn none 5 ⟨.ok 0, none⟩)
      ⟨ctx.setFillDone, .fill⟩ := .drain rfl (.stuck (by decide) rfl)
  refine ⟨_, _, [⟨.pollReadReady, .ready (.ok ())⟩, ⟨.tryIoRead, .callInner⟩],
    .new Pipe.new_granting,
    .step_of (step_iff.mpr h₁) (fillTurn_bounded (by decide)) rfl
      (.step_of (step_iff.mpr h₂) (fillTurn_bounded (Nat.zero_le _)) rfl
        (.step_of (step_iff.mpr h₃) (by simp [drainTurn, Bounded]) rfl (.refl _ ()))),
    by simp [Bounded], panics_iff.mpr (.fillClosed rfl (by decide) rfl)⟩

end Splicer
