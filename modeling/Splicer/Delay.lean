import Splicer.Invariant
import Splicer.Interaction.Script

/-! Delays are invisible: where a poll answers `Pending` changes no transfer. -/
namespace Splicer

open Interaction

instance : DecidableEq calls.Channel := inferInstanceAs (DecidableEq Channel)

/-- The answers that put a poll to sleep. -/
def stalled : (k : calls.Channel) → calls.Answer k → Bool
  | .pollReadReady, .pending => true
  | .pollWriteReady, .pending => true
  | .pollShutdown, .pending => true
  | _, _ => false

section Steadiness

variable {ctx : SpliceCtx} {io io' : SpliceIo} {f g f' : Script calls}

theorem steady_usizeSub (a b : ℕ) : (usizeSub a b).Steady stalled := by
  unfold usizeSub
  split <;> trivial

theorem steady_usizeAdd (a b : ℕ) : (usizeAdd a b).Steady stalled := by
  unfold usizeAdd
  split <;> trivial

theorem steady_expectFd {α : Type} (fd : Option α) : (expectFd fd).Steady stalled := by
  cases fd <;> trivial

theorem steady_trySpliceFromSource : ctx.trySpliceFromSource.Steady stalled := by
  apply (steady_usizeSub _ _).bind
  intro bytesRemaining
  split
  · trivial
  · apply (steady_expectFd _).bind
    intro _
    refine ⟨fun _ => rfl, ?_⟩
    rintro ⟨e | n, off⟩
    · trivial
    · by_cases hn : n > 0
      · simp only [Prog.bind, hn, if_true]
        apply (steady_usizeAdd _ _).bind
        intro _
        trivial
      · simp [Prog.bind, hn]
        trivial

theorem steady_trySpliceToDest : ctx.trySpliceToDest.Steady stalled := by
  apply (steady_usizeSub _ _).bind
  intro bytesRemaining
  split
  · split <;> trivial
  · apply (steady_expectFd _).bind
    intro _
    refine ⟨fun _ => rfl, ?_⟩
    rintro ⟨e | n, off⟩
    · trivial
    · by_cases hn : n > 0
      · simp only [Prog.bind, hn, if_true]
        apply (steady_usizeAdd _ _).bind
        intro _
        trivial
      · simp [Prog.bind, hn]
        trivial

theorem steady_tryIoRead : (tryIoRead ctx ctx.trySpliceFromSource).Steady stalled := by
  refine ⟨fun _ => rfl, ?_⟩
  rintro (_ | e)
  · exact steady_trySpliceFromSource
  · trivial

theorem steady_tryIoWrite : (tryIoWrite ctx ctx.trySpliceToDest).Steady stalled := by
  refine ⟨fun _ => rfl, ?_⟩
  rintro (_ | e)
  · exact steady_trySpliceToDest
  · trivial

/-- The iteration opens with the only call that can stall, and a stall leaves all as it was. -/
theorem loopBody_patient : Patient stalled SpliceIo.loopBody := by
  rintro ⟨ctx, state⟩
  cases state with
  | fill =>
    refine ⟨.pollReadReady, _, rfl, ?_, ?_⟩
    · rintro (_ | _) ha
      · rfl
      · cases ha
    · rintro (_ | _ | ⟨⟩) ha
      · cases ha
      · trivial
      · apply steady_tryIoRead.bind
        rintro ⟨res, ctx'⟩
        cases h : afterFill ctx'.pipeHasData res <;> simp only [h] <;> trivial
  | drain =>
    refine ⟨.pollWriteReady, _, rfl, ?_, ?_⟩
    · rintro (_ | _) ha
      · rfl
      · cases ha
    · rintro (_ | _ | ⟨⟩) ha
      · cases ha
      · trivial
      · apply steady_tryIoWrite.bind
        intro _
        trivial
  | finished error =>
    refine ⟨.pollShutdown, _, rfl, ?_, ?_⟩
    · rintro (_ | _) ha
      · rfl
      · cases ha
    · rintro (_ | _ | ⟨⟩) ha
      · cases ha
      · trivial
      · cases error <;> trivial

theorem Iteration.of_pending {t : Turn calls (IoResult Unit)} (hi : Iteration io t io')
    (ht : t.flow = .done .pending) : io' = io ∧ t.events = [checked io.state .pending] := by
  cases hi with
  | pending => exact ⟨rfl, rfl⟩
  | failed | fill | drain | clean | fault => cases ht

/-- Two schedules of answers that differ only in their `Pending`s: awaiting the transfer makes
the same calls with the same answers and reaches the same final state and result, and a
`Pending` return changes nothing. -/
theorem delays_invisible (io : SpliceIo) (f g : Script calls)
    (hfg : f.erase stalled = g.erase stalled) :
    (∀ n o es f', (Machine.await SpliceIo.loopBody n io).play f = some (o, es, f') →
      o ≠ .val none →
      ∃ m es' g', (Machine.await SpliceIo.loopBody m io).play g = some (o, es', g') ∧
        moves stalled es = moves stalled es') ∧
    ∀ u t u', Machine.Step SpliceIo.loopBody u t u' → t.flow = .done .pending →
      u' = u ∧ t.events = [checked u.state .pending] := by
  constructor
  · intro n o es f' h ho
    obtain ⟨m, es', g', hg, hes, -⟩ := Patient.await_play loopBody_patient hfg ho h
    exact ⟨m, es', g', hg, hes⟩
  · intro u t u' hs ht
    exact (step_iff.mp hs).of_pending ht

end Steadiness

/-! ### Two schedules of one transfer -/

/-- Five bytes in, five bytes out; `delayed` has each readiness and the shutdown wait once. -/
def prompt : Script calls
  | .pollReadReady => [.ready (.ok ()), .ready (.ok ())]
  | .tryIoRead => [.callInner, .callInner]
  | .spliceIn => [⟨.ok 5, none⟩]
  | .pollWriteReady => [.ready (.ok ()), .ready (.ok ())]
  | .tryIoWrite => [.callInner, .callInner]
  | .spliceOut => [⟨.ok 5, none⟩]
  | .pollShutdown => [.ready (.ok ())]

def delayed : Script calls
  | .pollReadReady => [.ready (.ok ()), .pending, .ready (.ok ())]
  | .pollWriteReady => [.pending, .ready (.ok ()), .ready (.ok ())]
  | .pollShutdown => [.pending, .ready (.ok ())]
  | k => prompt k

theorem delays_invisible_five :
    ∃ m es g', (Machine.await SpliceIo.loopBody m
        (.ofCtx { SpliceCtx.new .granted with sizeToSplice := 5 })).play delayed =
      some (.val (some (⟨⟨.none, 5, ⟨none, none, MAXIMUM_PIPE_SIZE⟩, 5, 5⟩, .finished none⟩,
        .ok ())), es, g') := by
  have hfg : prompt.erase stalled = delayed.erase stalled := by
    funext k
    cases k <;> rfl
  obtain ⟨m, es, g', hg, -⟩ := (delays_invisible
    (.ofCtx { SpliceCtx.new .granted with sizeToSplice := 5 }) prompt delayed hfg).1
    5 _ _ _ rfl (by intro h; cases h)
  exact ⟨m, es, g', hg⟩

end Splicer
