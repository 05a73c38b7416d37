import Splicer.Invariant
import Splicer.Interaction.Handler

/-! What one iteration may ask of its environment, and how to reason from its six cases. -/
namespace Splicer

open Interaction

/-- The calls of an iteration; a splice is lent an open end of the pipe, and never asked for
nothing. -/
def Asks (io : SpliceIo) : Call → Prop
  | .pollReadReady => io.state = .fill
  | .tryIoRead => io.state = .fill
  | .spliceIn offIn maxLen =>
    io.state = .fill ∧ io.splicer.isSourceDone = false ∧ offIn = io.splicer.offset.offIn ∧
      maxLen = io.splicer.sizeToSplice - io.splicer.bytesRead ∧ 0 < maxLen
  | .pollWriteReady => io.state = .drain
  | .tryIoWrite => io.state = .drain
  | .spliceOut offOut maxLen =>
    io.state = .drain ∧ io.splicer.pipe.isDrainDone = false ∧
      offOut = io.splicer.offset.offOut ∧
      maxLen = io.splicer.bytesRead - io.splicer.bytesWritten ∧ 0 < maxLen
  | .pollShutdown => ∃ e, io.state = .finished e

/-- An end that is not done is there to be lent. -/
theorem Pipe.fill_of_open {p : Pipe} (h : p.isFillDone = false) : ∃ fd, p.fillFd = some fd := by
  simpa [Pipe.isFillDone, Option.isSome_iff_exists] using h

theorem Pipe.drain_of_open {p : Pipe} (h : p.isDrainDone = false) : ∃ fd, p.drainFd = some fd := by
  simpa [Pipe.isDrainDone, Option.isSome_iff_exists] using h

section Asking

variable {W : Type} {E : Env calls W} {w : W}

/-- No condition on the outcome. -/
def Anyhow {α : Type} (_ : Outcome calls α) (_ : W) : Prop := True

theorem asks_trySpliceFromSource (io : SpliceIo) (hs : io.state = .fill) :
    io.splicer.trySpliceFromSource.wp E (fun _ => Asks io) Anyhow w := by
  rcases Nat.lt_trichotomy io.splicer.bytesRead io.splicer.sizeToSplice with hlt | heq | hgt
  · cases hfd : io.splicer.isSourceDone with
    | true =>
      rw [trySpliceFromSource_closedFd hlt hfd]
      trivial
    | false =>
      rw [trySpliceFromSource_splice hlt hfd]
      refine ⟨⟨hs, hfd, rfl, rfl, by omega⟩, ?_⟩
      rintro ⟨_ | _ | n, off⟩ w' -
      · trivial
      · trivial
      · simp only
        split <;> trivial
  · rw [trySpliceFromSource_target heq]
    trivial
  · rw [trySpliceFromSource_underflow hgt]
    trivial

theorem asks_trySpliceToDest (io : SpliceIo) (hs : io.state = .drain) :
    io.splicer.trySpliceToDest.wp E (fun _ => Asks io) Anyhow w := by
  rcases Nat.lt_trichotomy io.splicer.bytesWritten io.splicer.bytesRead with hlt | heq | hgt
  · cases hfd : io.splicer.pipe.isDrainDone with
    | true =>
      rw [trySpliceToDest_closedFd hlt hfd]
      trivial
    | false =>
      rw [trySpliceToDest_splice hlt hfd]
      refine ⟨⟨hs, hfd, rfl, rfl, by omega⟩, ?_⟩
      rintro ⟨_ | _ | n, off⟩ w' -
      · trivial
      · trivial
      · simp only
        split <;> trivial
  · rw [trySpliceToDest_empty heq.symm]
    trivial
  · rw [trySpliceToDest_underflow hgt]
    trivial

theorem asks_ready (io : SpliceIo) {rest : Comp (SpliceIo × Flow (IoResult Unit))}
    (hrest : ∀ w, rest.wp E (fun _ => Asks io) Anyhow w) :
    (io.ready (check io.state) rest).wp E (fun _ => Asks io) Anyhow w := by
  have answer : ∀ (a : Poll (IoResult Unit)) (w : W),
      (io.ready (.ret a) rest).wp E (fun _ => Asks io) Anyhow w := by
    rintro (_ | _ | ⟨⟩) w
    · trivial
    · trivial
    · exact hrest w
  cases hs : io.state with
  | fill => exact ⟨hs, fun a w' _ => answer a w'⟩
  | drain => exact ⟨hs, fun a w' _ => answer a w'⟩
  | finished e => exact ⟨⟨e, hs⟩, fun a w' _ => answer a w'⟩

theorem asks_loopBody (io : SpliceIo) :
    (SpliceIo.loopBody io).wp E (fun _ => Asks io) Anyhow w := by
  obtain ⟨ctx, state⟩ := io
  cases state with
  | fill =>
    refine asks_ready ⟨ctx, .fill⟩ fun w => Prog.wp_bind.mpr ⟨rfl, ?_⟩
    rintro (_ | e) w' -
    · refine Prog.wp_mono (asks_trySpliceFromSource ⟨ctx, .fill⟩ rfl) ?_
      rintro (⟨res, ctx'⟩ | why) w' -
      · cases hn : afterFill ctx'.pipeHasData res <;> simp only [Prog.after, hn] <;> trivial
      · trivial
    · cases hn : afterFill ctx.pipeHasData (.error e) <;>
        simp only [Prog.bind, Prog.pure_eq, Prog.wp_ret, Prog.after, hn] <;> trivial
  | drain =>
    refine asks_ready ⟨ctx, .drain⟩ fun w => Prog.wp_bind.mpr ⟨rfl, ?_⟩
    rintro (_ | e) w' -
    · refine Prog.wp_mono (asks_trySpliceToDest ⟨ctx, .drain⟩ rfl) ?_
      rintro (⟨res, ctx'⟩ | why) w' - <;> trivial
    · trivial
  | finished error =>
    refine asks_ready ⟨ctx, .finished error⟩ fun w => ?_
    cases error <;> trivial

/-- An iteration meets what its completed cases and its panics meet. -/
theorem wp_loopBody {io : SpliceIo} {Q : Outcome calls (SpliceIo × Flow (IoResult Unit)) → W → Prop}
    (done : ∀ t io' w', Iteration io t io' → E.Accepts w t.events w' → Q (.val (io', t.flow)) w')
    (crash : ∀ es why w', Crash io es why → E.Accepts w es w' → Q (.fault why) w') :
    (SpliceIo.loopBody io).wp E (fun _ => Asks io) Q w := by
  have hruns : (SpliceIo.loopBody io).wp E (fun _ _ => True) Q w := by
    apply Prog.wp_of_runs
    rintro es (⟨io', f⟩ | why) w' hr ha
    · exact done ⟨es, f⟩ io' w' (iteration_of_run hr) ha
    · exact crash es why w' (panics_iff.mp hr) ha
  have hboth := Prog.wp_and (asks_loopBody io) hruns
  exact Prog.wp_guard (Prog.wp_mono hboth fun _ _ h => h.2) fun _ _ h => h.1

end Asking

end Splicer
