import Splicer.Bidi
import Splicer.Trace

/-! A direction that has completed, and the calls that are still made on its behalf. -/
namespace Splicer

open Interaction

/-- Nothing is called for a direction that has completed. -/
def LeftAlone (_ : Side → SpliceIo) (first : Firsts) (v : BidiVisit) : Prop :=
  ∀ d, first d ≠ none → (v d).events = []

/-- No direction has completed before the call. -/
def Untouched (_ : Side → SpliceIo) (first : Firsts) (_ : BidiVisit) : Prop :=
  ∀ d, first d = none

/-- Whether an event is a shutdown that is over. -/
def shutdownDone : Event calls → ℕ
  | ⟨.pollShutdown, .ready _⟩ => 1
  | _ => 0

/-- The events of one direction. -/
def sideEvents (vs : List BidiVisit) (d : Side) : List (Event calls) :=
  vs.flatMap fun v => (v d).events

/-- Neither a shutdown that is over nor a readiness check that failed. -/
def Underway (es : List (Event calls)) : Prop :=
  tally shutdownDone es = 0 ∧ ∀ ev ∈ es, ¬ ReadinessFailed ev

section Half

variable {io io' : SpliceIo} {v : Visit calls (IoResult Unit)} {t : Turn calls (IoResult Unit)}
  {ts : List (Turn calls (IoResult Unit))}

theorem underway_append {es es' : List (Event calls)} (h : Underway es) (h' : Underway es') :
    Underway (es ++ es') := by
  exact ⟨by rw [tally_append, h.1, h'.1], List.forall_mem_append.mpr ⟨h.2, h'.2⟩⟩

theorem Iteration.underway (hi : Iteration io t io') (ht : t.flow = .again) :
    Underway t.events := by
  cases hi with
  | pending | failed | clean | fault => cases ht
  | fill _ hf _ => cases hf <;> simp [Underway, shutdownDone, ReadinessFailed]
  | drain _ hd => cases hd <;> simp [Underway, shutdownDone, ReadinessFailed]

theorem run_underway (h : Runs SpliceIo.loopBody (.of fun _ => True) (fun _ _ t => t.flow = .again)
    io () ts io' ()) : Underway (ts.flatMap Turn.events) := by
  apply h.history (fun ts _ _ => Underway (ts.flatMap Turn.events))
  · simp [Underway]
  · intro ts u _ t u' _ hI hs _ ht
    rw [List.flatMap_append, List.flatMap_singleton]
    exact underway_append hI ((step_iff.mp hs).underway ht)

/-- A call that answers `Ready` has seen its shutdown through, once, or a readiness check fail. -/
theorem call_shutdowns (h : Machine.Call SpliceIo.loopBody io v io') :
    (v.ret = .pending → Underway v.events) ∧
    (v.ret ≠ .pending →
      (tally shutdownDone v.events = 1 ↔ ∀ ev ∈ v.events, ¬ ReadinessFailed ev)) := by
  obtain ⟨ts, u, es, hs, he, hr⟩ := h.last
  have hagain := hr.mono (fun _ _ _ he => he) fun _ _ _ => Flow.poll?_eq_none.mp
  obtain ⟨hcount, hready⟩ := run_underway hagain
  rw [he]
  generalize v.ret = p at hs ⊢
  constructor
  · rintro rfl
    refine underway_append ⟨hcount, hready⟩ ?_
    cases step_iff.mp hs with
    | pending => cases io'.state <;> simp [Underway, checked, shutdownDone, ReadinessFailed]
  · intro hp
    rw [tally_append, hcount, Nat.zero_add]
    rw [List.forall_mem_append, and_iff_right hready]
    cases step_iff.mp hs with
    | pending => exact absurd rfl hp
    | failed e => cases io'.state <;> simp [checked, shutdownDone, ReadinessFailed]
    | clean => simp [shutdownDone, ReadinessFailed]
    | fault => simp [shutdownDone, ReadinessFailed]

/-- Every call calls something: at least the check it opens with. -/
theorem call_events_ne_nil (h : Machine.Call SpliceIo.loopBody io v io') : v.events ≠ [] := by
  obtain ⟨ts, u, es, hs, he, -⟩ := h.last
  rw [he]
  generalize v.ret = p at hs
  cases step_iff.mp hs <;> simp

end Half

section Reuse

variable {io : SpliceBidiIo} {s s' : Side → SpliceIo} {first : Firsts} {v : BidiVisit}
  {vs : List BidiVisit} {d : Side}

theorem sideEvents_snoc : sideEvents (vs ++ [v]) d = sideEvents vs d ++ (v d).events := by
  simp [sideEvents]

/-- Both directions are polled in every call, so only a call before any has completed leaves the
completed ones alone. -/
theorem leftAlone_iff (hv : Machine.Joint SpliceIo.loopBody s v s') :
    LeftAlone s first v ↔ Untouched s first v := by
  constructor
  · intro h d
    by_contra hd
    exact call_events_ne_nil (hv d) (h d hd)
  · intro h d hd
    exact absurd (h d) hd

/-- Where a direction stands, in a run that never polls it again. -/
theorem run_shutdowns (h : BidiRuns Untouched io vs s first) (d : Side) :
    (first d = none → Underway (sideEvents vs d)) ∧
    (first d ≠ none → (tally shutdownDone (sideEvents vs d) = 1 ↔
      ∀ ev ∈ sideEvents vs d, ¬ ReadinessFailed ev)) := by
  apply h.history (fun vs _ first => (first d = none → Underway (sideEvents vs d)) ∧
    (first d ≠ none → (tally shutdownDone (sideEvents vs d) = 1 ↔
      ∀ ev ∈ sideEvents vs d, ¬ ReadinessFailed ev)))
  · simp [sideEvents, Underway]
  · rintro vs s first v s' ⟨hbefore, -⟩ hv hnone
    obtain ⟨hcount, hready⟩ := hbefore (hnone d)
    obtain ⟨hpending, hdone⟩ := call_shutdowns (hv d)
    have hrecord : record first v d = none ↔ (v d).ret = .pending := by
      rw [record, hnone d]
      cases (v d).ret <;> simp
    rw [sideEvents_snoc]
    constructor
    · intro hd
      exact underway_append ⟨hcount, hready⟩ (hpending (hrecord.mp hd))
    · intro hd
      rw [tally_append, hcount, Nat.zero_add, List.forall_mem_append, and_iff_right hready]
      exact hdone (mt hrecord.mpr hd)

/-- A run leaves its completed directions alone, and sees the shutdown of each through exactly once,
if and only if none of its calls comes after a direction completed and no readiness check fails. -/
theorem completed_left_alone_iff (io : SpliceBidiIo) :
    ∀ (vs : List BidiVisit) s first, BidiRuns (fun _ _ _ => True) io vs s first →
      ((BidiRuns LeftAlone io vs s first ∧
          ∀ d, tally shutdownDone (sideEvents vs d) = if first d = none then 0 else 1) ↔
        BidiRuns Untouched io vs s first ∧
          ∀ d, ∀ ev ∈ sideEvents vs d, ¬ ReadinessFailed ev) := by
  intro vs s first _
  have hiff : BidiRuns LeftAlone io vs s first ↔ BidiRuns Untouched io vs s first := by
    constructor
    · intro h
      exact h.mono fun _ _ _ _ hv hc => (leftAlone_iff hv).mp hc
    · intro h
      exact h.mono fun _ _ _ _ hv hc => (leftAlone_iff hv).mpr hc
  rw [hiff]
  apply and_congr_right
  intro hrun
  apply forall_congr'
  intro d
  obtain ⟨hbefore, hafter⟩ := run_shutdowns hrun d
  by_cases hd : first d = none
  · obtain ⟨hcount, hready⟩ := hbefore hd
    rw [if_pos hd]
    constructor
    · intro _
      exact hready
    · intro _
      exact hcount
  · rw [if_neg hd]
    exact hafter hd

end Reuse

/-- Both directions end in the first call, and each shutdown answers `Ready` once. -/
theorem completed_left_alone_both :
    tally shutdownDone (sideEvents [each ends ends] .sl2sr) = 1 ∧
      tally shutdownDone (sideEvents [each ends ends] .sr2sl) = 1 := by
  let io : SpliceIo := ⟨(SpliceCtx.new .granted).setFillDone.setDrainDone, .finished none⟩
  have hcall : Machine.Joint SpliceIo.loopBody SpliceBidiIo.fresh.half (each ends ends)
      (each io io) := by
    rintro (_ | _)
    · exact call_ends
    · exact call_ends
  have huntouched : BidiRuns Untouched .fresh [each ends ends] _ _ :=
    .step hcall (fun _ => rfl) (.refl _ _)
  have hready : ∀ d, ∀ ev ∈ sideEvents [each ends ends] d, ¬ ReadinessFailed ev := by
    rintro (_ | _) <;> simp [sideEvents, each, ends, fillTurn, shutsDown, ReadinessFailed]
  obtain ⟨-, hcount⟩ := (completed_left_alone_iff .fresh _ _ _
    (.step hcall trivial (.refl _ _))).mpr ⟨huntouched, hready⟩
  exact ⟨hcount .sl2sr, hcount .sr2sl⟩

/-- The first direction ends; the second is still asleep in the next call, which shuts the first
one down again. -/
theorem completed_half_polled_again :
    ∃ (s s' : Side → SpliceIo) (first : Firsts) (v₁ v₂ : BidiVisit),
      Constructed (.new .granted) ∧ BidiRuns (fun _ _ _ => True) .fresh [v₁] s first ∧
      v₁.ret = .pending ∧ first .sl2sr = some (.ok ()) ∧
      Machine.Joint SpliceIo.loopBody s v₂ s' ∧ v₂.ret = .pending ∧
      (v₂ .sl2sr).events = [⟨.pollShutdown, .ready (.ok ())⟩] ∧
      tally shutdownDone (sideEvents [v₁, v₂] .sl2sr) = 2 := by
  let s : Side → SpliceIo :=
    each ⟨(SpliceCtx.new .granted).setFillDone.setDrainDone, .finished none⟩
      (.ofCtx (.new .granted))
  refine ⟨s, s, _, each ends sleeps, each shutsDown sleeps, .new Pipe.new_granting,
    .step ?_ trivial (.refl _ _), rfl, rfl, ?_, rfl, rfl, rfl⟩
  · rintro (_ | _)
    · exact call_ends
    · exact call_sleeps
  · rintro (_ | _)
    · exact call_shutsDown _
    · exact call_sleeps

end Splicer
