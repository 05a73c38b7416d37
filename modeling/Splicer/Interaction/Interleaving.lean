import Splicer.Interaction.Joint

/-! Several parties in one environment, their calls interleaved in any order. -/
namespace Interaction

open Function

variable {I : Interface} {D V W : Type}

/-- One environment, and all parties call it. -/
def Env.common (E : Env I W) : Env (I.shared D) W := fun w e w' => E w ⟨e.call.2, e.answer⟩ w'

/-- The environment does not see who calls. -/
theorem Env.accepts_common {E : Env I W} {w w' : W} {es : List (Event (I.shared D))} :
    E.common.Accepts w es w' ↔ E.Accepts w (es.map fun e => ⟨e.call.2, e.answer⟩) w' := by
  induction es generalizing w with
  | nil => rfl
  | cons e es ih => exact exists_congr fun _ => and_congr_right fun _ => ih

section Parties

variable [DecidableEq D] {d : D} {e : Event (I.shared D)} {es : List (Event (I.shared D))}

/-- The events of one party, in their order. -/
def mine (d : D) (es : List (Event (I.shared D))) : List (Event I) :=
  es.filterMap fun e => if e.call.1 = d then some ⟨e.call.2, e.answer⟩ else none

theorem mine_cons_self : mine e.call.1 (e :: es) = ⟨e.call.2, e.answer⟩ :: mine e.call.1 es := by
  simp [mine]

theorem mine_append {es' : List (Event (I.shared D))} :
    mine d (es ++ es') = mine d es ++ mine d es' :=
  List.filterMap_append

theorem mine_cons_of_ne (h : d ≠ e.call.1) : mine d (e :: es) = mine d es := by
  simp [mine, Ne.symm h]

section Separate

variable {E : Env (I.shared D) W} {F : Env I V} {G : D → V → I.Call → Prop}
  {Rel : (D → V) → W → Prop} {l : D → V} {w w' : W}

/-- Parties whose calls keep to what is theirs can be told apart: each of them runs as in an
environment of its own. -/
theorem Env.separate
    (step : ∀ l w e w', Rel l w → G e.call.1 (l e.call.1) e.call.2 → E w e w' →
      ∃ v, F (l e.call.1) ⟨e.call.2, e.answer⟩ v ∧ Rel (update l e.call.1 v) w')
    (hrel : Rel l w) (hpermits : ∀ d, F.Permits (G d) (l d) (mine d es))
    (ha : E.Accepts w es w') :
    ∃ l', Rel l' w' ∧ ∀ d, F.Accepts (l d) (mine d es) (l' d) := by
  induction es generalizing l w with
  | nil =>
    cases ha
    exact ⟨l, hrel, fun _ => rfl⟩
  | cons e es ih =>
    obtain ⟨w₁, he, hes⟩ := ha
    have hself := hpermits e.call.1
    rw [mine_cons_self] at hself
    obtain ⟨v, hv, hrel₁⟩ := step l w e w₁ hrel hself.head he
    have hpermits₁ : ∀ d, F.Permits (G d) (update l e.call.1 v d) (mine d es) := by
      intro d
      by_cases hd : d = e.call.1
      · subst hd
        rw [update_self]
        exact hself.tail hv
      · rw [update_of_ne hd, ← mine_cons_of_ne hd]
        exact hpermits d
    obtain ⟨l', hrel', hl'⟩ := ih hrel₁ hpermits₁ hes
    refine ⟨l', hrel', fun d => ?_⟩
    by_cases hd : d = e.call.1
    · subst hd
      have hrest := hl' e.call.1
      rw [update_self] at hrest
      rw [mine_cons_self]
      exact ⟨v, hv, hrest⟩
    · have hrest := hl' d
      rwa [update_of_ne hd, ← mine_cons_of_ne hd] at hrest

/-- And what a party may do in its own environment, it may do there. -/
theorem Env.separate_permits
    (step : ∀ l w e w', Rel l w → G e.call.1 (l e.call.1) e.call.2 → E w e w' →
      ∃ v, F (l e.call.1) ⟨e.call.2, e.answer⟩ v ∧ Rel (update l e.call.1 v) w')
    (hrel : Rel l w) (hpermits : ∀ d, F.Permits (G d) (l d) (mine d es)) :
    E.Permits (fun w c => ∃ l, Rel l w ∧ G c.1 (l c.1) c.2) w es := by
  rintro pre e post w₁ rfl ha
  have hpre (d : D) : F.Permits (G d) (l d) (mine d pre) := by
    have hd := hpermits d
    rw [mine_append] at hd
    exact hd.left
  obtain ⟨l₁, hrel₁, hl₁⟩ := Env.separate step hrel hpre ha
  have hself := hpermits e.call.1
  rw [mine_append, mine_cons_self] at hself
  exact ⟨l₁, hrel₁, hself _ _ _ _ rfl (hl₁ e.call.1)⟩

end Separate

end Parties

end Interaction
