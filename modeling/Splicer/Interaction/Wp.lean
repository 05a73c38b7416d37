import Splicer.Interaction.Machine

/-! Pre- and postconditions of programs that call an environment. -/
namespace Interaction

variable {I : Interface} {S W R X α β : Type}

namespace Prog

/-- `G` permits every call the program makes, in the state it is made in, and `Q` holds of the
outcome, however the environment answers. -/
def wp (E : Env I W) (G : W → I.Call → Prop) :
    Prog I α → (Outcome I α → W → Prop) → W → Prop
  | .ret a, Q, w => Q (.val a) w
  | .panic why, Q, w => Q (.fault why) w
  | .ask c next, Q, w => G w c ∧ ∀ a w', E w ⟨c, a⟩ w' → (next a).wp E G Q w'

/-- The postcondition of a first part whose value `f` goes on with. -/
def after (E : Env I W) (G : W → I.Call → Prop) (f : α → Prog I β)
    (Q : Outcome I β → W → Prop) : Outcome I α → W → Prop
  | .val a, w => (f a).wp E G Q w
  | .fault why, w => Q (.fault why) w

end Prog

/-- Every call of the trace is permitted in any state its prefix can lead to. -/
def Env.Permits (E : Env I W) (G : W → I.Call → Prop) (w : W) (es : List (Event I)) : Prop :=
  ∀ pre e post v, es = pre ++ e :: post → E.Accepts w pre v → G v e.call

theorem Env.permits_nil {E : Env I W} {G : W → I.Call → Prop} {w : W} : E.Permits G w [] := by
  intro pre e post v h
  cases pre <;> cases h

theorem Env.permits_cons {E : Env I W} {G : W → I.Call → Prop} {w : W} {e : Event I}
    {es : List (Event I)} (hG : G w e.call) (hes : ∀ w', E w e w' → E.Permits G w' es) :
    E.Permits G w (e :: es) := by
  rintro (_ | ⟨e₁, pre⟩) e' post v h ha
  · cases h
    cases ha
    exact hG
  · cases h
    obtain ⟨w₁, he, ha⟩ := ha
    exact hes w₁ he pre e' post v rfl ha

theorem Env.Permits.head {E : Env I W} {G : W → I.Call → Prop} {w : W} {e : Event I}
    {es : List (Event I)} (h : E.Permits G w (e :: es)) : G w e.call :=
  h [] e es w rfl rfl

theorem Env.Permits.tail {E : Env I W} {G : W → I.Call → Prop} {w w' : W} {e : Event I}
    {es : List (Event I)} (h : E.Permits G w (e :: es)) (he : E w e w') : E.Permits G w' es := by
  rintro pre e' post v rfl ha
  exact h (e :: pre) e' post v rfl ⟨w', he, ha⟩

theorem Env.Permits.left {E : Env I W} {G : W → I.Call → Prop} {w : W} {es es' : List (Event I)}
    (h : E.Permits G w (es ++ es')) : E.Permits G w es := by
  rintro pre e post v rfl ha
  exact h pre e (post ++ es') v (by simp) ha

theorem Env.Permits.mono {E F : Env I W} {G : W → I.Call → Prop} {w : W} {es : List (Event I)}
    (h : F.Permits G w es) (hE : ∀ w e w', E w e w' → F w e w') : E.Permits G w es :=
  fun pre e post v hes ha => h pre e post v hes (ha.mono hE)

/-- The environment that answers anything, and keeps the trace. -/
def Env.history : Env I (List (Event I)) := fun h e h' => h' = h ++ [e]

theorem Env.accepts_history {h h' es : List (Event I)} :
    Env.history.Accepts h es h' ↔ h' = h ++ es := by
  induction es generalizing h with
  | nil => simp
  | cons e es ih => simp [Env.history, ih]

namespace Prog

variable {E : Env I W} {G G' : W → I.Call → Prop} {p : Prog I α} {f : α → Prog I β}
  {Q Q' : Outcome I α → W → Prop} {w w' : W} {es : List (Event I)} {o : Outcome I α}

@[simp] theorem wp_ret {a : α} : (ret a : Prog I α).wp E G Q w ↔ Q (.val a) w := Iff.rfl

@[simp] theorem wp_panic {why : I.Fault} :
    (panic why : Prog I α).wp E G Q w ↔ Q (.fault why) w := Iff.rfl

theorem wp_ask {c : I.Call} {next : I.Answer (I.channel c) → Prog I α} :
    (ask c next).wp E G Q w ↔ G w c ∧ ∀ a w', E w ⟨c, a⟩ w' → (next a).wp E G Q w' := Iff.rfl

/-! ### Soundness -/

theorem wp_post (h : p.wp E G Q w) (hr : p.Run es o) (ha : E.Accepts w es w') : Q o w' := by
  induction hr generalizing w with
  | ret a =>
    cases ha
    exact h
  | panic why =>
    cases ha
    exact h
  | ask _ ih =>
    obtain ⟨w₁, he, ha⟩ := ha
    exact ih (h.2 _ w₁ he) ha

theorem wp_permits (h : p.wp E G Q w) (hr : p.Run es o) : E.Permits G w es := by
  induction hr generalizing w with
  | ret | panic => exact Env.permits_nil
  | ask _ ih => exact Env.permits_cons h.1 fun w₁ he => ih (h.2 _ w₁ he)

/-- What is known of every accepted run can be used in the postcondition. -/
theorem wp_imp (h : p.wp E G Q w)
    (himp : ∀ es o w', p.Run es o → E.Accepts w es w' → Q o w' → Q' o w') : p.wp E G Q' w := by
  induction p generalizing w with
  | ret a => exact himp [] _ w (.ret a) rfl h
  | panic why => exact himp [] _ w (.panic why) rfl h
  | ask c next ih =>
    refine ⟨h.1, fun a w₁ he => ih a (h.2 a w₁ he) ?_⟩
    intro es o w' hr ha
    exact himp (⟨c, a⟩ :: es) o w' (.ask hr) ⟨w₁, he, ha⟩

theorem wp_mono (h : p.wp E G Q w) (himp : ∀ o w', Q o w' → Q' o w') : p.wp E G Q' w :=
  wp_imp h fun _ o w' _ _ hQ => himp o w' hQ

theorem wp_guard (h : p.wp E G Q w) (hG : ∀ w c, G w c → G' w c) : p.wp E G' Q w := by
  induction p generalizing w with
  | ret | panic => exact h
  | ask c next ih => exact ⟨hG w c h.1, fun a w₁ he => ih a (h.2 a w₁ he)⟩

/-- An environment with fewer answers asks no more of a program. -/
theorem wp_env {F : Env I W} (h : p.wp E G Q w) (hF : ∀ w e w', F w e w' → E w e w') :
    p.wp F G Q w := by
  induction p generalizing w with
  | ret | panic => exact h
  | ask c next ih => exact ⟨h.1, fun a w₁ he => ih a (h.2 a w₁ (hF _ _ _ he))⟩

/-- Without a guard, a postcondition is a fact about the accepted runs. -/
theorem wp_of_runs (h : ∀ es o w', p.Run es o → E.Accepts w es w' → Q o w') :
    p.wp E (fun _ _ => True) Q w := by
  induction p generalizing w with
  | ret a => exact h [] _ w (.ret a) rfl
  | panic why => exact h [] _ w (.panic why) rfl
  | ask c next ih =>
    refine ⟨trivial, fun a w₁ he => ih a ?_⟩
    intro es o w' hr ha
    exact h (⟨c, a⟩ :: es) o w' (.ask hr) ⟨w₁, he, ha⟩

theorem wp_and (h : p.wp E G Q w) (h' : p.wp E G' Q' w) :
    p.wp E (fun w c => G w c ∧ G' w c) (fun o w => Q o w ∧ Q' o w) w := by
  induction p generalizing w with
  | ret | panic => exact ⟨h, h'⟩
  | ask c next ih =>
    exact ⟨⟨h.1, h'.1⟩, fun a w₁ he => ih a (h.2 a w₁ he) (h'.2 a w₁ he)⟩

/-- What no event changes holds at every call and at the end. -/
theorem wp_keep {P : W → Prop} (hP : ∀ w e w', P w → E w e w' → P w') (h : p.wp E G Q w)
    (hw : P w) : p.wp E (fun w c => P w ∧ G w c) (fun o w => P w ∧ Q o w) w := by
  induction p generalizing w with
  | ret | panic => exact ⟨hw, h⟩
  | ask c next ih =>
    exact ⟨⟨hw, h.1⟩, fun a w₁ he => ih a (h.2 a w₁ he) (hP w _ w₁ hw he)⟩

/-- What says nothing of the ghost holds without it. -/
theorem wp_ghost {f : X → Event I → X} {x : X} :
    p.wp (E.ghost f) (fun y => G y.1) (fun o y => Q o y.1) (w, x) ↔ p.wp E G Q w := by
  induction p generalizing w x with
  | ret | panic => rfl
  | ask c next ih =>
    refine and_congr_right fun _ => forall_congr' fun a => ?_
    constructor
    · intro h w₁ he
      exact (ih a).mp (h (w₁, f x ⟨c, a⟩) ⟨he, rfl⟩)
    · rintro h ⟨w₁, x₁⟩ ⟨he, -⟩
      exact (ih a).mpr (h w₁ he)

/-- What says nothing of the clock holds without it. -/
theorem wp_timed {cost : Event I → ℕ} {n : ℕ} :
    p.wp (E.timed cost) (fun x => G x.1) (fun o x => Q o x.1) (w, n) ↔ p.wp E G Q w :=
  wp_ghost

/-- A ghost that no permitted call changes keeps its value. -/
theorem wp_ghost_keep {f : X → Event I → X} {x : X} (h : p.wp E G Q w)
    (hf : ∀ w e, G w e.call → f x e = x) :
    p.wp (E.ghost f) (fun y c => G y.1 c ∧ y.2 = x) (fun o y => Q o y.1 ∧ y.2 = x) (w, x) := by
  induction p generalizing w with
  | ret | panic => exact ⟨h, rfl⟩
  | ask c next ih =>
    refine ⟨⟨h.1, rfl⟩, ?_⟩
    rintro a ⟨w₁, x₁⟩ ⟨he, hx⟩
    have hx : x₁ = x := hx.trans (hf w ⟨c, a⟩ h.1)
    subst hx
    exact ih a (h.2 a w₁ he)

/-- The trace has grown by permitted calls. -/
theorem wp_history {P : I.Call → Prop} {Q : Outcome I α → List (Event I) → Prop}
    {h : List (Event I)} (hp : p.wp Env.history (fun _ => P) Q h) :
    p.wp Env.history (fun _ => P)
      (fun o h' => Q o h' ∧ ∃ es, h' = h ++ es ∧ ∀ e ∈ es, P e.call) h := by
  refine wp_imp hp ?_
  intro es o h' hr ha hQ
  refine ⟨hQ, es, Env.accepts_history.mp ha, ?_⟩
  intro e he
  obtain ⟨pre, post, rfl⟩ := List.append_of_mem he
  exact wp_permits hp hr pre e post _ rfl (Env.accepts_history.mpr rfl)

/-! ### Composition -/

theorem wp_bind {Q : Outcome I β → W → Prop} :
    (p >>= f).wp E G Q w ↔ p.wp E G (after E G f Q) w := by
  induction p generalizing w with
  | ret a => rfl
  | panic why => rfl
  | ask c next ih => simp only [bind_ask, wp_ask, ih]

end Prog

/-! ### Loops -/

namespace Machine

variable {M : Machine I S R} {E : Env I W} {G : W → I.Call → Prop} {exit : Flow R → Option X}
  {Q : Outcome I (Option (S × X)) → W → Prop} {s : S} {w : W}

/-- After one iteration the loop goes on from the invariant, or stops with `Q`. -/
def Next (exit : Flow R → Option X) (Inv : S → W → Prop)
    (Q : Outcome I (Option (S × X)) → W → Prop) : Outcome I (S × Flow R) → W → Prop
  | .val (s, f), w =>
    match exit f with
    | some x => Q (.val (some (s, x))) w
    | none => Inv s w
  | .fault why, w => Q (.fault why) w

/-- The loop rule: the body keeps the invariant, each exit gives the postcondition, and so does
running out of fuel. The invariant knows how much of it is left. -/
theorem wp_iterate (Inv : ℕ → S → W → Prop)
    (step : ∀ n s w, Inv (n + 1) s w → (M s).wp E G (Next exit (Inv n) Q) w)
    (stop : ∀ s w, Inv 0 s w → Q (.val none) w) {n : ℕ} (init : Inv n s w) :
    (M.iterate exit n s).wp E G Q w := by
  induction n generalizing s w with
  | zero => exact stop s w init
  | succ n ih =>
    refine Prog.wp_bind.mpr (Prog.wp_mono (step n s w init) ?_)
    rintro (⟨s₁, f⟩ | why) w₁ hnext
    · simp only [Next, Prog.after] at hnext ⊢
      cases hf : exit f with
      | some x =>
        simp only [hf] at hnext
        exact hnext
      | none =>
        simp only [hf] at hnext
        exact ih hnext
    · exact hnext

end Machine

end Interaction
