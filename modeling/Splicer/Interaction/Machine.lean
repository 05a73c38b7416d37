import Mathlib.Algebra.GroupWithZero.Nat
import Splicer.Interaction.Program

/-! Polled machines, their runs against an environment, and the rules for those runs. -/
namespace Interaction

variable {I : Interface} {S W R X : Type}

inductive Poll (R : Type) where
  | pending
  | ready (r : R)
  deriving DecidableEq, Repr

/-- How one iteration of a polled loop ends. -/
inductive Flow (R : Type) where
  | again
  | done (p : Poll R)
  deriving DecidableEq, Repr

def Flow.poll? : Flow R → Option (Poll R)
  | .again => none
  | .done p => some p

def Flow.ready? : Flow R → Option R
  | .done (.ready r) => some r
  | _ => none

@[simp] theorem Flow.poll?_again : (Flow.again : Flow R).poll? = none := rfl

@[simp] theorem Flow.poll?_done (p : Poll R) : (Flow.done p).poll? = some p := rfl

@[simp] theorem Flow.ready?_again : (Flow.again : Flow R).ready? = none := rfl

@[simp] theorem Flow.ready?_pending : (Flow.done .pending : Flow R).ready? = none := rfl

@[simp] theorem Flow.ready?_ready (r : R) : (Flow.done (.ready r)).ready? = some r := rfl

theorem Flow.poll?_eq_none {f : Flow R} : f.poll? = none ↔ f = .again := by
  cases f <;> simp

theorem Flow.poll?_eq_some {f : Flow R} {p : Poll R} : f.poll? = some p ↔ f = .done p := by
  cases f <;> simp

theorem Flow.ready?_eq_some {f : Flow R} {r : R} :
    f.ready? = some r ↔ f = .done (.ready r) := by
  rcases f with _ | _ | r' <;> simp

/-- The body of a polled loop. -/
abbrev Machine (I : Interface) (S R : Type) := S → Prog I (S × Flow R)

/-- The record of one completed iteration. -/
structure Turn (I : Interface) (R : Type) where
  events : List (Event I)
  flow : Flow R

namespace Machine

variable (M : Machine I S R)

def Step (s : S) (t : Turn I R) (s' : S) : Prop := (M s).Run t.events (.val (s', t.flow))

def Panics (s : S) (es : List (Event I)) (why : I.Fault) : Prop := (M s).Run es (.fault why)

/-- Iterate until an iteration ends with an exit; `none` when the fuel runs out first. -/
def iterate (exit : Flow R → Option X) : ℕ → S → Prog I (Option (S × X))
  | 0, _ => .ret none
  | n + 1, s => M s >>= fun r =>
      match exit r.2 with
      | some x => .ret (some (r.1, x))
      | none => iterate exit n r.1

/-- One call of the poll function: it returns with the first `Pending` or `Ready`. -/
def poll : ℕ → S → Prog I (Option (S × Poll R)) := M.iterate Flow.poll?

/-- Poll again after every `Pending`, up to the first `Ready`. -/
def await : ℕ → S → Prog I (Option (S × R)) := M.iterate Flow.ready?

theorem await_succ (n : ℕ) (s : S) :
    M.await (n + 1) s = M s >>= fun r =>
      match r.2.ready? with
      | some x => .ret (some (r.1, x))
      | none => M.await n r.1 := rfl

end Machine

/-- What an environment lets happen, event by event. -/
abbrev Env (I : Interface) (W : Type) := W → Event I → W → Prop

namespace Env

def Accepts (E : Env I W) : W → List (Event I) → W → Prop
  | w, [], w' => w' = w
  | w, e :: es, w' => ∃ w₁, E w e w₁ ∧ E.Accepts w₁ es w'

/-- The stateless environment that allows exactly the events satisfying `P`. -/
def of (P : Event I → Prop) : Env I Unit := fun _ e _ => P e

/-- The same environment, with a variable beside it that only watches the events. -/
def ghost (E : Env I W) (f : X → Event I → X) : Env I (W × X) := fun w e w' =>
  E w.1 e w'.1 ∧ w'.2 = f w.2 e

/-- The same environment, with only the events satisfying `P`. -/
def only (E : Env I W) (P : Event I → Prop) : Env I W := fun w e w' => E w e w' ∧ P e

variable {E : Env I W} {w w' : W} {e : Event I} {es es' : List (Event I)}

@[simp] theorem accepts_nil : E.Accepts w [] w' ↔ w' = w := Iff.rfl

@[simp] theorem accepts_cons :
    E.Accepts w (e :: es) w' ↔ ∃ w₁, E w e w₁ ∧ E.Accepts w₁ es w' := Iff.rfl

@[simp] theorem accepts_of {P : Event I → Prop} {u v : Unit} :
    (of P).Accepts u es v ↔ ∀ e ∈ es, P e := by
  induction es generalizing u with
  | nil => simp
  | cons e es ih => simp [of, ih]

theorem accepts_append :
    E.Accepts w (es ++ es') w' ↔ ∃ w₁, E.Accepts w es w₁ ∧ E.Accepts w₁ es' w' := by
  induction es generalizing w with
  | nil => simp
  | cons e es ih =>
    simp only [List.cons_append, accepts_cons, ih]
    constructor
    · rintro ⟨w₁, he, w₂, hes, hes'⟩
      exact ⟨w₂, ⟨w₁, he, hes⟩, hes'⟩
    · rintro ⟨w₂, ⟨w₁, he, hes⟩, hes'⟩
      exact ⟨w₁, he, w₂, hes, hes'⟩

/-- What every accepted event satisfies, every event of an accepted trace satisfies. -/
theorem Accepts.forall {P : Event I → Prop} (h : E.Accepts w es w')
    (hE : ∀ w e w', E w e w' → P e) : ∀ e ∈ es, P e := by
  induction es generalizing w with
  | nil => simp
  | cons e es ih =>
    obtain ⟨w₁, he, hes⟩ := h
    intro e' he'
    rcases List.mem_cons.mp he' with rfl | he'
    · exact hE _ _ _ he
    · exact ih hes e' he'

theorem accepts_only {P : Event I → Prop} :
    (E.only P).Accepts w es w' ↔ E.Accepts w es w' ∧ ∀ e ∈ es, P e := by
  induction es generalizing w with
  | nil => simp
  | cons e es ih =>
    simp only [accepts_cons, only, ih, List.forall_mem_cons]
    constructor
    · rintro ⟨w₁, ⟨he, hP⟩, hes, hPs⟩
      exact ⟨⟨w₁, he, hes⟩, hP, hPs⟩
    · rintro ⟨⟨w₁, he, hes⟩, hP, hPs⟩
      exact ⟨w₁, ⟨he, hP⟩, hes, hPs⟩

theorem accepts_ghost {f : X → Event I → X} {x x' : X} :
    (E.ghost f).Accepts (w, x) es (w', x') ↔ E.Accepts w es w' ∧ x' = es.foldl f x := by
  induction es generalizing w x with
  | nil => simp [Prod.ext_iff]
  | cons e es ih =>
    rw [accepts_cons, accepts_cons]
    constructor
    · rintro ⟨⟨w₁, x₁⟩, ⟨he, rfl⟩, hes⟩
      obtain ⟨hacc, hx⟩ := ih.mp hes
      exact ⟨⟨w₁, he, hacc⟩, hx⟩
    · rintro ⟨⟨w₁, he, hes⟩, rfl⟩
      exact ⟨(w₁, f x e), ⟨he, rfl⟩, ih.mpr ⟨hes, rfl⟩⟩

/-- An environment seen through `f` accepts what the environment accepts. -/
theorem Accepts.map {F : Env I X} {f : W → X} (h : E.Accepts w es w')
    (hE : ∀ w e w', E w e w' → F (f w) e (f w')) : F.Accepts (f w) es (f w') := by
  induction es generalizing w with
  | nil => exact congrArg f h
  | cons e es ih =>
    obtain ⟨w₁, he, hes⟩ := h
    exact ⟨f w₁, hE _ _ _ he, ih hes⟩

theorem Accepts.mono {E' : Env I W} (h : E.Accepts w es w')
    (hE : ∀ w e w', E w e w' → E' w e w') : E'.Accepts w es w' := by
  induction es generalizing w with
  | nil => exact h
  | cons e es ih =>
    obtain ⟨w₁, he, hes⟩ := h
    exact ⟨w₁, hE _ _ _ he, ih hes⟩

end Env

/-- The total of a count over a trace. -/
def tally (count : Event I → ℕ) (es : List (Event I)) : ℕ := (es.map count).sum

section Tally

variable {count : Event I → ℕ} {e : Event I} {es es' : List (Event I)}

@[simp] theorem tally_nil : tally count [] = 0 := rfl

@[simp] theorem tally_cons : tally count (e :: es) = count e + tally count es := by
  simp [tally]

@[simp] theorem tally_append : tally count (es ++ es') = tally count es + tally count es' := by
  simp [tally]

/-- The environment with a clock beside it, which every event moves by its `cost`. -/
def Env.timed (E : Env I W) (cost : Event I → ℕ) : Env I (W × ℕ) := E.ghost fun n e => n + cost e

theorem Env.accepts_timed {E : Env I W} {w w' : W} {n n' : ℕ} :
    (E.timed count).Accepts (w, n) es (w', n') ↔ E.Accepts w es w' ∧ n' = n + tally count es := by
  have hclock : es.foldl (fun n e => n + count e) n = n + tally count es := by
    induction es generalizing n with
    | nil => rfl
    | cons e es ih => rw [List.foldl_cons, ih, tally_cons, Nat.add_assoc]
  rw [← hclock]
  exact Env.accepts_ghost

end Tally

/-- A finite run of the machine in the environment, any number of polls long.
Every iteration satisfies `C`, which sees the two states it starts from. -/
inductive Runs (M : Machine I S R) (E : Env I W) (C : S → W → Turn I R → Prop) :
    S → W → List (Turn I R) → S → W → Prop where
  | refl (s : S) (w : W) : Runs M E C s w [] s w
  | step {s w t s₁ w₁ ts s' w'} : M.Step s t s₁ → E.Accepts w t.events w₁ → C s w t →
      Runs M E C s₁ w₁ ts s' w' → Runs M E C s w (t :: ts) s' w'

/-- No condition on the iterations. -/
def Always (_ : S) (_ : W) (_ : Turn I R) : Prop := True

/-- No iteration has returned `Ready` yet. -/
def Unready (_ : S) (_ : W) (t : Turn I R) : Prop := t.flow.ready? = none

namespace Runs

variable {M : Machine I S R} {E : Env I W} {C : S → W → Turn I R → Prop}
  {s s₁ s' : S} {w w₁ w' : W} {t : Turn I R} {ts ts' : List (Turn I R)}

theorem append (h : Runs M E C s w ts s₁ w₁) (h' : Runs M E C s₁ w₁ ts' s' w') :
    Runs M E C s w (ts ++ ts') s' w' := by
  induction h with
  | refl => exact h'
  | step hs ha hc _ ih => exact .step hs ha hc (ih h')

theorem snoc (h : Runs M E C s w ts s₁ w₁) (hs : M.Step s₁ t s')
    (ha : E.Accepts w₁ t.events w') (hc : C s₁ w₁ t) :
    Runs M E C s w (ts ++ [t]) s' w' :=
  h.append (.step hs ha hc (.refl s' w'))

theorem step_of {P : Event I → Prop} {C : S → Unit → Turn I R → Prop} (hs : M.Step s t s₁)
    (hP : ∀ e ∈ t.events, P e) (hc : C s () t) (h : Runs M (.of P) C s₁ () ts s' ()) :
    Runs M (.of P) C s () (t :: ts) s' () :=
  .step hs (Env.accepts_of.mpr hP) hc h

theorem mono {C' : S → W → Turn I R → Prop} {E' : Env I W} (h : Runs M E C s w ts s' w')
    (hE : ∀ w e w', E w e w' → E' w e w') (hC : ∀ s w t, C s w t → C' s w t) :
    Runs M E' C' s w ts s' w' := by
  induction h with
  | refl => exact .refl _ _
  | step hs ha hc _ ih => exact .step hs (ha.mono hE) (hC _ _ _ hc) ih

theorem always (h : Runs M E C s w ts s' w') : Runs M E Always s w ts s' w' :=
  h.mono (fun _ _ _ he => he) (fun _ _ _ _ => trivial)

/-- The invariant rule: what every allowed iteration preserves, every run preserves. -/
theorem invariant (Inv : S → W → Prop) (h : Runs M E C s w ts s' w') (init : Inv s w)
    (step : ∀ s w t s' w', Inv s w → M.Step s t s' → E.Accepts w t.events w' → C s w t →
      Inv s' w') : Inv s' w' := by
  induction h with
  | refl => exact init
  | step hs ha hc _ ih => exact ih (step _ _ _ _ _ init hs ha hc)

/-- The history rule: like `invariant`, for what a state says about the iterations before it. -/
theorem history (Inv : List (Turn I R) → S → W → Prop) (h : Runs M E C s w ts s' w')
    (init : Inv [] s w)
    (step : ∀ ts s w t s' w', Inv ts s w → M.Step s t s' → E.Accepts w t.events w' → C s w t →
      Inv (ts ++ [t]) s' w') : Inv ts s' w' := by
  have extend : ∀ pre, Inv pre s w → Inv (pre ++ ts) s' w' := by
    clear init
    induction h with
    | refl =>
      intro pre hpre
      rwa [List.append_nil]
    | step hs ha hc _ ih =>
      intro pre hpre
      have hrest := ih _ (step _ _ _ _ _ _ hpre hs ha hc)
      rwa [List.append_assoc, List.singleton_append] at hrest
  exact extend [] init

/-- The ranking rule: a run is no longer than what its iterations take off the rank. -/
theorem length_add_rank_le {Inv : S → W → Prop} {rank : S → ℕ} (h : Runs M E C s w ts s' w')
    (init : Inv s w)
    (step : ∀ s w t s' w', Inv s w → M.Step s t s' → E.Accepts w t.events w' → C s w t →
      Inv s' w' ∧ rank s' < rank s) : ts.length + rank s' ≤ rank s := by
  induction h with
  | refl => simp
  | step hs ha hc _ ih =>
    obtain ⟨hinv, hlt⟩ := step _ _ _ _ _ init hs ha hc
    have hrest := ih hinv
    rw [List.length_cons]
    omega

/-- The amortised rule: each iteration is paid for by the potential it takes and by its events. -/
theorem length_add_potential_le {potential : S → ℕ} {pay : Event I → ℕ}
    (h : Runs M E C s w ts s' w')
    (step : ∀ s w t s' w', M.Step s t s' → E.Accepts w t.events w' → C s w t →
      potential s' + 1 ≤ potential s + tally pay t.events) :
    ts.length + potential s' ≤ potential s + tally pay (ts.flatMap Turn.events) := by
  induction h with
  | refl => simp
  | step hs ha hc _ ih =>
    have hone := step _ _ _ _ _ hs ha hc
    rw [List.length_cons, List.flatMap_cons, tally_append]
    omega

/-- Runs of the machine alone become runs in any environment that accepts their trace. -/
theorem accept {P : Turn I R → Prop} {u v : Unit}
    (h : Runs M (.of fun _ => True) (fun _ _ t => P t) s u ts s' v)
    (ha : E.Accepts w (ts.flatMap Turn.events) w') :
    Runs M E (fun _ _ t => P t) s w ts s' w' := by
  induction h generalizing w with
  | refl s _ =>
    cases ha
    exact .refl s w'
  | step hs _ hc _ ih =>
    rw [List.flatMap_cons] at ha
    obtain ⟨w₁, ha₁, ha₂⟩ := Env.accepts_append.mp ha
    exact .step hs ha₁ hc (ih ha₂)

theorem ghost (h : Runs M E C s w ts s' w') (f : X → Event I → X) (x : X) :
    Runs M (E.ghost f) (fun s w t => C s w.1 t) s (w, x) ts s'
      (w', (ts.flatMap Turn.events).foldl f x) := by
  induction h generalizing x with
  | refl s w => exact .refl s (w, x)
  | @step s w t s₁ w₁ ts s' w' hs ha hc _ ih =>
    rw [List.flatMap_cons, List.foldl_append]
    exact .step hs (Env.accepts_ghost.mpr ⟨ha, rfl⟩) hc (ih _)

/-- Every iteration of a run starts from a state the run has reached. -/
theorem split (h : Runs M E C s w ts s' w') (ht : t ∈ ts) :
    ∃ pre post u v u' v', ts = pre ++ t :: post ∧ Runs M E C s w pre u v ∧ M.Step u t u' ∧
      E.Accepts v t.events v' ∧ C u v t ∧ Runs M E C u' v' post s' w' := by
  induction h with
  | refl => simp at ht
  | @step s w t₁ s₁ w₁ ts s' w' hs ha hc hr ih =>
    rcases List.mem_cons.mp ht with rfl | ht
    · exact ⟨[], ts, s, w, s₁, w₁, rfl, .refl s w, hs, ha, hc, hr⟩
    · obtain ⟨pre, post, u, v, u', v', rfl, hp, hu, hv, hcu, hq⟩ := ih ht
      exact ⟨t₁ :: pre, post, u, v, u', v', rfl, .step hs ha hc hp, hu, hv, hcu, hq⟩

end Runs

namespace Machine

variable {M : Machine I S R} {s s' : S} {es : List (Event I)}

/-- The executable loop and the runs agree: it returns where a run first exits. -/
theorem run_iterate_iff {exit : Flow R → Option X} {n : ℕ} {x : X} :
    (M.iterate exit n s).Run es (.val (some (s', x))) ↔
      ∃ ts t u, Runs M (.of fun _ => True) (fun _ _ t => exit t.flow = none) s () ts u () ∧
        M.Step u t s' ∧ exit t.flow = some x ∧ ts.length < n ∧
        es = (ts ++ [t]).flatMap Turn.events := by
  induction n generalizing s es with
  | zero => simp [iterate]
  | succ n ih =>
    simp only [iterate, Prog.run_bind]
    constructor
    · rintro (⟨⟨s₁, f⟩, es₁, es₂, rfl, hM, hrest⟩ | ⟨why, ho, -⟩)
      · cases hf : exit f with
        | some y =>
          simp only [hf, Prog.run_ret, Outcome.val.injEq, Option.some.injEq, Prod.mk.injEq]
            at hrest
          obtain ⟨rfl, rfl, rfl⟩ := hrest
          exact ⟨[], ⟨es₁, f⟩, s, .refl s (), hM, hf, Nat.succ_pos n, by simp⟩
        | none =>
          simp only [hf] at hrest
          obtain ⟨ts, t, u, hr, hs, hx, hn, rfl⟩ := ih.mp hrest
          refine ⟨⟨es₁, f⟩ :: ts, t, u, .step hM (by simp) hf hr, hs, hx, ?_, by simp⟩
          simpa using hn
      · cases ho
    · rintro ⟨ts, t, u, hr, hs, hx, hn, rfl⟩
      left
      cases hr with
      | refl =>
        refine ⟨(s', t.flow), t.events, [], by simp, hs, ?_⟩
        simp [hx]
      | @step _ _ t₁ s₁ _ ts _ _ hs₁ ha hc hr =>
        refine ⟨(s₁, t₁.flow), t₁.events, (ts ++ [t]).flatMap Turn.events, by simp, hs₁, ?_⟩
        simp only [hc]
        exact ih.mpr ⟨ts, t, u, hr, hs, hx, by simpa using hn, rfl⟩

/-- Out of fuel, the loop has spent one unit of it on each iteration. -/
theorem run_iterate_none {exit : Flow R → Option X} {n : ℕ}
    (h : (M.iterate exit n s).Run es (.val none)) :
    ∃ ts u, Runs M (.of fun _ => True) (fun _ _ t => exit t.flow = none) s () ts u () ∧
      ts.length = n ∧ es = ts.flatMap Turn.events := by
  induction n generalizing s es with
  | zero =>
    obtain ⟨rfl, -⟩ := Prog.run_ret.mp h
    exact ⟨[], s, .refl s (), rfl, rfl⟩
  | succ n ih =>
    rw [iterate, Prog.run_bind] at h
    rcases h with ⟨⟨s₁, f⟩, es₁, es₂, rfl, hM, hrest⟩ | ⟨why, ho, -⟩
    · cases hf : exit f with
      | some y =>
        simp only [hf] at hrest
        cases (Prog.run_ret.mp hrest).2
      | none =>
        simp only [hf] at hrest
        obtain ⟨ts, u, hr, hn, rfl⟩ := ih hrest
        refine ⟨⟨es₁, f⟩ :: ts, u, .step hM (by simp) hf hr, ?_, by simp⟩
        rw [List.length_cons, hn]
    · cases ho

/-- Awaiting the machine is a run without `Ready`, and one iteration that returns it. -/
theorem await_runs {E : Env I W} {w w' : W} {n : ℕ} {r : R}
    (h : (M.await n s).Run es (.val (some (s', r)))) (ha : E.Accepts w es w') :
    ∃ ts t u v, Runs M E Unready s w ts u v ∧ M.Step u t s' ∧ t.flow = .done (.ready r) ∧
      E.Accepts v t.events w' ∧ es = (ts ++ [t]).flatMap Turn.events := by
  obtain ⟨ts, t, u, hr, hs, hx, -, rfl⟩ := run_iterate_iff.mp h
  rw [List.flatMap_append, List.flatMap_singleton] at ha
  obtain ⟨v, hv, hw⟩ := Env.accepts_append.mp ha
  exact ⟨ts, t, u, v, hr.accept hv, hs, Flow.ready?_eq_some.mp hx, hw, rfl⟩

theorem run_iterate_exit {exit : Flow R → Option X} {n : ℕ} {t : Turn I R} {x : X}
    (hs : M.Step s t s') (hx : exit t.flow = some x) :
    (M.iterate exit (n + 1) s).Run t.events (.val (some (s', x))) := by
  refine Prog.run_bind.mpr (.inl ⟨_, t.events, [], by simp, hs, ?_⟩)
  simp [hx]

theorem run_iterate_panic {exit : Flow R → Option X} {n : ℕ} {why : I.Fault}
    (h : M.Panics s es why) : (M.iterate exit (n + 1) s).Run es (.fault why) :=
  Prog.run_bind.mpr (.inr ⟨why, rfl, h⟩)

/-- The executable loop goes on where a run without exits has led. -/
theorem run_iterate_append {E : Env I W} {w v w' : W} {u : S} {ts : List (Turn I R)}
    {exit : Flow R → Option X} {n : ℕ} {o : Outcome I (Option (S × X))}
    (h : Runs M E (fun _ _ t => exit t.flow = none) s w ts u v)
    (hu : (M.iterate exit n u).Run es o) (ha : E.Accepts v es w') :
    ∃ es, (M.iterate exit (ts.length + n) s).Run es o ∧ E.Accepts w es w' := by
  induction h with
  | refl =>
    rw [List.length_nil, Nat.zero_add]
    exact ⟨es, hu, ha⟩
  | @step s w t s₁ w₁ ts u v hs he hc _ ih =>
    obtain ⟨es', hes', ha'⟩ := ih hu ha
    refine ⟨t.events ++ es', ?_, Env.accepts_append.mpr ⟨w₁, he, ha'⟩⟩
    rw [List.length_cons, Nat.succ_add]
    refine Prog.run_bind.mpr (.inl ⟨(s₁, t.flow), t.events, es', rfl, hs, ?_⟩)
    simpa only [hc] using hes'

end Machine

end Interaction
