import Mathlib.Logic.Function.Basic
import Splicer.Interaction.Wp

/-! Several parties in one interface, polled side by side, and the first `Ready` of each. -/
namespace Interaction

variable {I : Interface} {D S W R X α : Type}

/-- The interface of several parties that all make the calls of `I`. -/
abbrev Interface.shared (I : Interface) (D : Type) : Interface :=
  ⟨D × I.Call, I.Channel, fun c => I.channel c.2, I.Answer, I.Fault⟩

def Event.on (d : D) (e : Event I) : Event (I.shared D) := ⟨(d, e.call), e.answer⟩

namespace Prog

/-- The program, run by the party `d`. -/
def on (d : D) : Prog I α → Prog (I.shared D) α
  | .ret a => .ret a
  | .panic why => .panic why
  | .ask c next => .ask (I := I.shared D) (d, c) fun a => (next a).on d

/-- A party's program runs as it does alone, its calls marked as the party's. -/
theorem run_on {d : D} {p : Prog I α} {a : α} {es : List (Event (I.shared D))} :
    (p.on d).Run es (.val a) ↔ ∃ es', es = es'.map (Event.on d) ∧ p.Run es' (.val a) := by
  induction p generalizing es with
  | ret b => simp [on]
  | panic why => simp [on]
  | ask c next ih =>
    rw [on, run_ask]
    constructor
    · rintro ⟨answer, es₁, rfl, h⟩
      obtain ⟨es₂, rfl, hr⟩ := (ih answer).mp h
      exact ⟨⟨c, answer⟩ :: es₂, rfl, .ask hr⟩
    · rintro ⟨es', rfl, h⟩
      obtain ⟨answer, es₂, rfl, hr⟩ := run_ask.mp h
      exact ⟨answer, es₂.map (Event.on d), rfl, (ih answer).mpr ⟨es₂, rfl, hr⟩⟩

theorem run_on_of {d : D} {p : Prog I α} {o : Outcome I α} {es : List (Event I)}
    (h : p.Run es o) : (p.on d).Run (es.map (Event.on d)) (o.translate id) := by
  induction h with
  | ret a => exact .ret a
  | panic why => exact Run.panic (I := I.shared D) why
  | ask _ ih => exact .ask ih

end Prog

/-! ### Worlds apart -/

/-- Each party in a world of its own. -/
def Env.shared (E : D → Env I W) : Env (I.shared D) (D → W) := fun w e w' =>
  E e.call.1 (w e.call.1) ⟨e.call.2, e.answer⟩ (w' e.call.1) ∧ ∀ d, d ≠ e.call.1 → w' d = w d

theorem Env.accepts_on [DecidableEq D] {E : D → Env I W} {d : D} {w w' : D → W}
    {es : List (Event I)} :
    (Env.shared E).Accepts w (es.map (Event.on d)) w' ↔
      (E d).Accepts (w d) es (w' d) ∧ ∀ d', d' ≠ d → w' d' = w d' := by
  induction es generalizing w with
  | nil =>
    constructor
    · rintro rfl
      exact ⟨rfl, fun _ _ => rfl⟩
    · rintro ⟨hd, hother⟩
      funext d'
      by_cases h : d' = d
      · rw [h]
        exact hd
      · exact hother d' h
  | cons e es ih =>
    rw [List.map_cons, accepts_cons, accepts_cons]
    constructor
    · rintro ⟨w₁, ⟨he, hsame⟩, hes⟩
      obtain ⟨hd, hother⟩ := ih.mp hes
      exact ⟨⟨w₁ d, he, hd⟩, fun d' h => (hother d' h).trans (hsame d' h)⟩
    · rintro ⟨⟨x, he, hes⟩, hother⟩
      have hself : Function.update w d x d = x := Function.update_self _ _ _
      refine ⟨Function.update w d x, ⟨?_, ?_⟩, ih.mpr ⟨?_, ?_⟩⟩
      · change E d (w d) e (Function.update w d x d)
        rwa [hself]
      · exact fun d' h => Function.update_of_ne h _ _
      · rwa [hself]
      · intro d' h
        rw [Function.update_of_ne h]
        exact hother d' h

/-- What a party's program meets in its own world, it meets among the others, whom it does not
touch. -/
theorem Prog.wp_on {E : D → Env I W} {d : D} {p : Prog I α} {w : D → W}
    {Q : Outcome I α → W → Prop} (h : p.wp (E d) (fun _ _ => True) Q (w d)) :
    (p.on d).wp (Env.shared E) (fun _ _ => True)
      (fun o w' => Q (o.translate id) (w' d) ∧ ∀ d', d' ≠ d → w' d' = w d') w := by
  induction p generalizing w with
  | ret | panic => exact ⟨h, fun _ _ => rfl⟩
  | ask c next ih =>
    refine ⟨trivial, ?_⟩
    rintro a w₁ ⟨he, hsame⟩
    refine wp_mono (ih a (h.2 a _ he)) ?_
    rintro o w' ⟨hQ, hother⟩
    exact ⟨hQ, fun d' hd => (hother d' hd).trans (hsame d' hd)⟩

/-- What an event costs the party `d`. -/
def Event.costOf [DecidableEq D] (cost : Event I → ℕ) (d : D) (e : Event (I.shared D)) : ℕ :=
  if e.call.1 = d then cost ⟨e.call.2, e.answer⟩ else 0

/-- Every party has a clock of its own. -/
theorem Env.accepts_shared_timed [DecidableEq D] {E : D → Env I W} {w w' : D → W} {n : D → ℕ}
    {cost : Event I → ℕ} {es : List (Event (I.shared D))} (h : (Env.shared E).Accepts w es w') :
    (Env.shared fun d => (E d).timed cost).Accepts (fun d => (w d, n d)) es
      fun d => (w' d, n d + tally (Event.costOf cost d) es) := by
  induction es generalizing w n with
  | nil =>
    cases h
    rfl
  | cons e es ih =>
    obtain ⟨w₁, ⟨he, hsame⟩, hes⟩ := h
    refine ⟨fun d => (w₁ d, n d + Event.costOf cost d e), ⟨⟨he, ?_⟩, ?_⟩, ?_⟩
    · simp [Event.costOf]
    · intro d hd
      simp [Event.costOf, hsame d hd, Ne.symm hd]
    · simpa [Nat.add_assoc] using ih (n := fun d => n d + Event.costOf cost d e) hes

def Poll.ready? : Poll R → Option R
  | .pending => none
  | .ready r => some r

@[simp] theorem Poll.ready?_pending : (Poll.pending : Poll R).ready? = none := rfl

@[simp] theorem Poll.ready?_ready (r : R) : (Poll.ready r).ready? = some r := rfl

/-- One call of a poll function: what it called, and what it returned. -/
structure Visit (I : Interface) (R : Type) where
  events : List (Event I)
  ret : Poll R

namespace Machine

variable {M : Machine I S R} {s s' : S} {es : List (Event I)} {p : Poll R}

/-- More fuel changes nothing once the loop has returned. -/
theorem run_iterate_mono {exit : Flow R → Option X} {n m : ℕ} {x : X}
    (h : (M.iterate exit n s).Run es (.val (some (s', x)))) (hnm : n ≤ m) :
    (M.iterate exit m s).Run es (.val (some (s', x))) := by
  obtain ⟨ts, t, u, hr, hs, hx, hn, rfl⟩ := run_iterate_iff.mp h
  exact run_iterate_iff.mpr ⟨ts, t, u, hr, hs, hx, Nat.lt_of_lt_of_le hn hnm, rfl⟩

/-- A whole call of the poll function returns `p`. -/
def Call (M : Machine I S R) (s : S) (v : Visit I R) (s' : S) : Prop :=
  ∃ n, (M.poll n s).Run v.events (.val (some (s', v.ret)))

/-- A call ends in an iteration that returns its answer. -/
theorem Call.last {v : Visit I R} (h : M.Call s v s') :
    ∃ ts u es, M.Step u ⟨es, .done v.ret⟩ s' ∧
      v.events = ts.flatMap Turn.events ++ es ∧
      Runs M (.of fun _ => True) (fun _ _ t => t.flow.poll? = none) s () ts u () := by
  obtain ⟨n, h⟩ := h
  obtain ⟨ts, ⟨es, flow⟩, u, hr, hs, hx, -, he⟩ := run_iterate_iff.mp h
  cases flow with
  | again => cases hx
  | done p =>
    cases hx
    exact ⟨ts, u, es, hs, by simpa using he, hr⟩

/-- When the first iteration returns, it is the whole call. -/
theorem Call.of_step (h : M.Step s ⟨es, .done p⟩ s') : M.Call s ⟨es, p⟩ s' := by
  refine ⟨1, run_iterate_iff.mpr ⟨[], ⟨es, .done p⟩, s, .refl s (), h, rfl, ?_, ?_⟩⟩
  · exact Nat.zero_lt_one
  · simp

/-- An iteration that goes on, before a call, makes a longer call. -/
theorem Call.cons {es₁ : List (Event I)} {s₁ : S} (hs : M.Step s ⟨es₁, .again⟩ s₁)
    (h : M.Call s₁ ⟨es, p⟩ s') : M.Call s ⟨es₁ ++ es, p⟩ s' := by
  obtain ⟨n, h⟩ := h
  obtain ⟨ts, t, u, hr, ht, hx, hn, rfl⟩ := run_iterate_iff.mp h
  refine ⟨n + 1, run_iterate_iff.mpr ⟨⟨es₁, .again⟩ :: ts, t, u, ?_, ht, hx, ?_, ?_⟩⟩
  · exact .step hs (by simp) rfl hr
  · exact Nat.succ_lt_succ hn
  · simp

/-- A call, iteration by iteration. -/
theorem Call.runs {E : Env I W} {w w' : W} {v : Visit I R} (h : M.Call s v s')
    (ha : E.Accepts w v.events w') : ∃ ts, Runs M E Always s w ts s' w' := by
  obtain ⟨ts, u, es, hs, he, hr⟩ := h.last
  rw [he] at ha
  obtain ⟨w₁, ha₁, ha₂⟩ := Env.accepts_append.mp ha
  exact ⟨ts ++ [⟨es, .done v.ret⟩], (hr.accept ha₁).always.snoc hs ha₂ trivial⟩

/-- Every party's machine is polled once. -/
def Joint (M : Machine I S R) (s : D → S) (v : D → Visit I R) (s' : D → S) : Prop :=
  ∀ d, M.Call (s d) (v d) (s' d)

end Machine

/-- The first `Ready` of each party, after one more call. -/
def record (first : D → Option R) (v : D → Visit I R) (d : D) : Option R :=
  (first d).or (v d).ret.ready?

theorem record_eq_some {first : D → Option R} {v : D → Visit I R} {d : D} {r : R} :
    record first v d = some r ↔
      first d = some r ∨ first d = none ∧ (v d).ret = .ready r := by
  unfold record
  cases first d with
  | some x => simp
  | none => cases (v d).ret <;> simp

/-- A finite run of joint calls; it keeps the first `Ready` of each party.
Every call satisfies `C`, which sees the states and the answers it starts from. -/
inductive Polls (M : Machine I S R) (C : (D → S) → (D → Option R) → (D → Visit I R) → Prop) :
    (D → S) → (D → Option R) → List (D → Visit I R) → (D → S) → (D → Option R) → Prop where
  | refl (s : D → S) (first : D → Option R) : Polls M C s first [] s first
  | step {s first v s₁ vs s' first'} : M.Joint s v s₁ → C s first v →
      Polls M C s₁ (record first v) vs s' first' → Polls M C s first (v :: vs) s' first'

namespace Polls

variable {M : Machine I S R} {C : (D → S) → (D → Option R) → (D → Visit I R) → Prop}
  {s s₁ s' : D → S} {first first₁ first' : D → Option R} {v : D → Visit I R}
  {vs vs' : List (D → Visit I R)}

theorem snoc (h : Polls M C s first vs s₁ first₁) (hv : M.Joint s₁ v s') (hc : C s₁ first₁ v) :
    Polls M C s first (vs ++ [v]) s' (record first₁ v) := by
  induction h with
  | refl => exact .step hv hc (.refl _ _)
  | step hs hc' _ ih => exact .step hs hc' (ih hv hc)

/-- The last call of a run, and the run before it. -/
theorem of_snoc (h : Polls M C s first (vs ++ [v]) s' first') :
    ∃ s₁ first₁, Polls M C s first vs s₁ first₁ ∧ M.Joint s₁ v s' ∧ C s₁ first₁ v ∧
      first' = record first₁ v := by
  induction vs generalizing s first with
  | nil =>
    cases h with
    | step hv hc hr =>
      cases hr
      exact ⟨s, first, .refl s first, hv, hc, rfl⟩
  | cons v₁ vs ih =>
    cases h with
    | step hv₁ hc₁ hr =>
      obtain ⟨s₂, first₂, hpre, hv, hc, rfl⟩ := ih hr
      exact ⟨s₂, first₂, .step hv₁ hc₁ hpre, hv, hc, rfl⟩

theorem mono {C' : (D → S) → (D → Option R) → (D → Visit I R) → Prop}
    (h : Polls M C s first vs s' first')
    (hC : ∀ s first v s', M.Joint s v s' → C s first v → C' s first v) :
    Polls M C' s first vs s' first' := by
  induction h with
  | refl => exact .refl _ _
  | step hs hc _ ih => exact .step hs (hC _ _ _ _ hs hc) ih

/-- What each party does, iteration by iteration. -/
theorem runs {E : Env I W} {w w' : W} (h : Polls M C s first vs s' first') (d : D)
    (ha : E.Accepts w (vs.flatMap fun v => (v d).events) w') :
    ∃ ts, Runs M E Always (s d) w ts (s' d) w' := by
  induction h generalizing w with
  | refl s first =>
    cases ha
    exact ⟨[], .refl _ _⟩
  | step hv _ _ ih =>
    rw [List.flatMap_cons] at ha
    obtain ⟨w₁, ha₁, ha₂⟩ := Env.accepts_append.mp ha
    obtain ⟨ts₁, hr₁⟩ := (hv d).runs ha₁
    obtain ⟨ts₂, hr₂⟩ := ih ha₂
    exact ⟨ts₁ ++ ts₂, hr₁.append hr₂⟩

/-- What every allowed joint call preserves, every run of them preserves. -/
theorem invariant (Inv : (D → S) → (D → Option R) → Prop) (h : Polls M C s first vs s' first')
    (init : Inv s first)
    (step : ∀ s first v s', Inv s first → M.Joint s v s' → C s first v →
      Inv s' (record first v)) : Inv s' first' := by
  induction h with
  | refl => exact init
  | step hs hc _ ih => exact ih (step _ _ _ _ init hs hc)

/-- The same, for what is said about the calls so far. -/
theorem history (Inv : List (D → Visit I R) → (D → S) → (D → Option R) → Prop)
    (h : Polls M C s first vs s' first') (init : Inv [] s first)
    (step : ∀ vs s first v s', Inv vs s first → M.Joint s v s' → C s first v →
      Inv (vs ++ [v]) s' (record first v)) : Inv vs s' first' := by
  have extend : ∀ pre, Inv pre s first → Inv (pre ++ vs) s' first' := by
    clear init
    induction h with
    | refl =>
      intro pre hpre
      rwa [List.append_nil]
    | step hs hc _ ih =>
      intro pre hpre
      have hrest := ih _ (step _ _ _ _ _ hpre hs hc)
      rwa [List.append_assoc, List.singleton_append] at hrest
  exact extend [] init

end Polls

end Interaction
