import Splicer.Interaction.Wp

/-! Interfaces implemented in lower ones, clean-up on the way out of a panic, and futures. -/
namespace Interaction

variable {I J : Interface} {S W R X α β : Type}

/-- A program of `J` for every call of `I`. -/
abbrev Handler (I J : Interface) := (c : I.Call) → Prog J (I.Answer (I.channel c))

namespace Prog

/-- Every call replaced by its implementation. -/
def interp (h : Handler I J) (fault : I.Fault → J.Fault) : Prog I α → Prog J α
  | .ret a => .ret a
  | .panic why => .panic (fault why)
  | .ask c next => h c >>= fun a => (next a).interp h fault

/-- A panic runs `cleanup` before it leaves. -/
def unwind : Prog I α → Prog I Unit → Prog I α
  | .ret a, _ => .ret a
  | .panic why, cleanup => cleanup >>= fun _ => .panic why
  | .ask c next, cleanup => .ask c fun a => (next a).unwind cleanup

/-- The implementation of a call came back with an answer. -/
def Returns (o : Outcome J α) (_ : W) : Prop := ∃ a, o = .val a

/-- What is left to do once the clean-up of the panic `why` is over. -/
def Unwound (Q : Outcome I α → W → Prop) (why : I.Fault) : Outcome I Unit → W → Prop
  | .val (), w => Q (.fault why) w
  | .fault why', w => Q (.fault why') w

end Prog

/-- What the environment of `J` looks like to a program of `I`. -/
def Env.through (E : Env J W) (h : Handler I J) : Env I W := fun w e w' =>
  ∃ es, (h e.call).Run es (.val e.answer) ∧ E.Accepts w es w'

theorem Env.through_mono {E F : Env J W} {h : Handler I J} {w w' : W} {e : Event I}
    (hE : ∀ w e w', E w e w' → F w e w') (he : (E.through h) w e w') : (F.through h) w e w' := by
  obtain ⟨es, hr, ha⟩ := he
  exact ⟨es, hr, ha.mono hE⟩

namespace Prog

/-- An implemented program meets what it meets against the environment seen through its handler. -/
theorem wp_interp {E : Env J W} {G : W → J.Call → Prop} {h : Handler I J}
    {fault : I.Fault → J.Fault} {p : Prog I α} {Q : Outcome J α → W → Prop} {w : W}
    (hp : p.wp (E.through h) (fun w c => (h c).wp E G Returns w)
      (fun o w => Q (o.translate fault) w) w) : (p.interp h fault).wp E G Q w := by
  induction p generalizing w with
  | ret | panic => exact hp
  | ask c next ih =>
    refine wp_bind.mpr (wp_imp hp.1 ?_)
    rintro es o w₁ hr ha ⟨a, rfl⟩
    exact ih a (hp.2 a w₁ ⟨es, hr, ha⟩)

theorem wp_unwind {E : Env I W} {G : W → I.Call → Prop} {cleanup : Prog I Unit} {p : Prog I α}
    {Q : Outcome I α → W → Prop} {w : W}
    (hp : p.wp E G (fun o w => match o with
      | .val a => Q (.val a) w
      | .fault why => cleanup.wp E G (Unwound Q why) w) w) :
    (p.unwind cleanup).wp E G Q w := by
  induction p generalizing w with
  | ret a => exact hp
  | panic why =>
    refine wp_bind.mpr (wp_mono hp ?_)
    rintro (⟨⟩ | why') w' hQ <;> exact hQ
  | ask c next ih => exact ⟨hp.1, fun a w₁ he => ih a (hp.2 a w₁ he)⟩

end Prog

/-! ### Futures -/

/-- What an executor does with a suspended future. -/
inductive Resume where
  | poll
  | drop
  deriving DecidableEq, Repr

/-- How a future ends. -/
inductive Completion (R : Type) where
  | returned (r : R)
  | dropped
  deriving DecidableEq, Repr

def Completion.map (f : R → X) : Completion R → Completion X
  | .returned r => .returned (f r)
  | .dropped => .dropped

/-- What `out` says of a future, `p` does in `E`: the same result, the same panic, the same want of
fuel. -/
structure Simulates (p : Prog I (Option α)) (E : Env I W) (w w' : W)
    (out : Outcome J (Option (Completion α))) (fault : J.Fault → I.Fault) : Prop where
  returned : ∀ a, out = .val (some (.returned a)) →
    ∃ es, p.Run es (.val (some a)) ∧ E.Accepts w es w'
  spent : out = .val none → ∃ es, p.Run es (.val none) ∧ E.Accepts w es w'
  panicked : ∀ why, out = .fault why → ∃ es, p.Run es (.fault (fault why)) ∧ E.Accepts w es w'

theorem simulates_dropped {p : Prog I (Option α)} {E : Env I W} {w w' : W}
    {fault : J.Fault → I.Fault} : Simulates p E w w' (.val (some .dropped)) fault :=
  ⟨by rintro _ ⟨⟩, by rintro ⟨⟩, by rintro _ ⟨⟩⟩

/-- A last step that only wraps what has been found. -/
theorem Simulates.wrap {p : Prog I (Option α)} {f : Option α → Prog I (Option β)} {E : Env I W}
    {w w' : W} {fault : J.Fault → I.Fault} {out : Outcome J (Option (Completion α))} {g : α → β}
    (hsome : ∀ a, f (some a) = .ret (some (g a))) (hnone : f none = .ret none)
    (h : Simulates p E w w' out fault) :
    Simulates (p >>= f) E w w' (out.map (Option.map (Completion.map g))) fault := by
  rcases out with (_ | _ | _) | why
  · obtain ⟨es, hr, ha⟩ := h.spent rfl
    refine ⟨by rintro _ ⟨⟩, fun _ => ⟨es, ?_, ha⟩, by rintro _ ⟨⟩⟩
    refine Prog.run_bind.mpr (.inl ⟨none, es, [], by simp, hr, ?_⟩)
    rw [hnone]
    exact .ret none
  · obtain ⟨es, hr, ha⟩ := h.returned _ rfl
    refine ⟨?_, by rintro ⟨⟩, by rintro _ ⟨⟩⟩
    rintro _ ⟨⟩
    exact ⟨es, (Prog.run_wrap hsome hnone).mpr ⟨_, hr, rfl⟩, ha⟩
  · exact simulates_dropped
  · obtain ⟨es, hr, ha⟩ := h.panicked why rfl
    refine ⟨by rintro _ ⟨⟩, by rintro ⟨⟩, ?_⟩
    rintro _ ⟨⟩
    exact ⟨es, Prog.run_bind.mpr (.inr ⟨_, rfl, hr⟩), ha⟩

namespace Machine

/-- The machine as a future: it suspends at every `Pending`, to be polled again or dropped. -/
def future (suspend : Prog I Resume) (M : Machine I S R) : Machine I S (Completion R) :=
  fun s => M s >>= fun r =>
    match r.2 with
    | .again => .ret (r.1, .again)
    | .done (.ready x) => .ret (r.1, .done (.ready (.returned x)))
    | .done .pending => suspend >>= fun
      | .poll => .ret (r.1, .done .pending)
      | .drop => .ret (r.1, .done (.ready .dropped))

/-- Where a future that has answered the executor goes on. -/
def Resumed (Inv : S → W → Prop) (Q : Outcome I (Option (S × Completion R)) → W → Prop) (s : S) :
    Outcome I Resume → W → Prop
  | .val .poll, w => Inv s w
  | .val .drop, w => Q (.val (some (s, .dropped))) w
  | .fault why, w => Q (.fault why) w

/-- Where one iteration of a future may lead. -/
def Awaited (E : Env I W) (G : W → I.Call → Prop) (suspend : Prog I Resume) (Inv : S → W → Prop)
    (Q : Outcome I (Option (S × Completion R)) → W → Prop) : Outcome I (S × Flow R) → W → Prop
  | .val (s, .again), w => Inv s w
  | .val (s, .done (.ready x)), w => Q (.val (some (s, .returned x))) w
  | .val (s, .done .pending), w => suspend.wp E G (Resumed Inv Q s) w
  | .fault why, w => Q (.fault why) w

/-- The rule for awaiting: iterations and suspensions keep the invariant, and every way out gives
the postcondition. -/
theorem wp_await_future {M : Machine I S R} {E : Env I W} {G : W → I.Call → Prop}
    {suspend : Prog I Resume} {Q : Outcome I (Option (S × Completion R)) → W → Prop} {s : S} {w : W}
    (Inv : ℕ → S → W → Prop)
    (step : ∀ n s w, Inv (n + 1) s w → (M s).wp E G (Awaited E G suspend (Inv n) Q) w)
    (stop : ∀ s w, Inv 0 s w → Q (.val none) w) {n : ℕ} (init : Inv n s w) :
    ((M.future suspend).await n s).wp E G Q w := by
  refine wp_iterate Inv (fun n s w hI => ?_) stop init
  refine Prog.wp_bind.mpr (Prog.wp_mono (step n s w hI) ?_)
  rintro (⟨s₁, _ | _ | x⟩ | why) w₁ h
  · exact h
  · refine Prog.wp_bind.mpr (Prog.wp_mono h ?_)
    rintro (⟨_ | _⟩ | why) w₂ h₂ <;> exact h₂
  · exact h
  · exact h

end Machine

end Interaction
