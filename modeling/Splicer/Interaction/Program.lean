import Mathlib.Data.List.Basic

/-! Programs that call an environment, and the finite event traces they can leave. -/
namespace Interaction

/-- A call is made on a channel; the channel alone fixes the type of its answers. -/
structure Interface where
  Call : Type
  Channel : Type
  channel : Call → Channel
  Answer : Channel → Type
  Fault : Type

variable {I : Interface} {α β : Type}

/-- A program returns, panics, or makes a call and goes on with the answer. -/
inductive Prog (I : Interface) (α : Type) where
  | ret (a : α)
  | panic (why : I.Fault)
  | ask (c : I.Call) (next : I.Answer (I.channel c) → Prog I α)

inductive Outcome (I : Interface) (α : Type) where
  | val (a : α)
  | fault (why : I.Fault)

def Outcome.map (f : α → β) : Outcome I α → Outcome I β
  | .val a => .val (f a)
  | .fault why => .fault why

def Outcome.translate {J : Interface} : Outcome I α → (I.Fault → J.Fault) → Outcome J α
  | .val a, _ => .val a
  | .fault why, f => .fault (f why)

structure Event (I : Interface) where
  call : I.Call
  answer : I.Answer (I.channel call)

namespace Prog

def bind : Prog I α → (α → Prog I β) → Prog I β
  | ret a, f => f a
  | panic why, _ => panic why
  | ask c next, f => ask c (fun a => (next a).bind f)

instance : Monad (Prog I) where
  pure := ret
  bind := bind

@[simp] theorem pure_eq (a : α) : (pure a : Prog I α) = ret a := rfl

@[simp] theorem bind_ret (a : α) (f : α → Prog I β) : (ret a >>= f) = f a := rfl

@[simp] theorem bind_panic (why : I.Fault) (f : α → Prog I β) :
    ((panic why : Prog I α) >>= f) = panic why := rfl

@[simp] theorem bind_ask (c : I.Call) (next : I.Answer (I.channel c) → Prog I α)
    (f : α → Prog I β) : (ask c next >>= f) = ask c (fun a => next a >>= f) := rfl

/-- `p.Run es o`: with the answers recorded in `es`, and after exactly these calls,
`p` ends in `o`. -/
inductive Run : Prog I α → List (Event I) → Outcome I α → Prop where
  | ret (a : α) : Run (.ret a) [] (.val a)
  | panic (why : I.Fault) : Run (.panic why) [] (.fault why)
  | ask {c : I.Call} {next : I.Answer (I.channel c) → Prog I α} {a es o} :
      Run (next a) es o → Run (.ask c next) (⟨c, a⟩ :: es) o

variable {es : List (Event I)} {o : Outcome I α}

@[simp] theorem run_ret {a : α} : (ret a : Prog I α).Run es o ↔ es = [] ∧ o = .val a := by
  constructor
  · rintro ⟨⟩
    exact ⟨rfl, rfl⟩
  · rintro ⟨rfl, rfl⟩
    exact .ret a

@[simp] theorem run_panic {why : I.Fault} :
    (panic why : Prog I α).Run es o ↔ es = [] ∧ o = .fault why := by
  constructor
  · rintro ⟨⟩
    exact ⟨rfl, rfl⟩
  · rintro ⟨rfl, rfl⟩
    exact .panic why

@[simp] theorem run_ask {c : I.Call} {next : I.Answer (I.channel c) → Prog I α} :
    (ask c next).Run es o ↔ ∃ a es', es = ⟨c, a⟩ :: es' ∧ (next a).Run es' o := by
  constructor
  · rintro (_ | _ | h)
    exact ⟨_, _, rfl, h⟩
  · rintro ⟨a, es', rfl, h⟩
    exact .ask h

/-- Sequential composition concatenates traces, unless the first part panics. -/
theorem run_bind {p : Prog I α} {f : α → Prog I β} {o : Outcome I β} :
    (p >>= f).Run es o ↔
      (∃ a es₁ es₂, es = es₁ ++ es₂ ∧ p.Run es₁ (.val a) ∧ (f a).Run es₂ o) ∨
      (∃ why, o = .fault why ∧ p.Run es (.fault why)) := by
  induction p generalizing es with
  | ret a =>
    constructor
    · intro h
      exact .inl ⟨a, [], es, rfl, .ret a, h⟩
    · rintro (⟨b, es₁, es₂, rfl, hp, hf⟩ | ⟨why, -, hp⟩)
      · obtain ⟨rfl, hb⟩ := run_ret.mp hp
        cases hb
        exact hf
      · cases (run_ret.mp hp).2
  | panic why =>
    constructor
    · intro h
      obtain ⟨rfl, rfl⟩ := run_panic.mp h
      exact .inr ⟨why, rfl, .panic why⟩
    · rintro (⟨b, es₁, es₂, rfl, hp, hf⟩ | ⟨why', rfl, hp⟩)
      · cases (run_panic.mp hp).2
      · obtain ⟨rfl, hw⟩ := run_panic.mp hp
        cases hw
        exact .panic why
  | ask c next ih =>
    simp only [bind_ask, run_ask, ih]
    constructor
    · rintro ⟨a, es', rfl, ⟨b, es₁, es₂, rfl, hp, hf⟩ | ⟨why, rfl, hp⟩⟩
      · exact .inl ⟨b, ⟨c, a⟩ :: es₁, es₂, rfl, ⟨a, es₁, rfl, hp⟩, hf⟩
      · exact .inr ⟨why, rfl, a, es', rfl, hp⟩
    · rintro (⟨b, es₁, es₂, rfl, ⟨a, es', rfl, hp⟩, hf⟩ | ⟨why, rfl, a, es', rfl, hp⟩)
      · exact ⟨a, es' ++ es₂, rfl, .inl ⟨b, es', es₂, rfl, hp, hf⟩⟩
      · exact ⟨a, es', rfl, .inr ⟨why, rfl, hp⟩⟩

/-- A last step that only wraps what a computation found, if it found anything. -/
theorem run_wrap {p : Prog I (Option α)} {f : Option α → Prog I (Option β)} {g : α → β} {b : β}
    (hsome : ∀ a, f (some a) = ret (some (g a))) (hnone : f none = ret none) :
    (p >>= f).Run es (.val (some b)) ↔ ∃ a, p.Run es (.val (some a)) ∧ b = g a := by
  rw [run_bind]
  constructor
  · rintro (⟨_ | a, es₁, es₂, rfl, h, hr⟩ | ⟨why, ho, -⟩)
    · rw [hnone] at hr
      cases (run_ret.mp hr).2
    · rw [hsome] at hr
      obtain ⟨rfl, hr⟩ := run_ret.mp hr
      cases hr
      exact ⟨a, by rwa [List.append_nil], rfl⟩
    · cases ho
  · rintro ⟨a, h, rfl⟩
    refine .inl ⟨some a, es, [], by simp, h, ?_⟩
    rw [hsome]
    exact .ret _

end Prog

end Interaction
