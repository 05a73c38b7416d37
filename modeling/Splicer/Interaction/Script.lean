import Splicer.Interaction.Machine
import Mathlib.Logic.Function.Basic

/-! Scripted environments: one queue of answers a channel, and delays that do not matter. -/
namespace Interaction

variable {I : Interface} {S R α β : Type}

abbrev Script (I : Interface) := (k : I.Channel) → List (I.Answer k)

namespace Script

def erase (stall : (k : I.Channel) → I.Answer k → Bool) (f : Script I) : Script I :=
  fun k => (f k).filter (fun a => !stall k a)

variable [DecidableEq I.Channel]

def drop (f : Script I) (k : I.Channel) : Script I := Function.update f k (f k).tail

theorem drop_self (f : Script I) (k : I.Channel) : f.drop k k = (f k).tail := by
  simp [drop]

theorem drop_of_ne (f : Script I) {k l : I.Channel} (h : l ≠ k) : f.drop k l = f l := by
  simp [drop, h]

end Script

namespace Prog

variable [DecidableEq I.Channel]

/-- Run against the script; `none` when a queue is empty at the moment it is needed. -/
def play : Prog I α → Script I → Option (Outcome I α × List (Event I) × Script I)
  | .ret a, f => some (.val a, [], f)
  | .panic why, f => some (.fault why, [], f)
  | .ask c next, f =>
    match f (I.channel c) with
    | [] => none
    | a :: _ => ((next a).play (f.drop (I.channel c))).map
        fun r => (r.1, ⟨c, a⟩ :: r.2.1, r.2.2)

variable {p : Prog I α} {q : α → Prog I β} {f g f' : Script I} {o : Outcome I α}
  {es : List (Event I)}

theorem play_ask {c : I.Call} {next : I.Answer (I.channel c) → Prog I α} {a l}
    (h : f (I.channel c) = a :: l) :
    (ask c next).play f = ((next a).play (f.drop (I.channel c))).map
      fun r => (r.1, ⟨c, a⟩ :: r.2.1, r.2.2) := by
  simp [play, h]

theorem play_ask_eq_some {c : I.Call} {next : I.Answer (I.channel c) → Prog I α} :
    (ask c next).play f = some (o, es, f') ↔
      ∃ a l es', f (I.channel c) = a :: l ∧ es = ⟨c, a⟩ :: es' ∧
        (next a).play (f.drop (I.channel c)) = some (o, es', f') := by
  constructor
  · intro h
    cases hf : f (I.channel c) with
    | nil => simp [play, hf] at h
    | cons a l =>
      rw [play_ask hf] at h
      obtain ⟨⟨o', es', g⟩, hp, he⟩ := Option.map_eq_some_iff.mp h
      cases he
      exact ⟨a, l, es', rfl, rfl, hp⟩
  · rintro ⟨a, l, es', hf, rfl, hp⟩
    rw [play_ask hf, hp]
    rfl

/-- Playing a script is one of the program's runs. -/
theorem play_run (h : p.play f = some (o, es, f')) : p.Run es o := by
  induction p generalizing f es with
  | ret a => cases h; exact .ret a
  | panic why => cases h; exact .panic why
  | ask c next ih =>
    obtain ⟨a, l, es', -, rfl, hp⟩ := play_ask_eq_some.mp h
    exact .ask (ih a hp)

theorem play_bind_val {a : α} (h : p.play f = some (.val a, es, f')) :
    (p >>= q).play f = ((q a).play f').map fun r => (r.1, es ++ r.2.1, r.2.2) := by
  induction p generalizing f es with
  | ret b => cases h; simp
  | panic why => cases h
  | ask c next ih =>
    obtain ⟨b, l, es', hf, rfl, hp⟩ := play_ask_eq_some.mp h
    rw [bind_ask, play_ask hf, ih b hp, Option.map_map]
    rfl

theorem play_bind_fault {why : I.Fault} (h : p.play f = some (.fault why, es, f')) :
    (p >>= q).play f = some (.fault why, es, f') := by
  induction p generalizing f es with
  | ret b => cases h
  | panic why => cases h; rfl
  | ask c next ih =>
    obtain ⟨b, l, es', hf, rfl, hp⟩ := play_ask_eq_some.mp h
    rw [bind_ask, play_ask hf, ih b hp]
    rfl

theorem play_bind_none (h : p.play f = none) : (p >>= q).play f = none := by
  induction p generalizing f with
  | ret b => cases h
  | panic why => cases h
  | ask c next ih =>
    rw [bind_ask]
    cases hf : f (I.channel c) with
    | nil => simp [play, hf]
    | cons a l =>
      rw [play_ask hf, Option.map_eq_none_iff] at h
      rw [play_ask hf, ih a h]
      rfl

end Prog

/-! ### Stalls -/

section Stall

variable (stall : (k : I.Channel) → I.Answer k → Bool)

/-- The part of a trace that is no stall. -/
def moves (es : List (Event I)) : List (Event I) :=
  es.filter fun e => !stall (I.channel e.call) e.answer

/-- No call of the program can stall. -/
def Prog.Steady : Prog I α → Prop
  | .ret _ => True
  | .panic _ => True
  | .ask c next => (∀ a, stall (I.channel c) a = false) ∧ ∀ a, (next a).Steady

/-- Only the first call of an iteration can stall, and a stall ends the poll where it began. -/
def Patient (M : Machine I S R) : Prop :=
  ∀ s, ∃ c next, M s = .ask c next ∧
    (∀ a, stall (I.channel c) a = true → next a = .ret (s, .done .pending)) ∧
    (∀ a, stall (I.channel c) a = false → (next a).Steady stall)

variable {stall} {f g f' : Script I} {p : Prog I α} {o : Outcome I α} {es : List (Event I)}

theorem moves_append (es es' : List (Event I)) :
    moves stall (es ++ es') = moves stall es ++ moves stall es' := by
  simp [moves]

theorem Prog.Steady.bind {q : α → Prog I β} {p : Prog I α} (hp : p.Steady stall)
    (hq : ∀ a, (q a).Steady stall) : (p >>= q).Steady stall := by
  induction p with
  | ret a => exact hq a
  | panic why => trivial
  | ask c next ih => exact ⟨hp.1, fun a => ih a (hp.2 a)⟩

theorem erase_eq_self {k : I.Channel} (h : ∀ a, stall k a = false) : f.erase stall k = f k :=
  List.filter_eq_self.mpr fun a _ => by simp [h a]

variable [DecidableEq I.Channel]

theorem erase_drop_stall {k : I.Channel} {a l} (hf : f k = a :: l) (ha : stall k a = true) :
    (f.drop k).erase stall = f.erase stall := by
  funext j
  by_cases hj : j = k
  · subst j
    simp [Script.erase, Script.drop_self, hf, ha]
  · simp [Script.erase, Script.drop_of_ne f hj]

theorem erase_drop_move {k : I.Channel} {a b l m} (hfg : f.erase stall = g.erase stall)
    (hf : f k = a :: l) (hg : g k = b :: m) (ha : stall k a = false) (hb : stall k b = false) :
    a = b ∧ (f.drop k).erase stall = (g.drop k).erase stall := by
  have hk := congrFun hfg k
  simp only [Script.erase, hf, hg, List.filter_cons, ha, hb, Bool.not_false, ite_true,
    List.cons.injEq] at hk
  refine ⟨hk.1, ?_⟩
  funext j
  by_cases hj : j = k
  · subst j
    simpa [Script.erase, Script.drop_self, hf, hg] using hk.2
  · simpa [Script.erase, Script.drop_of_ne _ hj] using congrFun hfg j

/-- Without stalls on its channels a program cannot tell two scripts with equal erasures apart. -/
theorem Prog.Steady.play (hp : p.Steady stall) (hfg : f.erase stall = g.erase stall)
    (h : p.play f = some (o, es, f')) :
    ∃ g', p.play g = some (o, es, g') ∧ f'.erase stall = g'.erase stall := by
  induction p generalizing f g es with
  | ret a => cases h; exact ⟨g, rfl, hfg⟩
  | panic why => cases h; exact ⟨g, rfl, hfg⟩
  | ask c next ih =>
    obtain ⟨a, l, es', hf, rfl, hn⟩ := Prog.play_ask_eq_some.mp h
    have hk := congrFun hfg (I.channel c)
    rw [erase_eq_self hp.1, erase_eq_self hp.1, hf] at hk
    obtain ⟨-, hd⟩ := erase_drop_move hfg hf hk.symm (hp.1 a) (hp.1 a)
    obtain ⟨g', hg, he⟩ := ih a (hp.2 a) hd hn
    exact ⟨g', Prog.play_ask_eq_some.mpr ⟨a, l, es', hk.symm, rfl, hg⟩, he⟩

namespace Patient

variable {M : Machine I S R} {s s' : S}

/-- A stalled iteration only consumes its answer. -/
theorem await_stall {c next} (hM : M s = .ask c next)
    (hn : ∀ a, stall (I.channel c) a = true → next a = .ret (s, .done .pending))
    {a l} (hf : f (I.channel c) = a :: l) (ha : stall (I.channel c) a = true) (n : ℕ) :
    (M.await (n + 1) s).play f = ((M.await n s).play (f.drop (I.channel c))).map
      fun r => (r.1, ⟨c, a⟩ :: r.2.1, r.2.2) := by
  have hp : (M s).play f =
      some (.val (s, .done .pending), [⟨c, a⟩], f.drop (I.channel c)) := by
    rw [hM, Prog.play_ask hf, hn a ha]
    rfl
  rw [Machine.await_succ, Prog.play_bind_val hp]
  rfl

/-- Leading stalls of the queue the machine waits on can be skipped. -/
theorem await_skip {c next} (hM : M s = .ask c next)
    (hn : ∀ a, stall (I.channel c) a = true → next a = .ret (s, .done .pending))
    {a l} (hf : f.erase stall (I.channel c) = a :: l) :
    ∃ (k : ℕ) (waits : List (Event I)) (g : Script I) (m : List (I.Answer (I.channel c))),
      moves stall waits = [] ∧ g.erase stall = f.erase stall ∧ g (I.channel c) = a :: m ∧
      stall (I.channel c) a = false ∧
      ∀ n, (M.await (n + k) s).play f =
        ((M.await n s).play g).map fun r => (r.1, waits ++ r.2.1, r.2.2) := by
  generalize hq : f (I.channel c) = q
  induction q generalizing f with
  | nil => simp [Script.erase, hq] at hf
  | cons b q ih =>
    cases hb : stall (I.channel c) b with
    | false =>
      simp only [Script.erase, hq, List.filter_cons, hb, Bool.not_false, ite_true,
        List.cons.injEq] at hf
      obtain ⟨rfl, -⟩ := hf
      exact ⟨0, [], f, q, rfl, rfl, hq, hb, fun n => by simp⟩
    | true =>
      have he := erase_drop_stall hq hb
      obtain ⟨k, waits, g, m, hw, hg, hgm, ha, hplay⟩ :=
        ih (f := f.drop (I.channel c)) (by rw [he, hf]) (by simp [Script.drop_self, hq])
      refine ⟨k + 1, ⟨c, b⟩ :: waits, g, m, ?_, hg.trans he, hgm, ha, ?_⟩
      · simpa [moves, hb] using hw
      · intro n
        rw [← Nat.add_assoc, await_stall hM hn hq hb, hplay n, Option.map_map]
        rfl

/-- An iteration that does not stall plays alike in two scripts that offer the same answers. -/
theorem step_play {c next} (hM : M s = .ask c next) {a l m} (hn : (next a).Steady stall)
    (ha : stall (I.channel c) a = false) (hfg : f.erase stall = g.erase stall)
    (hf : f (I.channel c) = a :: l) (hg : g (I.channel c) = a :: m)
    {o : Outcome I (S × Flow R)} (h : (M s).play f = some (o, es, f')) :
    ∃ g', (M s).play g = some (o, es, g') ∧ f'.erase stall = g'.erase stall := by
  rw [hM] at h
  obtain ⟨b, l', es', hb, rfl, hp⟩ := Prog.play_ask_eq_some.mp h
  cases hf.symm.trans hb
  obtain ⟨g', hq, he⟩ := hn.play (erase_drop_move hfg hf hg ha ha).2 hp
  exact ⟨g', by rw [hM]; exact Prog.play_ask_eq_some.mpr ⟨a, m, es', hg, rfl, hq⟩, he⟩

/-- Delays are invisible: a script with the same answers but other stalls leads a patient
machine to the same outcome, through the same calls. -/
theorem await_play (hM : Patient stall M) {n : ℕ} {o : Outcome I (Option (S × R))}
    (hfg : f.erase stall = g.erase stall) (ho : o ≠ .val none)
    (h : (M.await n s).play f = some (o, es, f')) :
    ∃ m es' g', (M.await m s).play g = some (o, es', g') ∧
      moves stall es = moves stall es' ∧ f'.erase stall = g'.erase stall := by
  induction n generalizing s f g es with
  | zero =>
    cases h
    exact absurd rfl ho
  | succ n ih =>
    obtain ⟨c, next, hMs, hstall, hsteady⟩ := hM s
    cases hp : (M s).play f with
    | none =>
      rw [Machine.await_succ, Prog.play_bind_none hp] at h
      cases h
    | some out =>
      obtain ⟨oi, esi, f₁⟩ := out
      obtain ⟨a, l, -, hf, -, -⟩ := Prog.play_ask_eq_some.mp (hMs ▸ hp)
      cases ha : stall (I.channel c) a with
      | true =>
        rw [await_stall hMs hstall hf ha] at h
        obtain ⟨⟨o', es', f''⟩, hp, he⟩ := Option.map_eq_some_iff.mp h
        cases he
        obtain ⟨m, es₂, g', hg, hes, hfin⟩ := ih ((erase_drop_stall hf ha).trans hfg) hp
        exact ⟨m, es₂, g', hg, by simpa [moves, ha] using hes, hfin⟩
      | false =>
        have hg : g.erase stall (I.channel c) = a :: l.filter (fun b => !stall _ b) := by
          rw [← hfg]
          simp [Script.erase, hf, ha]
        obtain ⟨k, waits, g₁, m, hw, hge, hgm, -, hskip⟩ := await_skip hMs hstall hg
        obtain ⟨g₂, hq, he⟩ :=
          step_play hMs (hsteady a ha) ha (hfg.trans hge.symm) hf hgm hp
        cases oi with
        | fault why =>
          rw [Machine.await_succ, Prog.play_bind_fault hp] at h
          cases h
          refine ⟨0 + 1 + k, waits ++ es, g₂, ?_, by simp [moves_append, hw], he⟩
          rw [hskip, Machine.await_succ, Prog.play_bind_fault hq]
          rfl
        | val r =>
          obtain ⟨s₁, fl⟩ := r
          rw [Machine.await_succ, Prog.play_bind_val hp] at h
          obtain ⟨⟨o₂, es₂, f₂⟩, hrest, heq⟩ := Option.map_eq_some_iff.mp h
          cases heq
          cases hfl : fl.ready? with
          | some r =>
            simp only [hfl, Prog.play] at hrest
            cases hrest
            refine ⟨0 + 1 + k, waits ++ esi, g₂, ?_, by simp [moves_append, hw], he⟩
            rw [hskip, Machine.await_succ, Prog.play_bind_val hq]
            simp [hfl, Prog.play]
          | none =>
            simp only [hfl] at hrest
            obtain ⟨n', es₃, g₃, hg₃, hes, hfin⟩ := ih he hrest
            refine ⟨n' + 1 + k, waits ++ (esi ++ es₃), g₃, ?_, ?_, hfin⟩
            · rw [hskip, Machine.await_succ, Prog.play_bind_val hq]
              simp [hfl, hg₃]
            · simpa [moves_append, hw] using hes

end Patient

end Stall

end Interaction
