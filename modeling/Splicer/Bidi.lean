import Splicer.Invariant
import Splicer.Interaction.Joint

/-! `SpliceBidiIo`: two directions polled together, and what their results become. -/
namespace Splicer

open Interaction

inductive Side where
  | sl2sr
  | sr2sl
  deriving DecidableEq, Repr

/-- A value for each direction. -/
def each {α : Type} (sl2sr sr2sl : α) : Side → α
  | .sl2sr => sl2sr
  | .sr2sl => sr2sl

structure SpliceBidiIo where
  ioSl2sr : SpliceIo
  ioSr2sl : SpliceIo
  deriving DecidableEq, Repr

abbrev bidiCalls : Interface := calls.shared Side

/-- The match at the end of `SpliceBidiIo::poll_execute`. -/
def combine : Poll (IoResult Unit) → Poll (IoResult Unit) → Poll (IoResult Unit)
  | .pending, _ | _, .pending => .pending
  | .ready (.ok ()), .ready (.ok ()) => .ready (.ok ())
  | .ready (.error e), _ | _, .ready (.error e) => .ready (.error e)

namespace SpliceBidiIo

/-- One call: both halves are polled, whatever the first of them returns. -/
def pollExecute (fuel : ℕ) (io : SpliceBidiIo) :
    Prog bidiCalls (Option (SpliceBidiIo × Poll (IoResult Unit))) := do
  match ← (io.ioSl2sr.pollExecute fuel).on Side.sl2sr with
  | none => return none
  | some (ioSl2sr, ioSl2srRet) =>
    match ← (io.ioSr2sl.pollExecute fuel).on Side.sr2sl with
    | none => return none
    | some (ioSr2sl, ioSr2slRet) => return some (⟨ioSl2sr, ioSr2sl⟩, combine ioSl2srRet ioSr2slRet)

/-- Call again after every `Pending`, `calls` times at most. -/
def await (fuel : ℕ) : ℕ → SpliceBidiIo → Prog bidiCalls (Option (SpliceBidiIo × IoResult Unit))
  | 0, _ => .ret none
  | calls + 1, io => do
    match ← io.pollExecute fuel with
    | none => return none
    | some (io, .pending) => await fuel calls io
    | some (io, .ready res) => return some (io, res)

def report (io : SpliceBidiIo) (res : IoResult Unit) : TransferReport where
  tx := io.ioSl2sr.splicer.bytesWritten
  rx := io.ioSr2sl.splicer.bytesWritten
  error := match res with
    | .ok () => none
    | .error e => some e

def execute (fuel : ℕ) (io : SpliceBidiIo) : Prog bidiCalls (Option TransferReport) := do
  match ← await fuel fuel io with
  | some (io, res) => return some (io.report res)
  | none => return none

def half (io : SpliceBidiIo) : Side → SpliceIo := each io.ioSl2sr io.ioSr2sl

end SpliceBidiIo

/-- One call of each half. -/
abbrev BidiVisit := Side → Visit calls (IoResult Unit)

def BidiVisit.events (v : BidiVisit) : List (Event bidiCalls) :=
  (v .sl2sr).events.map (Event.on .sl2sr) ++ (v .sr2sl).events.map (Event.on .sr2sl)

def BidiVisit.ret (v : BidiVisit) : Poll (IoResult Unit) := combine (v .sl2sr).ret (v .sr2sl).ret

/-- The first `Ready` of each half, if it has returned one. -/
abbrev Firsts := Side → Option (IoResult Unit)

/-- What the result `r` of the transfer must be, given the results of its two directions. -/
def Combines (first : Firsts) (r : IoResult Unit) : Prop :=
  ∃ res : Side → IoResult Unit, (∀ d, first d = some (res d)) ∧
    (r = .ok () ↔ ∀ d, res d = .ok ()) ∧ ∀ e, r = .error e → ∃ d, res d = .error e

/-- No call polls a direction that has failed, and the repeated shutdown of one that has
completed does not fail. -/
def Undisturbed (_ : Side → SpliceIo) (first : Firsts) (v : BidiVisit) : Prop :=
  ∀ d res, first d = some res → res = .ok () ∧
    ∀ e, (⟨.pollShutdown, .ready (.error e)⟩ : Event calls) ∉ (v d).events

/-! ### One call -/

section Call

variable {io io' : SpliceBidiIo} {fuel : ℕ} {es : List (Event bidiCalls)}
  {p q : Poll (IoResult Unit)} {r : IoResult Unit}

/-- Once both directions are ready, the first error in their order wins. -/
theorem combine_eq_ready :
    combine p q = .ready r ↔ ∃ a b, p = .ready a ∧ q = .ready b ∧ r = a.bind fun _ => b := by
  constructor
  · intro h
    rcases p with _ | _ | _ <;> rcases q with _ | _ | _ <;>
      simp only [combine, Poll.ready.injEq, reduceCtorEq] at h <;>
      exact ⟨_, _, rfl, rfl, h.symm⟩
  · rintro ⟨_ | _, _ | _, rfl, rfl, rfl⟩ <;> rfl

/-- With one fuel, a call of the transfer is a call of each half, in order. -/
theorem run_pollExecute_fuel :
    (io.pollExecute fuel).Run es (.val (some (io', p))) ↔
      ∃ es₁ p₁ es₂ p₂, es = es₁.map (Event.on .sl2sr) ++ es₂.map (Event.on .sr2sl) ∧
        p = combine p₁ p₂ ∧
        (io.ioSl2sr.pollExecute fuel).Run es₁ (.val (some (io'.ioSl2sr, p₁))) ∧
        (io.ioSr2sl.pollExecute fuel).Run es₂ (.val (some (io'.ioSr2sl, p₂))) := by
  rw [SpliceBidiIo.pollExecute, Prog.run_bind]
  constructor
  · rintro (⟨_ | ⟨ioSl2sr, p₁⟩, _, es', rfl, hon₁, h⟩ | ⟨why, ho, -⟩)
    · cases (Prog.run_ret.mp h).2
    · obtain ⟨es₁, rfl, h₁⟩ := Prog.run_on.mp hon₁
      rcases Prog.run_bind.mp h with ⟨_ | ⟨ioSr2sl, p₂⟩, _, _, rfl, hon₂, hr⟩ | ⟨why, ho, -⟩
      · cases (Prog.run_ret.mp hr).2
      · obtain ⟨es₂, rfl, h₂⟩ := Prog.run_on.mp hon₂
        obtain ⟨rfl, hout⟩ := Prog.run_ret.mp hr
        cases hout
        exact ⟨es₁, p₁, es₂, p₂, by simp, rfl, h₁, h₂⟩
      · cases ho
    · cases ho
  · rintro ⟨es₁, p₁, es₂, p₂, rfl, rfl, h₁, h₂⟩
    refine .inl ⟨some (io'.ioSl2sr, p₁), _, _, rfl, Prog.run_on.mpr ⟨es₁, rfl, h₁⟩, ?_⟩
    refine Prog.run_bind.mpr (.inl ⟨some (io'.ioSr2sl, p₂), es₂.map (Event.on .sr2sl), [],
      ?_, ?_, .ret _⟩)
    · exact (List.append_nil _).symm
    · exact Prog.run_on.mpr ⟨es₂, rfl, h₂⟩

theorem run_pollExecute_mono {fuel' : ℕ} (h : (io.pollExecute fuel).Run es (.val (some (io', p))))
    (hle : fuel ≤ fuel') : (io.pollExecute fuel').Run es (.val (some (io', p))) := by
  obtain ⟨es₁, p₁, es₂, p₂, he, hp, h₁, h₂⟩ := run_pollExecute_fuel.mp h
  exact run_pollExecute_fuel.mpr ⟨es₁, p₁, es₂, p₂, he, hp, Machine.run_iterate_mono h₁ hle,
    Machine.run_iterate_mono h₂ hle⟩

/-- A call of the transfer is one call of each half. -/
theorem run_pollExecute :
    (∃ fuel, (io.pollExecute fuel).Run es (.val (some (io', p)))) ↔
      ∃ v : BidiVisit, Machine.Joint SpliceIo.loopBody io.half v io'.half ∧ es = v.events ∧
        p = v.ret := by
  constructor
  · rintro ⟨fuel, h⟩
    obtain ⟨es₁, p₁, es₂, p₂, rfl, rfl, h₁, h₂⟩ := run_pollExecute_fuel.mp h
    refine ⟨each ⟨es₁, p₁⟩ ⟨es₂, p₂⟩, ?_, rfl, rfl⟩
    rintro (_ | _)
    · exact ⟨fuel, h₁⟩
    · exact ⟨fuel, h₂⟩
  · rintro ⟨v, hv, rfl, rfl⟩
    obtain ⟨n₁, h₁⟩ := hv .sl2sr
    obtain ⟨n₂, h₂⟩ := hv .sr2sl
    refine ⟨max n₁ n₂, run_pollExecute_fuel.mpr ⟨_, _, _, _, rfl, rfl, ?_, ?_⟩⟩
    · exact Machine.run_iterate_mono h₁ (Nat.le_max_left n₁ n₂)
    · exact Machine.run_iterate_mono h₂ (Nat.le_max_right n₁ n₂)

end Call

/-! ### Calls until `Ready` -/

/-- No call has returned `Ready` yet. -/
def Waiting (_ : Side → SpliceIo) (_ : Firsts) (v : BidiVisit) : Prop := v.ret = .pending

theorem exists_half (s : Side → SpliceIo) : ∃ io : SpliceBidiIo, io.half = s := by
  refine ⟨⟨s .sl2sr, s .sr2sl⟩, funext ?_⟩
  rintro (_ | _) <;> rfl

section Await

variable {io io' : SpliceBidiIo} {fuel n : ℕ} {es : List (Event bidiCalls)}
  {res : IoResult Unit} {first : Firsts}

theorem run_await_mono {fuel' n' : ℕ} (h : (io.await fuel n).Run es (.val (some (io', res))))
    (hfuel : fuel ≤ fuel') (hn : n ≤ n') :
    (io.await fuel' n').Run es (.val (some (io', res))) := by
  induction n generalizing io es n' with
  | zero => cases (Prog.run_ret.mp h).2
  | succ n ih =>
    obtain ⟨n', rfl⟩ : ∃ m, n' = m + 1 := ⟨n' - 1, by omega⟩
    have hn' : n ≤ n' := Nat.le_of_succ_le_succ hn
    rw [SpliceBidiIo.await, Prog.run_bind] at h ⊢
    rcases h with ⟨_ | ⟨io₁, _ | r⟩, es₁, es₂, rfl, hcall, hrest⟩ | ⟨why, ho, -⟩
    · cases (Prog.run_ret.mp hrest).2
    · exact .inl ⟨_, _, _, rfl, run_pollExecute_mono hcall hfuel, ih hrest hn'⟩
    · exact .inl ⟨_, _, _, rfl, run_pollExecute_mono hcall hfuel, hrest⟩
    · cases ho

/-- Awaiting the transfer is a run of pending calls, and one call that returns `Ready`. -/
theorem run_bidi_await :
    (∃ fuel n, (io.await fuel n).Run es (.val (some (io', res)))) ↔
      ∃ (vs : List BidiVisit) (s : Side → SpliceIo) (first' : Firsts) (v : BidiVisit),
        Polls SpliceIo.loopBody Waiting io.half first vs s first' ∧
        Machine.Joint SpliceIo.loopBody s v io'.half ∧ v.ret = .ready res ∧
        es = (vs ++ [v]).flatMap BidiVisit.events := by
  constructor
  · rintro ⟨fuel, n, h⟩
    induction n generalizing io es first with
    | zero => cases (Prog.run_ret.mp h).2
    | succ n ih =>
      rw [SpliceBidiIo.await, Prog.run_bind] at h
      rcases h with ⟨_ | ⟨io₁, _ | r⟩, es₁, es₂, rfl, hcall, hrest⟩ | ⟨why, ho, -⟩
      · cases (Prog.run_ret.mp hrest).2
      · obtain ⟨v₁, hv₁, rfl, hp⟩ := run_pollExecute.mp ⟨fuel, hcall⟩
        obtain ⟨vs, s, first', v, hr, hv, hres, rfl⟩ := @ih _ _ (record first v₁) hrest
        exact ⟨v₁ :: vs, s, first', v, .step hv₁ hp.symm hr, hv, hres, rfl⟩
      · obtain ⟨v, hv, rfl, hp⟩ := run_pollExecute.mp ⟨fuel, hcall⟩
        obtain ⟨rfl, hout⟩ := Prog.run_ret.mp hrest
        cases hout
        exact ⟨[], io.half, first, v, .refl _ _, hv, hp.symm, by simp⟩
      · cases ho
  · rintro ⟨vs, s, first', v, hr, hv, hres, rfl⟩
    generalize hs : io.half = s₀ at hr
    induction hr generalizing io with
    | refl s first =>
      subst hs
      obtain ⟨fuel, hcall⟩ := run_pollExecute.mpr ⟨v, hv, rfl, hres.symm⟩
      refine ⟨fuel, 1, ?_⟩
      rw [SpliceBidiIo.await, Prog.run_bind]
      exact .inl ⟨_, v.events, [], by simp, hcall, .ret _⟩
    | @step s first v₁ s₁ vs s' first' hv₁ hp _ ih =>
      subst hs
      obtain ⟨io₁, rfl⟩ := exists_half s₁
      obtain ⟨fuel₁, hcall⟩ := run_pollExecute.mpr ⟨v₁, hv₁, rfl, hp.symm⟩
      obtain ⟨fuel, n, hrest⟩ := ih hv rfl
      refine ⟨max fuel₁ fuel, n + 1, ?_⟩
      rw [SpliceBidiIo.await, Prog.run_bind]
      refine .inl ⟨some (io₁, .pending), BidiVisit.events v₁, _, rfl, ?_, ?_⟩
      · exact run_pollExecute_mono hcall (Nat.le_max_left fuel₁ fuel)
      · exact run_await_mono hrest (Nat.le_max_right fuel₁ fuel) (Nat.le_refl n)

/-- `execute` reports on the two contexts and the result of the first `Ready`. -/
theorem run_bidi_execute {report : TransferReport} :
    (io.execute fuel).Run es (.val (some report)) ↔
      ∃ io' res, (io.await fuel fuel).Run es (.val (some (io', res))) ∧
        report = io'.report res := by
  refine Iff.trans (Prog.run_wrap (g := fun r => r.1.report r.2) ?_ ?_) Prod.exists
  · intro _
    rfl
  · rfl

end Await

/-! ### A direction after its first `Ready` -/

section Half

variable {io io' : SpliceIo} {v : Visit calls (IoResult Unit)}

/-- Only a shutdown with no error left to report ends a call with `Ok`. -/
theorem finished_of_call_ok (h : Machine.Call SpliceIo.loopBody io v io')
    (hv : v.ret = .ready (.ok ())) : io'.state = .finished none := by
  obtain ⟨ts, u, es, hs, -, -⟩ := h.last
  rw [hv] at hs
  cases step_iff.mp hs with
  | clean hstate => exact hstate

/-- A call of a direction that is done is one more shutdown, and returns what it answers. -/
theorem call_of_finished (h : Machine.Call SpliceIo.loopBody io v io')
    (hio : io.state = .finished none) : v.events = [⟨.pollShutdown, v.ret⟩] ∧ io' = io := by
  obtain ⟨ts, u, es, hs, he, hr⟩ := h.last
  cases hr with
  | refl =>
    rw [he]
    generalize v.ret = p at hs ⊢
    cases step_iff.mp hs with
    | pending => simp [checked, hio]
    | failed e => simp [checked, hio]
    | clean _ => simp
    | fault hstate => simp [hio] at hstate
  | step hs₁ _ hgo _ =>
    cases step_iff.mp hs₁ with
    | fill hstate => simp [hio] at hstate
    | drain hstate => simp [hio] at hstate
    | _ => simp at hgo

end Half

/-- A direction whose first `Ready` was `Ok` has nothing left but its shutdown. -/
def Spent (s : Side → SpliceIo) (first : Firsts) : Prop :=
  ∀ d, first d = some (.ok ()) → (s d).state = .finished none

section Outcome

variable {io : SpliceBidiIo} {s s' : Side → SpliceIo} {first : Firsts} {v : BidiVisit}
  {vs : List BidiVisit} {r : IoResult Unit}
  {C : (Side → SpliceIo) → Firsts → BidiVisit → Prop}

theorem Spent.step (h : Spent s first) (hv : Machine.Joint SpliceIo.loopBody s v s') :
    Spent s' (record first v) := by
  intro d hd
  rcases record_eq_some.mp hd with hd | ⟨-, hd⟩
  · obtain ⟨-, hs⟩ := call_of_finished (hv d) (h d hd)
    rw [hs]
    exact h d hd
  · exact finished_of_call_ok (hv d) hd

/-- The runs of the transfer, from before its first call. -/
abbrev BidiRuns (C : (Side → SpliceIo) → Firsts → BidiVisit → Prop) (io : SpliceBidiIo) :
    List BidiVisit → (Side → SpliceIo) → Firsts → Prop :=
  Polls SpliceIo.loopBody C io.half fun _ => none

theorem run_spent (h : BidiRuns C io vs s first) : Spent s first := by
  apply h.invariant Spent
  · intro d hd
    cases hd
  · intro s first v s' hI hv _
    exact hI.step hv

theorem ret_of_ready (hr : v.ret = .ready r) : ∃ res : Side → IoResult Unit,
    (∀ d, (v d).ret = .ready (res d)) ∧ r = (res .sl2sr).bind fun _ => res .sr2sl := by
  obtain ⟨a, b, ha, hb, hr⟩ := combine_eq_ready.mp hr
  refine ⟨each a b, ?_, hr⟩
  rintro (_ | _)
  · exact ha
  · exact hb

/-- The match of `poll_execute` combines what the two halves return in that call. -/
theorem combines_bind (res : Side → IoResult Unit) (hres : ∀ d, first d = some (res d)) :
    Combines first ((res .sl2sr).bind fun _ => res .sr2sl) := by
  refine ⟨res, hres, ?_, ?_⟩
  · constructor
    · intro hok d
      cases hl : res .sl2sr with
      | error e => simp [hl, Except.bind] at hok
      | ok _ =>
        cases d
        · exact hl
        · simpa [hl, Except.bind] using hok
    · intro hok
      rw [hok .sl2sr, hok .sr2sl]
      rfl
  · intro e he
    cases hl : res .sl2sr with
    | error e' =>
      rw [hl] at he
      exact ⟨.sl2sr, hl.trans he⟩
    | ok _ =>
      rw [hl] at he
      exact ⟨.sr2sl, he⟩

/-- A completed direction that is left undisturbed returns its first result again. -/
theorem record_of_undisturbed (h : Spent s first) (hv : Machine.Joint SpliceIo.loopBody s v s')
    (hc : Undisturbed s first v) {d : Side} {res : IoResult Unit} (hd : (v d).ret = .ready res) :
    record first v d = some res := by
  cases hf : first d with
  | none => exact record_eq_some.mpr (.inr ⟨hf, hd⟩)
  | some x =>
    obtain ⟨rfl, hshutdown⟩ := hc d x hf
    obtain ⟨he, -⟩ := call_of_finished (hv d) (h d hf)
    cases res with
    | ok _ => exact record_eq_some.mpr (.inl hf)
    | error e =>
      have hne := hshutdown e
      rw [he, hd] at hne
      exact absurd List.mem_cons_self hne

theorem combines_of_undisturbed (h : Spent s first)
    (hv : Machine.Joint SpliceIo.loopBody s v s') (hc : Undisturbed s first v)
    (hr : v.ret = .ready r) : Combines (record first v) r := by
  obtain ⟨res, hres, rfl⟩ := ret_of_ready hr
  apply combines_bind
  intro d
  exact record_of_undisturbed h hv hc (hres d)

theorem exists_ne_side (d : Side) : ∃ o, o ≠ d := by
  cases d
  · exact ⟨.sr2sl, by decide⟩
  · exact ⟨.sl2sr, by decide⟩

/-- Where one direction returns `Ok`, the call returns what the other does. -/
theorem bind_eq_other {res : Side → IoResult Unit} {d o : Side} (hd : res d = .ok ())
    (ho : o ≠ d) : ((res .sl2sr).bind fun _ => res .sr2sl) = res o := by
  cases d with
  | sl2sr =>
    cases o with
    | sl2sr => exact absurd rfl ho
    | sr2sl =>
      rw [hd]
      rfl
  | sr2sl =>
    cases o with
    | sl2sr =>
      rw [hd]
      cases res .sl2sr <;> rfl
    | sr2sl => exact absurd rfl ho

/-- The error of a direction that failed is gone: one more call, and the other's result stands. -/
theorem combines_iff_of_failed {d : Side} {e : IoError} (hf : first d = some (.error e))
    (hother : ∀ o, o ≠ d → first o = none) (hs : (s d).state = .finished none)
    (hv : Machine.Joint SpliceIo.loopBody s v s')
    (hshutdown : (v d).events = [⟨.pollShutdown, .ready (.ok ())⟩]) (hr : v.ret = .ready r) :
    Combines (record first v) r ↔ r ≠ .ok () := by
  obtain ⟨res, hres, rfl⟩ := ret_of_ready hr
  have hd : res d = .ok () := by
    obtain ⟨he, -⟩ := call_of_finished (hv d) hs
    rw [hshutdown, hres d] at he
    simpa using he.symm
  have hfail : record first v d = some (.error e) := record_eq_some.mpr (.inl hf)
  constructor
  · rintro ⟨res', hrec, hiff, -⟩ hok
    have hall := hiff.mp hok d
    rw [hrec d, hall] at hfail
    cases hfail
  · intro hne
    refine ⟨fun o => if o = d then .error e else res o, ?_, ?_, ?_⟩
    · intro o
      by_cases ho : o = d
      · subst ho
        simpa using hfail
      · simpa [ho] using record_eq_some.mpr (.inr ⟨hother o ho, hres o⟩)
    · constructor
      · intro hok
        exact absurd hok hne
      · intro hok
        have := hok d
        simp at this
    · intro e' he'
      obtain ⟨o, ho⟩ := exists_ne_side d
      refine ⟨o, ?_⟩
      simpa [ho] using (bind_eq_other hd ho).symm.trans he'

/-- What `execute` reports comes from a run, and says of an undisturbed one whether it failed. -/
theorem execute_outcome {fuel : ℕ} {es : List (Event bidiCalls)} {report : TransferReport}
    (h : (io.execute fuel).Run es (.val (some report))) :
    ∃ (vs : List BidiVisit) (s : Side → SpliceIo) (first : Firsts),
      BidiRuns (fun _ _ _ => True) io vs s first ∧ es = vs.flatMap BidiVisit.events ∧
      (BidiRuns Undisturbed io vs s first →
        (report.error = none ↔ ∀ d, first d = some (.ok ()))) := by
  obtain ⟨io', res, hawait, rfl⟩ := run_bidi_execute.mp h
  obtain ⟨vs, s, first, v, hrun, hv, hres, rfl⟩ := run_bidi_await.mp ⟨fuel, fuel, hawait⟩
  have hany : BidiRuns (fun _ _ _ => True) io vs s first := hrun.mono fun _ _ _ _ _ _ => trivial
  refine ⟨vs ++ [v], io'.half, record first v, hany.snoc hv trivial, rfl, ?_⟩
  intro hun
  obtain ⟨s₁, first₁, hpre, hv₁, hc, hfirst⟩ := hun.of_snoc
  obtain ⟨res', hrec, hok, -⟩ := combines_of_undisturbed (run_spent hpre) hv₁ hc hres
  have hnone : (io'.report res).error = none ↔ res = .ok () := by
    cases res <;> simp [SpliceBidiIo.report]
  rw [hfirst, hnone, hok]
  constructor
  · intro hall d
    rw [hrec d, hall d]
  · intro hall d
    exact Option.some.inj ((hrec d).symm.trans (hall d))

/-- Whatever the run, the transfer returns `Ready` only when both directions have, and `execute`
reports what such a run returns. The result is the combination of the directions' own results in
every run whose calls leave completed directions undisturbed. Where one call instead polls a
direction that has failed and shut down, it is so exactly if the other fails as well. -/
theorem bidi_outcome (io : SpliceBidiIo) :
    (∀ (vs : List BidiVisit) s first (v : BidiVisit) s' r,
      BidiRuns (fun _ _ _ => True) io vs s first → Machine.Joint SpliceIo.loopBody s v s' →
      v.ret = .ready r → ∀ d, ∃ res, record first v d = some res) ∧
    (∀ (vs : List BidiVisit) s first (v : BidiVisit) s' r,
      BidiRuns Undisturbed io vs s first → Machine.Joint SpliceIo.loopBody s v s' →
      Undisturbed s first v → v.ret = .ready r → Combines (record first v) r) ∧
    (∀ fuel es report, (io.execute fuel).Run es (.val (some report)) →
      ∃ (vs : List BidiVisit) (s : Side → SpliceIo) (first : Firsts),
        BidiRuns (fun _ _ _ => True) io vs s first ∧ es = vs.flatMap BidiVisit.events ∧
        (BidiRuns Undisturbed io vs s first →
          (report.error = none ↔ ∀ d, first d = some (.ok ())))) ∧
    (∀ (vs : List BidiVisit) s first (v : BidiVisit) s' r d e,
      BidiRuns Undisturbed io vs s first → Machine.Joint SpliceIo.loopBody s v s' →
      v.ret = .ready r → first d = some (.error e) → (∀ o, o ≠ d → first o = none) →
      (s d).state = .finished none → (v d).events = [⟨.pollShutdown, .ready (.ok ())⟩] →
      (Combines (record first v) r ↔ r ≠ .ok ())) := by
  refine ⟨?_, ?_, ?_, ?_⟩
  · intro vs s first v s' r _ _ hr d
    obtain ⟨res, hres, -⟩ := ret_of_ready hr
    cases hf : first d with
    | none => exact ⟨res d, record_eq_some.mpr (.inr ⟨hf, hres d⟩)⟩
    | some x => exact ⟨x, record_eq_some.mpr (.inl hf)⟩
  · intro vs s first v s' r h hv hc hr
    exact combines_of_undisturbed (run_spent h) hv hc hr
  · intro fuel es report h
    exact execute_outcome h
  · intro vs s first v s' r d e _ hv hr hf hother hs hshutdown
    exact combines_iff_of_failed hf hother hs hv hshutdown hr

end Outcome

/-! ### One direction ends before the other -/

def SpliceBidiIo.fresh : SpliceBidiIo := ⟨.ofCtx (.new .granted), .ofCtx (.new .granted)⟩

/-- `EIO`. -/
def IoError.eio : IoError := ⟨.os 5, "Input/output error"⟩

def sleeps : Visit calls (IoResult Unit) := ⟨[⟨.pollReadReady, .pending⟩], .pending⟩

def shutsDown : Visit calls (IoResult Unit) :=
  ⟨[⟨.pollShutdown, .ready (.ok ())⟩], .ready (.ok ())⟩

def fails : Visit calls (IoResult Unit) :=
  ⟨(fillTurn none isizeMax ⟨.error .eio, none⟩).events ++ shutsDown.events, .ready (.error .eio)⟩

def ends : Visit calls (IoResult Unit) :=
  ⟨(fillTurn none isizeMax ⟨.ok 0, none⟩).events ++
    ([⟨.pollWriteReady, .ready (.ok ())⟩, ⟨.tryIoWrite, .callInner⟩] ++ shutsDown.events),
    .ready (.ok ())⟩

theorem call_sleeps :
    Machine.Call SpliceIo.loopBody (.ofCtx (.new .granted)) sleeps (.ofCtx (.new .granted)) :=
  .of_step (step_iff.mpr .pending)

theorem call_shutsDown (ctx : SpliceCtx) :
    Machine.Call SpliceIo.loopBody ⟨ctx, .finished none⟩ shutsDown ⟨ctx, .finished none⟩ :=
  .of_step (step_iff.mpr (.clean rfl))

theorem call_fails : Machine.Call SpliceIo.loopBody (.ofCtx (.new .granted)) fails
    ⟨.new .granted, .finished none⟩ := by
  have hfill : Iteration (.ofCtx (.new .granted)) (fillTurn none isizeMax ⟨.error .eio, none⟩)
      ⟨.new .granted, .faulted .eio⟩ := granted_fails (by decide) (by decide)
  exact .cons (step_iff.mpr hfill) (.of_step (step_iff.mpr (.fault rfl)))

theorem call_ends : Machine.Call SpliceIo.loopBody (.ofCtx (.new .granted)) ends
    ⟨(SpliceCtx.new .granted).setFillDone.setDrainDone, .finished none⟩ := by
  have hfill : Iteration (.ofCtx (.new .granted)) (fillTurn none isizeMax ⟨.ok 0, none⟩)
      ⟨(SpliceCtx.new .granted).setFillDone, .drain⟩ := granted_ends (by decide)
  have hdrain : Iteration ⟨(SpliceCtx.new .granted).setFillDone, .drain⟩
      ⟨[⟨.pollWriteReady, .ready (.ok ())⟩, ⟨.tryIoWrite, .callInner⟩], .again⟩
      ⟨(SpliceCtx.new .granted).setFillDone.setDrainDone, .finished none⟩ :=
    .drain rfl (.closed rfl rfl)
  exact .cons (step_iff.mpr hfill) (.cons (step_iff.mpr hdrain) (call_shutsDown _))

/-- The first direction ends cleanly, the second fails a call later: the error is returned. -/
theorem bidi_outcome_second_fails : ∃ (first : Firsts) (v : BidiVisit),
    first .sl2sr = some (.ok ()) ∧ v.ret = .ready (.error .eio) ∧
      Combines (record first v) (.error .eio) := by
  have hrun : BidiRuns Undisturbed .fresh [each ends sleeps]
      (each ⟨(SpliceCtx.new .granted).setFillDone.setDrainDone, .finished none⟩
        (.ofCtx (.new .granted))) (record (fun _ => none) (each ends sleeps)) := by
    refine .step ?_ ?_ (.refl _ _)
    · rintro (_ | _)
      · exact call_ends
      · exact call_sleeps
    · intro d res hd
      cases hd
  have hlast : Machine.Joint SpliceIo.loopBody
      (each ⟨(SpliceCtx.new .granted).setFillDone.setDrainDone, .finished none⟩
        (.ofCtx (.new .granted))) (each shutsDown fails)
      (each ⟨(SpliceCtx.new .granted).setFillDone.setDrainDone, .finished none⟩
        ⟨.new .granted, .finished none⟩) := by
    rintro (_ | _)
    · exact call_shutsDown _
    · exact call_fails
  refine ⟨_, each shutsDown fails, ?_, rfl,
    (bidi_outcome .fresh).2.1 _ _ _ _ _ _ hrun hlast ?_ rfl⟩
  · rfl
  · rintro (_ | _) res hd
    · cases hd
      exact ⟨rfl, fun e he => by simp [each, shutsDown] at he⟩
    · cases hd

/-- The first direction fails, the second ends cleanly a call later: the failure is not reported. -/
theorem bidi_loses_error : ∃ (s s' : Side → SpliceIo) (first : Firsts) (v₁ v₂ : BidiVisit),
    Constructed (.new .granted) ∧ BidiRuns Waiting .fresh [v₁] s first ∧
      Machine.Joint SpliceIo.loopBody s v₂ s' ∧ v₂.ret = .ready (.ok ()) ∧
      record first v₂ .sl2sr = some (.error .eio) ∧ ¬ Combines (record first v₂) (.ok ()) ∧
      ∃ fuel, (SpliceBidiIo.fresh.execute fuel).Run (v₁.events ++ v₂.events)
        (.val (some ⟨0, 0, none⟩)) := by
  have hrun : BidiRuns Waiting .fresh [each fails sleeps]
      (each ⟨.new .granted, .finished none⟩ (.ofCtx (.new .granted)))
      (record (fun _ => none) (each fails sleeps)) := by
    refine .step ?_ rfl (.refl _ _)
    rintro (_ | _)
    · exact call_fails
    · exact call_sleeps
  let io : SpliceBidiIo := ⟨⟨.new .granted, .finished none⟩,
    ⟨(SpliceCtx.new .granted).setFillDone.setDrainDone, .finished none⟩⟩
  have hlast : Machine.Joint SpliceIo.loopBody
      (each ⟨.new .granted, .finished none⟩ (.ofCtx (.new .granted))) (each shutsDown ends)
      io.half := by
    rintro (_ | _)
    · exact call_shutsDown _
    · exact call_ends
  obtain ⟨fuel, n, hawait⟩ :=
    run_bidi_await.mpr ⟨_, _, _, each shutsDown ends, hrun, hlast, rfl, rfl⟩
  refine ⟨_, io.half, _, each fails sleeps, each shutsDown ends, .new Pipe.new_granting, hrun,
    hlast, rfl, rfl, ?_, max fuel n, ?_⟩
  · rintro ⟨res, hrec, hok, -⟩
    have hfail := hrec .sl2sr
    rw [hok.mp rfl .sl2sr] at hfail
    cases hfail
  · refine run_bidi_execute.mpr ⟨io, .ok (), ?_, rfl⟩
    exact run_await_mono hawait (Nat.le_max_left fuel n) (Nat.le_max_right fuel n)

end Splicer
