import Splicer.Reuse
import Splicer.Simulation

/-! `copy_bidirectional` on the kernel of many: two transfers that leave each other alone. -/
namespace Splicer

open Interaction Function

/-- What the two directions between `sl` and `sr` see, each through its own pipe. -/
def Os.worlds (o : Os) (sl sr : BorrowedFd) (p : Side → ℕ) (d : Side) : World :=
  o.world (each sl sr d) (each sr sl d) (p d)

/-- No bytes but those of the two ends and of the two pipes have changed. -/
structure AsideBoth (sl sr : BorrowedFd) (p : Side → ℕ) (o o' : Os) : Prop where
  capacity : o'.capacity = o.capacity
  pipe : ∀ q, (∀ d, q ≠ p d) → o'.pipe q = o.pipe q
  source : ∀ n, n ∉ [sl, sr] → o'.source n = o.source n
  sink : ∀ n, n ∉ [sl, sr] → o'.sink n = o.sink n

def SpliceBidiIo.ofCtx (ctx : Side → SpliceCtx) : SpliceBidiIo :=
  ⟨.ofCtx (ctx .sl2sr), .ofCtx (ctx .sr2sl)⟩

/-- Both directions, each with what it needs of the kernel. -/
def RiggedBoth (o : Os) (sl sr : BorrowedFd) (p : Side → ℕ) (io : SpliceBidiIo) : Prop :=
  ∀ d, Rigged o (each sl sr d) (each sr sl d) (p d) (io.half d).splicer.pipe

/-! ### Apart -/

section Apart

variable {o o' o'' : Os} {sl sr : BorrowedFd} {p : Side → ℕ} {d : Side} {io io' : SpliceBidiIo}

theorem each_mem (sl sr : BorrowedFd) (d : Side) : each sl sr d ∈ [sl, sr] := by
  cases d <;> simp [each]

theorem Aside.both (h : Aside (each sl sr d) (each sr sl d) (p d) o o') :
    AsideBoth sl sr p o o' := by
  refine ⟨h.capacity, fun q hq => h.pipe q (hq d), ?_, ?_⟩
  · intro n hn
    refine h.source n ?_
    rintro rfl
    exact hn (each_mem sl sr d)
  · intro n hn
    refine h.sink n ?_
    rintro rfl
    exact hn (by simpa [or_comm] using each_mem sr sl d)

theorem AsideBoth.refl (sl sr : BorrowedFd) (p : Side → ℕ) (o : Os) : AsideBoth sl sr p o o :=
  ⟨rfl, fun _ _ => rfl, fun _ _ => rfl, fun _ _ => rfl⟩

theorem AsideBoth.trans (h : AsideBoth sl sr p o o') (h' : AsideBoth sl sr p o' o'') :
    AsideBoth sl sr p o o'' :=
  ⟨h'.capacity.trans h.capacity, fun q hq => (h'.pipe q hq).trans (h.pipe q hq),
    fun n hn => (h'.source n hn).trans (h.source n hn),
    fun n hn => (h'.sink n hn).trans (h.sink n hn)⟩

theorem Quiet.worlds (h : Quiet o o') : o'.worlds sl sr p = o.worlds sl sr p :=
  funext fun _ => h.world

theorem Quiet.asideBoth (h : Quiet o o') : AsideBoth sl sr p o o' :=
  Aside.both (d := .sl2sr) h.aside

/-- One direction does not show in the world of the other. -/
theorem Aside.worlds_other (h : Aside (each sl sr d) (each sr sl d) (p d) o o') {d' : Side}
    (hne : sl ≠ sr) (hp : p .sl2sr ≠ p .sr2sl) (hd : d' ≠ d) :
    o'.worlds sl sr p d' = o.worlds sl sr p d' := by
  have hr : each sl sr d' ≠ each sl sr d := by cases d <;> cases d' <;> simp_all [each, eq_comm]
  have hw : each sr sl d' ≠ each sr sl d := by cases d <;> cases d' <;> simp_all [each, eq_comm]
  have hq : p d' ≠ p d := by cases d <;> cases d' <;> simp_all [eq_comm]
  simp only [Os.worlds, Os.world, h.source _ hr, h.pipe _ hq, h.sink _ hw]

theorem Rigged.frame {r w r' w' : BorrowedFd} {q q' : ℕ} {pipe : Pipe}
    (h : Rigged o r w q pipe) (hm : Moves r' w' q' o o') (hq : q ≠ q') :
    Rigged o' r w q pipe := by
  refine ⟨h.toEnds.moves hm, ?_, ?_⟩
  · intro fd hd
    have hfd := h.drain fd hd
    rw [hm.fd fd.asFd (by simp [Os.Names, hfd, hq])]
    exact hfd
  · intro fd hf
    have hfd := h.fill fd hf
    rw [hm.fd fd.asFd (by simp [Os.Names, hfd, hq])]
    exact hfd

end Apart

/-! ### One call of each half -/

/-- A call of one half does what a call of its loop over the traits does, whatever stops it. -/
structure Polled (K : ℕ → Env calls World) (fuel : ℕ) (r w : BorrowedFd) (p : ℕ) (io : SpliceIo)
    (o : Os) (out : Outcome sys (Option (SpliceIo × Poll (IoResult Unit)))) (o' : Os) : Prop where
  aside : Aside r w p o o'
  runs : ∃ ts io', Runs SpliceIo.loopBody (K (o.capacity p)) Always io (o.world r w p) ts io'
    (o'.world r w p)
  call : ∃ es, (io.pollExecute fuel).Run es (out.translate id) ∧
    (K (o.capacity p)).Accepts (o.world r w p) es (o'.world r w p)
  rigged : ∀ io' ret, out = .val (some (io', ret)) →
    Rigged o' r w p io'.splicer.pipe ∧ Moves r w p o o'

/-- The same of both halves, each in its own world. -/
structure PolledBoth (K : ℕ → Env calls World) (fuel : ℕ) (sl sr : BorrowedFd) (p : Side → ℕ)
    (io : SpliceBidiIo) (o : Os)
    (out : Outcome sys (Option (SpliceBidiIo × Poll (IoResult Unit)))) (o' : Os) : Prop where
  aside : AsideBoth sl sr p o o'
  runs : ∀ d, ∃ ts io', Runs SpliceIo.loopBody (K (o.capacity (p d))) Always (io.half d)
    (o.worlds sl sr p d) ts io' (o'.worlds sl sr p d)
  call : ∃ es, (io.pollExecute fuel).Run es (out.translate id) ∧
    (Env.shared fun d => K (o.capacity (p d))).Accepts (o.worlds sl sr p) es (o'.worlds sl sr p)
  rigged : ∀ io' ret, out = .val (some (io', ret)) → RiggedBoth o' sl sr p io'

section Calls

variable {E : Env sys Os} {K : ℕ → Env calls World} {o o₁ o' : Os} {fuel : ℕ} {p : Side → ℕ}
  {io : SpliceBidiIo} {io₁ : SpliceIo} {es : List (Event calls)}

theorem wp_poll_os {r w : AsyncFd} {p : ℕ} {io : SpliceIo} (hE : Shows E K) (fuel : ℕ)
    (release : SpliceIo → Prog sys Unit) (hrig : Rigged o r.asFd w.asFd p io.splicer.pipe)
    (hcount : Counted io)
    (hrelease : ∀ io o, (release io).wp os Unguarded (fun out o' => out = .val () ∧ Quiet o o') o) :
    ((SpliceIo.liveBody r w release).poll fuel io).wp E Unguarded
      (Polled K fuel r.asFd w.asFd p io o) o := by
  refine Machine.wp_iterate (fun n io' o' => Rigged o' r.asFd w.asFd p io'.splicer.pipe ∧
    Moves r.asFd w.asFd p o o' ∧ ∃ ts, ts.length + n = fuel ∧
      Runs SpliceIo.loopBody (K (o.capacity p)) (fun _ _ t => t.flow.poll? = none) io
        (o.world r.asFd w.asFd p) ts io' (o'.world r.asFd w.asFd p)) ?_ ?_
    ⟨hrig, .refl _ _ _ _, [], Nat.zero_add fuel, .refl _ _⟩
  · rintro n io₁ o₁ ⟨hrig, hm, ts, rfl, hr⟩
    have hcount₁ := run_counted (fun _ _ _ => hE.bounded) hr hcount
    refine Prog.wp_mono (wp_liveBody_os hE release hrig (hrelease io₁)) ?_
    rintro (⟨io₂, flow⟩ | why) o₂ hgoes
    · obtain ⟨hrig₂, hm₂, es, hi, hk, -⟩ := hgoes
      rw [hm.capacity] at hk
      have hm₂ := hm.trans hm₂
      cases flow with
      | again =>
        refine ⟨hrig₂, hm₂, ts ++ [⟨es, .again⟩], ?_, hr.snoc (step_iff.mpr hi) hk rfl⟩
        rw [List.length_append, List.length_singleton]
        omega
      | done ret =>
        have hexit : (Machine.iterate SpliceIo.loopBody Flow.poll? (n + 1) io₁).Run es
            (.val (some (io₂, ret))) := Machine.run_iterate_exit (step_iff.mpr hi) rfl
        refine ⟨hm₂.toAside, ⟨_, io₂, hr.always.snoc (step_iff.mpr hi) hk trivial⟩,
          Machine.run_iterate_append hr hexit hk, ?_⟩
        rintro _ _ ⟨⟩
        exact ⟨hrig₂, hm₂⟩
    · obtain ⟨ha, es, hcrash, hk⟩ := hgoes
      have hsame := hcount₁.crash_world hcrash (hk.mono (hE.kernel_le _))
      rw [hm.capacity] at hk
      refine ⟨hm.toAside.trans ha, ⟨ts, io₁, ?_⟩, ?_, by rintro _ _ ⟨⟩⟩
      · rw [hsame]
        exact hr.always
      · exact Machine.run_iterate_append hr (Machine.run_iterate_panic (panics_iff.mpr hcrash)) hk
  · rintro io₁ o₁ ⟨-, hm, ts, rfl, hr⟩
    exact ⟨hm.toAside, ⟨ts, io₁, hr.always⟩, Machine.run_iterate_append hr (.ret none) rfl,
      by rintro _ _ ⟨⟩⟩

theorem wp_drop_os (io : SpliceBidiIo) (o : Os) :
    io.drop.wp os Unguarded (fun out o' => out = .val () ∧ Quiet o o') o := by
  refine Prog.wp_bind.mpr (Prog.wp_mono (wp_dropFds _ o) ?_)
  rintro out o₁ ⟨rfl, rfl⟩
  refine Prog.wp_mono (wp_dropFds _ _) ?_
  rintro out o₂ ⟨rfl, rfl⟩
  exact ⟨rfl, quiet_closing.trans quiet_closing⟩

/-- What one direction does, both see, each in its own world. -/
theorem Aside.accepts_on {sl sr : BorrowedFd} {d : Side} (hne : sl ≠ sr)
    (hp : p .sl2sr ≠ p .sr2sl) (ha : Aside (each sl sr d) (each sr sl d) (p d) o o')
    {F : Side → Env calls World}
    (hk : (F d).Accepts (o.worlds sl sr p d) es (o'.worlds sl sr p d)) :
    (Env.shared F).Accepts (o.worlds sl sr p) (es.map (Event.on d)) (o'.worlds sl sr p) :=
  Env.accepts_on.mpr ⟨hk, fun _ hd => ha.worlds_other hne hp hd⟩

/-- The call ends with its first half when that does not return. -/
theorem Polled.stopped_first {sl sr : BorrowedFd}
    {out₁ : Outcome sys (Option (SpliceIo × Poll (IoResult Unit)))}
    {out : Outcome sys (Option (SpliceBidiIo × Poll (IoResult Unit)))}
    (hne : sl ≠ sr) (hp : p .sl2sr ≠ p .sr2sl)
    (h : Polled K fuel sl sr (p .sl2sr) io.ioSl2sr o out₁ o')
    (hstop : ∀ es, (io.ioSl2sr.pollExecute fuel).Run es (out₁.translate id) →
      (io.pollExecute fuel).Run (es.map (Event.on .sl2sr)) (out.translate id))
    (hout : ∀ io' ret, out ≠ .val (some (io', ret))) :
    PolledBoth K fuel sl sr p io o out o' := by
  refine ⟨Aside.both (d := .sl2sr) h.aside, ?_, ?_, fun io' ret ho => absurd ho (hout io' ret)⟩
  · rintro (_ | _)
    · exact h.runs
    · rw [Aside.worlds_other (d := .sl2sr) h.aside hne hp (by decide)]
      exact ⟨[], io.ioSr2sl, .refl _ _⟩
  · obtain ⟨es, hr, hk⟩ := h.call
    exact ⟨_, hstop es hr, Aside.accepts_on (d := .sl2sr) hne hp h.aside hk⟩

/-- The two halves of a call, the first of which has returned. -/
theorem Polled.both {sl sr : BorrowedFd} {ret₁ : Poll (IoResult Unit)}
    {out₂ : Outcome sys (Option (SpliceIo × Poll (IoResult Unit)))}
    {out : Outcome sys (Option (SpliceBidiIo × Poll (IoResult Unit)))}
    (hne : sl ≠ sr) (hp : p .sl2sr ≠ p .sr2sl)
    (h₁ : Polled K fuel sl sr (p .sl2sr) io.ioSl2sr o (.val (some (io₁, ret₁))) o₁)
    (h₂ : Polled K fuel sr sl (p .sr2sl) io.ioSr2sl o₁ out₂ o')
    (hboth : ∀ es₁ es₂, (io.ioSl2sr.pollExecute fuel).Run es₁ (.val (some (io₁, ret₁))) →
      (io.ioSr2sl.pollExecute fuel).Run es₂ (out₂.translate id) →
      (io.pollExecute fuel).Run (es₁.map (Event.on .sl2sr) ++ es₂.map (Event.on .sr2sl))
        (out.translate id))
    (hrig : ∀ io' ret, out = .val (some (io', ret)) → RiggedBoth o' sl sr p io') :
    PolledBoth K fuel sl sr p io o out o' := by
  have hsl : o'.worlds sl sr p .sl2sr = o₁.worlds sl sr p .sl2sr :=
    Aside.worlds_other (d := .sr2sl) h₂.aside hne hp (by decide)
  have hsr : o₁.worlds sl sr p .sr2sl = o.worlds sl sr p .sr2sl :=
    Aside.worlds_other (d := .sl2sr) h₁.aside hne hp (by decide)
  refine ⟨(Aside.both (d := .sl2sr) h₁.aside).trans (Aside.both (d := .sr2sl) h₂.aside), ?_, ?_,
    hrig⟩
  · rintro (_ | _)
    · rw [hsl]
      exact h₁.runs
    · rw [← hsr, ← h₁.aside.capacity]
      exact h₂.runs
  · obtain ⟨es₁, hr₁, hk₁⟩ := h₁.call
    obtain ⟨es₂, hr₂, hk₂⟩ := h₂.call
    rw [h₁.aside.capacity] at hk₂
    exact ⟨_, hboth es₁ es₂ hr₁ hr₂, Env.accepts_append.mpr ⟨_,
      Aside.accepts_on (d := .sl2sr) hne hp h₁.aside hk₁,
      Aside.accepts_on (d := .sr2sl) hne hp h₂.aside hk₂⟩⟩

theorem wp_pollLive_os {sl sr : AsyncFd} (fuel : ℕ) (hE : Shows E K) (hne : sl.asFd ≠ sr.asFd)
    (hp : p .sl2sr ≠ p .sr2sl) (hrig : RiggedBoth o sl.asFd sr.asFd p io)
    (hcount : ∀ d, Counted (io.half d)) :
    (io.pollLive fuel sl sr).wp E Unguarded (PolledBoth K fuel sl.asFd sr.asFd p io o) o := by
  have hpoll₁ := wp_poll_os (r := sl) (w := sr) hE fuel
    (fun ioSl2sr => SpliceBidiIo.drop ⟨ioSl2sr, io.ioSr2sl⟩) (hrig .sl2sr) (hcount .sl2sr)
    fun _ _ => wp_drop_os _ _
  refine Prog.wp_bind.mpr (Prog.wp_mono hpoll₁ ?_)
  rintro ((_ | ⟨io₁, ret₁⟩) | why) o₁ h₁
  · refine h₁.stopped_first hne hp (fun es hr => ?_) (by rintro _ _ ⟨⟩)
    exact Prog.run_bind.mpr (.inl ⟨none, _, [], by simp, Prog.run_on_of hr, .ret none⟩)
  · obtain ⟨hrig₁, hm₁⟩ := h₁.rigged io₁ ret₁ rfl
    have hrig₂ : Rigged o₁ sr.asFd sl.asFd (p .sr2sl) io.ioSr2sl.splicer.pipe :=
      (hrig .sr2sl).frame hm₁ hp.symm
    have hpoll₂ := wp_poll_os (r := sr) (w := sl) hE fuel
      (fun ioSr2sl => SpliceBidiIo.drop ⟨io₁, ioSr2sl⟩) hrig₂ (hcount .sr2sl)
      fun _ _ => wp_drop_os _ _
    refine Prog.wp_bind.mpr (Prog.wp_mono hpoll₂ ?_)
    rintro ((_ | ⟨io₂, ret₂⟩) | why) o₂ h₂
    · refine h₁.both hne hp h₂ (fun es₁ es₂ hr₁ hr₂ => ?_) (by rintro _ _ ⟨⟩)
      refine Prog.run_bind.mpr (.inl ⟨_, _, _, rfl, Prog.run_on_of hr₁, ?_⟩)
      exact Prog.run_bind.mpr (.inl ⟨none, _, [], by simp, Prog.run_on_of hr₂, .ret none⟩)
    · obtain ⟨hrig₂, hm₂⟩ := h₂.rigged io₂ ret₂ rfl
      refine h₁.both hne hp h₂ (fun es₁ es₂ hr₁ hr₂ => ?_) ?_
      · exact run_pollExecute_fuel.mpr ⟨es₁, ret₁, es₂, ret₂, rfl, rfl, hr₁, hr₂⟩
      · rintro _ _ ⟨⟩ (_ | _)
        · exact hrig₁.frame hm₂ hp
        · exact hrig₂
    · refine h₁.both hne hp h₂ (fun es₁ es₂ hr₁ hr₂ => ?_) (by rintro _ _ ⟨⟩)
      refine Prog.run_bind.mpr (.inl ⟨_, _, _, rfl, Prog.run_on_of hr₁, ?_⟩)
      exact Prog.run_bind.mpr (.inr ⟨why, rfl, Prog.run_on_of hr₂⟩)
  · refine h₁.stopped_first hne hp (fun es hr => ?_) (by rintro _ _ ⟨⟩)
    exact Prog.run_bind.mpr (.inr ⟨why, rfl, Prog.run_on_of hr⟩)

/-- A call of both halves moves the world of each. -/
theorem accepts_visit {F : Side → Env calls World} {w w' : Side → World} {v : BidiVisit}
    (h : (Env.shared F).Accepts w v.events w') (d : Side) :
    (F d).Accepts (w d) (v d).events (w' d) := by
  obtain ⟨w₁, h₁, h₂⟩ := Env.accepts_append.mp h
  obtain ⟨hsl, hsame₁⟩ := Env.accepts_on.mp h₁
  obtain ⟨hsr, hsame₂⟩ := Env.accepts_on.mp h₂
  cases d with
  | sl2sr => rwa [hsame₂ .sl2sr (by decide)]
  | sr2sl => rwa [hsame₁ .sr2sl (by decide)] at hsr

theorem accepts_visits {F : Side → Env calls World} {w w' : Side → World} {vs : List BidiVisit}
    (h : (Env.shared F).Accepts w (vs.flatMap BidiVisit.events) w') (d : Side) :
    (F d).Accepts (w d) (sideEvents vs d) (w' d) := by
  induction vs generalizing w with
  | nil => exact congrFun h d
  | cons v vs ih =>
    rw [List.flatMap_cons, Env.accepts_append] at h
    obtain ⟨w₁, hv, hvs⟩ := h
    exact Env.accepts_append.mpr ⟨w₁ d, accepts_visit hv d, ih hvs⟩

/-- A call that has returned is a run of each half. -/
theorem PolledBoth.halves {sl sr : BorrowedFd} {io' : SpliceBidiIo} {ret : Poll (IoResult Unit)}
    (h : PolledBoth K fuel sl sr p io o (.val (some (io', ret))) o') (d : Side) :
    ∃ ts, Runs SpliceIo.loopBody (K (o.capacity (p d))) Always (io.half d) (o.worlds sl sr p d) ts
      (io'.half d) (o'.worlds sl sr p d) := by
  obtain ⟨es, hr, hk⟩ := h.call
  obtain ⟨v, hv, rfl, -⟩ := run_pollExecute.mp ⟨fuel, hr⟩
  exact (hv d).runs (accepts_visit hk d)

end Calls

/-! ### Both directions -/

/-- Both directions under way: the calls that have led from `ctx` in `w₀` to `io` have left `n` of
the fuel. -/
structure CarriesBoth (K : ℕ → Env calls World) (fuel : ℕ) (ctx : Side → SpliceCtx)
    (w₀ : Side → World) (sl sr : BorrowedFd) (p : Side → ℕ) (n : ℕ) (io : SpliceBidiIo) (o : Os) :
    Prop where
  rigged : RiggedBoth o sl sr p io
  runs : ∀ d, ∃ ts, Runs SpliceIo.loopBody (K (o.capacity (p d))) Always (.ofCtx (ctx d)) (w₀ d) ts
    (io.half d) (o.worlds sl sr p d)
  await : ∃ es, (Env.shared fun d => K (o.capacity (p d))).Accepts w₀ es (o.worlds sl sr p) ∧
    ∀ es' out, (io.await fuel n).Run es' out →
      ((SpliceBidiIo.ofCtx ctx).await fuel fuel).Run (es ++ es') out

/-- How far both directions have come, whatever stopped them. -/
def RunsBoth (K : ℕ → Env calls World) (ctx : Side → SpliceCtx) (w₀ : Side → World)
    (sl sr : BorrowedFd) (p : Side → ℕ) (o o' : Os) : Prop :=
  AsideBoth sl sr p o o' ∧ ∀ d, ∃ ts io, Runs SpliceIo.loopBody (K (o.capacity (p d))) Always
    (.ofCtx (ctx d)) (w₀ d) ts io (o'.worlds sl sr p d)

def ReachedBoth (K : ℕ → Env calls World) (fuel : ℕ) (ctx : Side → SpliceCtx) (w₀ : Side → World)
    (sl sr : BorrowedFd) (p : Side → ℕ) (o : Os)
    (out : Outcome sys (Option (SpliceBidiIo × Completion (IoResult Unit)))) (o' : Os) : Prop :=
  RunsBoth K ctx w₀ sl sr p o o' ∧
    Simulates ((SpliceBidiIo.ofCtx ctx).await fuel fuel)
      (Env.shared fun d => K (o.capacity (p d))) w₀ (o'.worlds sl sr p)
      (out.map (Option.map fun x => x.2.map (x.1, ·))) id

/-- The same of `execute`. -/
def ExecutesBoth (K : ℕ → Env calls World) (fuel : ℕ) (ctx : Side → SpliceCtx) (w₀ : Side → World)
    (sl sr : BorrowedFd) (p : Side → ℕ) (o : Os)
    (out : Outcome sys (Option (Completion TransferReport))) (o' : Os) : Prop :=
  RunsBoth K ctx w₀ sl sr p o o' ∧
    Simulates ((SpliceBidiIo.ofCtx ctx).execute fuel)
      (Env.shared fun d => K (o.capacity (p d))) w₀ (o'.worlds sl sr p) out id

section Both

variable {E : Env sys Os} {K : ℕ → Env calls World} {ctx : Side → SpliceCtx} {w₀ : Side → World}
  {sl sr : AsyncFd} {p : Side → ℕ} {io io' : SpliceBidiIo} {o o₀ o' : Os} {fuel n : ℕ}

/-- `execute` reports what it has awaited. -/
theorem simulates_bidi_report {F : Env bidiCalls (Side → World)} {w₀ w' : Side → World}
    {out : Outcome sys (Option (SpliceBidiIo × Completion (IoResult Unit)))}
    (h : Simulates (io.await fuel fuel) F w₀ w'
      (out.map (Option.map fun x => x.2.map (x.1, ·))) id) :
    Simulates (io.execute fuel) F w₀ w' (out.map (Option.map fun x => x.2.map x.1.report)) id := by
  have hwrap : Simulates (io.execute fuel) F w₀ w'
      ((out.map (Option.map fun x => x.2.map (x.1, ·))).map
        (Option.map (Completion.map fun x => x.1.report x.2))) id :=
    h.wrap (fun _ => rfl) rfl
  rcases out with (_ | ⟨io', _ | _⟩) | why <;> exact hwrap

theorem CarriesBoth.counted {sl sr : BorrowedFd} (h : CarriesBoth K fuel ctx w₀ sl sr p n io o)
    (hE : Shows E K) (hfresh : ∀ d, Fresh (ctx d)) (d : Side) : Counted (io.half d) := by
  obtain ⟨ts, hr⟩ := h.runs d
  exact run_counted (fun _ _ _ => hE.bounded) hr (hfresh d).counted

theorem CarriesBoth.runsBoth {sl sr : BorrowedFd} (h : CarriesBoth K fuel ctx w₀ sl sr p n io o)
    (ha : AsideBoth sl sr p o₀ o) : RunsBoth K ctx w₀ sl sr p o₀ o := by
  refine ⟨ha, fun d => ?_⟩
  obtain ⟨ts, hr⟩ := h.runs d
  rw [ha.capacity] at hr
  exact ⟨ts, _, hr⟩

theorem CarriesBoth.step {sl sr : BorrowedFd}
    (h : CarriesBoth K fuel ctx w₀ sl sr p (n + 1) io o)
    (hv : PolledBoth K fuel sl sr p io o (.val (some (io', .pending))) o') :
    CarriesBoth K fuel ctx w₀ sl sr p n io' o' := by
  refine ⟨hv.rigged _ _ rfl, ?_, ?_⟩
  · intro d
    obtain ⟨ts, hr⟩ := h.runs d
    obtain ⟨ts', hr'⟩ := hv.halves d
    rw [hv.aside.capacity]
    exact ⟨ts ++ ts', hr.append hr'⟩
  · obtain ⟨es, ha, hrest⟩ := h.await
    obtain ⟨es₁, hr₁, ha₁⟩ := hv.call
    rw [hv.aside.capacity]
    refine ⟨es ++ es₁, Env.accepts_append.mpr ⟨_, ha, ha₁⟩, fun es' out hr => ?_⟩
    rw [List.append_assoc]
    exact hrest _ _ (Prog.run_bind.mpr (.inl ⟨_, es₁, es', rfl, hr₁, hr⟩))

/-- The call that the wait ends with ends that of the loops over their traits. -/
theorem CarriesBoth.stopped {sl sr : BorrowedFd}
    (h : CarriesBoth K fuel ctx w₀ sl sr p (n + 1) io o) (ha : AsideBoth sl sr p o₀ o)
    {call : Outcome sys (Option (SpliceBidiIo × Poll (IoResult Unit)))}
    {out : Outcome bidiCalls (Option (SpliceBidiIo × IoResult Unit))}
    (hv : PolledBoth K fuel sl sr p io o call o')
    (hstop : ∀ es, (io.pollExecute fuel).Run es (call.translate id) →
      (io.await fuel (n + 1)).Run es out) :
    RunsBoth K ctx w₀ sl sr p o₀ o' ∧ ∃ es, ((SpliceBidiIo.ofCtx ctx).await fuel fuel).Run es out ∧
      (Env.shared fun d => K (o₀.capacity (p d))).Accepts w₀ es (o'.worlds sl sr p) := by
  refine ⟨⟨ha.trans hv.aside, fun d => ?_⟩, ?_⟩
  · obtain ⟨ts, hr⟩ := h.runs d
    obtain ⟨ts', io', hr'⟩ := hv.runs d
    rw [ha.capacity] at hr hr'
    exact ⟨ts ++ ts', io', hr.append hr'⟩
  · obtain ⟨es, hks, hrest⟩ := h.await
    obtain ⟨es₁, hr₁, hk₁⟩ := hv.call
    rw [ha.capacity] at hks hk₁
    exact ⟨es ++ es₁, hrest _ _ (hstop es₁ hr₁), Env.accepts_append.mpr ⟨_, hks, hk₁⟩⟩

theorem wp_awaitLive_os (hE : Shows E K) (hne : sl.asFd ≠ sr.asFd) (hp : p .sl2sr ≠ p .sr2sl)
    (hfresh : ∀ d, Fresh (ctx d)) (ha : AsideBoth sl.asFd sr.asFd p o₀ o)
    (hc : CarriesBoth K fuel ctx w₀ sl.asFd sr.asFd p n io o) :
    (io.awaitLive fuel sl sr n).wp E Unguarded
      (ReachedBoth K fuel ctx w₀ sl.asFd sr.asFd p o₀) o := by
  induction n generalizing io o with
  | zero =>
    obtain ⟨es, hks, hrest⟩ := hc.await
    rw [ha.capacity] at hks
    refine ⟨hc.runsBoth ha, by rintro _ ⟨⟩, fun _ => ⟨es, ?_, hks⟩, by rintro _ ⟨⟩⟩
    simpa using hrest [] _ (.ret none)
  | succ n ih =>
    have hpoll := wp_pollLive_os fuel hE hne hp hc.rigged (hc.counted hE hfresh)
    refine Prog.wp_bind.mpr (Prog.wp_mono hpoll ?_)
    rintro ((_ | ⟨io₁, _ | res⟩) | why) o₁ hv
    · obtain ⟨hruns, hspent⟩ := hc.stopped ha hv fun es hr =>
        Prog.run_bind.mpr (.inl ⟨none, es, [], by simp, hr, .ret none⟩)
      exact ⟨hruns, by rintro _ ⟨⟩, fun _ => hspent, by rintro _ ⟨⟩⟩
    · have hc₁ := hc.step hv
      refine ⟨trivial, ?_⟩
      rintro a o₂ he
      cases hE.le _ _ _ he
      cases a with
      | poll => exact ih (ha.trans hv.aside) hc₁
      | drop => exact ⟨hc₁.runsBoth (ha.trans hv.aside), simulates_dropped⟩
    · obtain ⟨hruns, hreturned⟩ := hc.stopped ha hv fun es hr =>
        Prog.run_bind.mpr (.inl ⟨_, es, [], by simp, hr, .ret _⟩)
      refine ⟨hruns, ?_, by rintro ⟨⟩, by rintro _ ⟨⟩⟩
      rintro _ ⟨⟩
      exact hreturned
    · obtain ⟨hruns, hpanicked⟩ := hc.stopped ha hv fun es hr =>
        Prog.run_bind.mpr (.inr ⟨why, rfl, hr⟩)
      refine ⟨hruns, by rintro _ ⟨⟩, by rintro ⟨⟩, ?_⟩
      rintro _ ⟨⟩
      exact hpanicked

theorem wp_executeLive_both_os (hE : Shows E K) (hne : sl.asFd ≠ sr.asFd)
    (hp : p .sl2sr ≠ p .sr2sl) (hfresh : ∀ d, Fresh (ctx d))
    (hc : CarriesBoth K fuel ctx w₀ sl.asFd sr.asFd p fuel (.ofCtx ctx) o) :
    ((SpliceBidiIo.ofCtx ctx).executeLive fuel sl sr).wp E Unguarded
      (ExecutesBoth K fuel ctx w₀ sl.asFd sr.asFd p o) o := by
  have hawait := wp_awaitLive_os hE hne hp hfresh (.refl _ _ _ _) hc
  refine Prog.wp_bind.mpr (Prog.wp_mono hawait ?_)
  rintro out o' ⟨hrun, hsim⟩
  have hsim := simulates_bidi_report hsim
  rcases out with (_ | ⟨io₁, done⟩) | why
  · exact ⟨hrun, hsim⟩
  · refine Prog.wp_bind.mpr (Prog.wp_mono (Prog.wp_env (wp_drop_os io₁ o') hE.le) ?_)
    rintro out o₂ ⟨rfl, hq⟩
    have hworlds : o₂.worlds sl.asFd sr.asFd p = o'.worlds sl.asFd sr.asFd p := hq.worlds
    refine ⟨⟨hrun.1.trans hq.asideBoth, by simpa only [hworlds] using hrun.2⟩, ?_⟩
    rw [hworlds]
    exact hsim
  · exact ⟨hrun, hsim⟩

end Both

/-! ### The whole of it -/

/-- What the two directions see before their first byte. -/
def Os.idle (o : Os) (sl sr : BorrowedFd) (d : Side) : World :=
  ⟨o.source (each sl sr d), [], o.sink (each sr sl d)⟩

/-- The copy is refused and moves nothing, or its outcome is that of an execution of the two loops
over their traits, each in its own world and through a pipe of its own that was nobody's. -/
def TransfersBoth (K : ℕ → Env calls World) (fuel : ℕ) (sl sr : BorrowedFd) (o : Os)
    (out : Outcome sys (Option (Completion (IoResult TransferReport)))) (o' : Os) : Prop :=
  (∃ e, out = .val (some (.returned (.error e)))) ∧ Kept o o' ∨
  ∃ (exec : Outcome sys (Option (Completion TransferReport))) (ctx : Side → SpliceCtx)
      (p : Side → ℕ),
    out = exec.map (Option.map (Completion.map .ok)) ∧ Spares [sl, sr] [sl, sr] o o' ∧
    (∀ d n, ¬ o.Names n (p d)) ∧ p .sl2sr ≠ p .sr2sl ∧
    (∀ d, Constructed (ctx d) ∧ (ctx d).offset = .none ∧ (ctx d).sizeToSplice = isizeMax) ∧
    (∀ d, ∃ ts io, Runs SpliceIo.loopBody (K (o'.capacity (p d))) Always (.ofCtx (ctx d))
      (o.idle sl sr d) ts io (o'.worlds sl sr p d)) ∧
    Simulates ((SpliceBidiIo.ofCtx ctx).execute fuel)
      (Env.shared fun d => K (o'.capacity (p d))) (o.idle sl sr)
      (o'.worlds sl sr p) exec id

section Whole

variable {E : Env sys Os} {K : ℕ → Env calls World} {o o₁ o₂ o' : Os} {sl sr : BorrowedFd}
  {p p' fuel : ℕ} {pipe pipe' : Pipe} {ctx ctx' : SpliceCtx} {es : List (Event sys)}
  {out : Outcome sys (Option (Completion (IoResult TransferReport)))}

theorem NewPipe.named (h : NewPipe pipe o p o₁) : ∃ n, o₁.Names n p := by
  obtain ⟨fd, hd⟩ := Pipe.drain_of_open h.isOpen.2
  exact ⟨fd.asFd, .inl (h.plugged.drain fd hd)⟩

theorem Kept.plugged (h : Kept o o') (hp : Plugged o p pipe) : Plugged o' p pipe := by
  refine ⟨?_, ?_⟩
  · intro fd hd
    have hfd := hp.drain fd hd
    rw [h.fd _ (by simp [hfd])]
    exact hfd
  · intro fd hf
    have hfd := hp.fill fd hf
    rw [h.fd _ (by simp [hfd])]
    exact hfd

theorem NewPipe.ne (h : NewPipe pipe o p o₁) (h' : NewPipe pipe' o₁ p' o₂) : p ≠ p' := by
  obtain ⟨n, hn⟩ := h.named
  rintro rfl
  exact h'.unnamed n hn

/-- Two new pipes, one after the other: no byte has moved. -/
theorem Primed.worlds (h : Primed .new ctx o p o₁) (h' : Primed .new ctx' o₁ p' o₂) :
    o₂.worlds sl sr (each p p') = o.idle sl sr := by
  have hkept := h.pipe.kept.trans h'.pipe.kept
  obtain ⟨n, hn⟩ := h.pipe.named
  funext d
  cases d with
  | sl2sr =>
    change o₂.world sl sr p = ⟨o.source sl, [], o.sink sr⟩
    simp only [Os.world, hkept.source, hkept.sink, h'.pipe.kept.pipe p n hn, h.pipe.empty]
  | sr2sl =>
    change o₂.world sr sl p' = ⟨o.source sr, [], o.sink sl⟩
    simp only [Os.world, hkept.source, hkept.sink, h'.pipe.empty]

theorem Primed.rigged (h : Primed .new ctx o p o₁) (h' : Primed .new ctx' o₁ p' o₂)
    (hends : Ends o sl sr) : RiggedBoth o₂ sl sr (each p p') (.ofCtx (each ctx ctx')) := by
  have hends₂ := (h.pipe.kept.trans h'.pipe.kept).ends hends
  rintro (_ | _)
  · exact ⟨hends₂, h'.pipe.kept.plugged h.pipe.plugged⟩
  · exact ⟨⟨hends₂.writer, hends₂.reader⟩, h'.pipe.plugged⟩

/-- Each direction is fit to start. -/
theorem Primed.both (h : Primed .new ctx o p o₁) (h' : Primed .new ctx' o₁ p' o₂)
    (hends : Ends o sl sr) :
    CarriesBoth K fuel (each ctx ctx') (o.idle sl sr) sl sr (each p p') fuel
      (.ofCtx (each ctx ctx')) o₂ := by
  have hidle : o₂.worlds sl sr (each p p') = o.idle sl sr := h.worlds h'
  refine ⟨h.rigged h' hends, fun d => ⟨[], ?_⟩, [], hidle, fun _ _ => id⟩
  rw [hidle]
  cases d <;> exact .refl _ _

/-- Neither of the two was there before. -/
theorem Primed.unnamedBoth (h : Primed .new ctx o p o₁) (h' : Primed .new ctx' o₁ p' o₂)
    (d : Side) (n : ℕ) : ¬ o.Names n (each p p' d) := by
  intro hn
  cases d
  · exact h.pipe.unnamed n hn
  · exact h'.pipe.unnamed n (h.pipe.kept.names hn)

theorem Primed.sparesBoth (h : Primed .new ctx o p o₁) (h' : Primed .new ctx' o₁ p' o₂)
    (ha : AsideBoth sl sr (each p p') o₂ o') : Spares [sl, sr] [sl, sr] o o' := by
  have hkept := h.pipe.kept.trans h'.pipe.kept
  have hne {q n : ℕ} (hn : o.Names n q) (d : Side) : q ≠ each p p' d := by
    rintro rfl
    exact h.unnamedBoth h' d n hn
  refine ⟨?_, ?_, ?_, ?_⟩
  · exact fun q n hn => (ha.pipe q (hne hn)).trans (hkept.pipe q n hn)
  · intro q n hn
    rw [ha.capacity]
    exact hkept.capacity q n hn
  · intro n hn
    rw [ha.source n hn, hkept.source]
  · intro n hn
    rw [ha.sink n hn, hkept.sink]

theorem wp_copyBidirectional_os (hE : Shows E K) (hne : sl ≠ sr) (hends : Ends o sl sr) :
    (copyBidirectional fuel sl sr).wp E Unguarded (TransfersBoth K fuel sl sr o) o := by
  have hcreate (o : Os) : SpliceCtx.create.wp E Unguarded (Constructs (Primed .new) o) o :=
    Prog.wp_env (wp_build_os .new o) hE.le
  refine Prog.wp_bind.mpr (Prog.wp_mono (hcreate o) ?_)
  rintro ((e | ctx₁) | why) o₁ ho
  · exact .inl ⟨⟨e, rfl⟩, ho⟩
  · obtain ⟨p₁, hp₁⟩ := ho
    refine Prog.wp_bind.mpr (Prog.wp_mono (hcreate o₁) ?_)
    rintro ((e | ctx₂) | why) o₂ ho
    · refine Prog.wp_bind.mpr (Prog.wp_mono (Prog.wp_env (wp_dropFds _ o₂) hE.le) ?_)
      rintro out o₃ ⟨rfl, rfl⟩
      exact .inl ⟨⟨e, rfl⟩, (hp₁.pipe.kept.trans ho).closing hp₁.pipe.opened⟩
    · obtain ⟨p₂, hp₂⟩ := ho
      have hfresh : ∀ d, Fresh (each ctx₁ ctx₂ d) := by
        rintro (_ | _)
        · exact hp₁.fresh
        · exact hp₂.fresh
      have hsockets : (AsyncFd.socket sl).asFd ≠ (AsyncFd.socket sr).asFd := hne
      have hc : CarriesBoth K fuel (each ctx₁ ctx₂) (o.idle sl sr) (AsyncFd.socket sl).asFd
          (AsyncFd.socket sr).asFd (each p₁ p₂) fuel (.ofCtx (each ctx₁ ctx₂)) o₂ :=
        hp₁.both hp₂ hends
      have hexec := wp_executeLive_both_os hE hsockets (hp₁.pipe.ne hp₂.pipe) hfresh hc
      refine Prog.wp_bind.mpr (Prog.wp_mono hexec ?_)
      rintro exec o₃ ⟨⟨ha, hrun⟩, hsim⟩
      have hctx : ∀ d, Constructed (each ctx₁ ctx₂ d) ∧ (each ctx₁ ctx₂ d).offset = .none ∧
          (each ctx₁ ctx₂ d).sizeToSplice = isizeMax := by
        rintro (_ | _)
        · exact ⟨hp₁.constructed trivial, hp₁.offset, hp₁.target⟩
        · exact ⟨hp₂.constructed trivial, hp₂.offset, hp₂.target⟩
      rw [← ha.capacity] at hrun hsim
      have htransfers : TransfersBoth K fuel sl sr o
          (exec.map (Option.map (Completion.map .ok))) o₃ :=
        .inr ⟨exec, _, _, rfl, hp₁.sparesBoth hp₂ ha, hp₁.unnamedBoth hp₂, hp₁.pipe.ne hp₂.pipe,
          hctx, hrun, hsim⟩
      cases exec <;> exact htransfers
    · exact ho.elim
  · exact ho.elim

/-- Every execution of `copy_bidirectional`, however it ends, is one of the two loops over their
traits, each on a pipe of its own, and has the same outcome. -/
theorem copyBidirectional_simulates (hne : sl ≠ sr) (hends : Ends o sl sr)
    (h : (copyBidirectional fuel sl sr).Run es out) (ha : os.Accepts o es o') :
    TransfersBoth kernel fuel sl sr o out o' :=
  Prog.wp_post (wp_copyBidirectional_os shows_os hne hends) h ha

/-- Two sockets; one byte has come in on the first, and both have been shut down by their peers. -/
def Os.pair : Os where
  fd n := if n = 5 ∨ n = 6 then some .other else none
  pipe _ := []
  capacity _ := 0
  source n := if n = 5 then .stream [9] else .stream []
  sink _ := .stream []

/-- The byte goes over, and both directions close. -/
def exchange : List (Event sys) := [⟨.pipeWith ⟨true, true⟩, .ok (⟨3⟩, ⟨4⟩)⟩,
  ⟨.fcntlSetpipeSize 3 MAXIMUM_PIPE_SIZE, .ok 1048576⟩,
  ⟨.pipeWith ⟨true, true⟩, .ok (⟨7⟩, ⟨8⟩)⟩,
  ⟨.fcntlSetpipeSize 7 MAXIMUM_PIPE_SIZE, .ok 1048576⟩,
  ⟨.pollReadReady 5, .ready (.ok ())⟩, ⟨.tryIo 5 .readable, .callInner⟩,
  ⟨.splice 5 none 4 none isizeMax .NONBLOCK, ⟨.ok 1, none, none⟩⟩,
  ⟨.pollReadReady 5, .ready (.ok ())⟩, ⟨.tryIo 5 .readable, .callInner⟩,
  ⟨.splice 5 none 4 none (isizeMax - 1) .NONBLOCK, ⟨.ok 0, none, none⟩⟩, ⟨.close ⟨4⟩, ()⟩,
  ⟨.pollWriteReady 6, .ready (.ok ())⟩, ⟨.tryIo 6 .writable, .callInner⟩,
  ⟨.splice 3 none 6 none 1 .NONBLOCK, ⟨.ok 1, none, none⟩⟩,
  ⟨.pollWriteReady 6, .ready (.ok ())⟩, ⟨.tryIo 6 .writable, .callInner⟩, ⟨.close ⟨3⟩, ()⟩,
  ⟨.pollShutdown 6, .ready (.ok ())⟩,
  ⟨.pollReadReady 6, .ready (.ok ())⟩, ⟨.tryIo 6 .readable, .callInner⟩,
  ⟨.splice 6 none 8 none isizeMax .NONBLOCK, ⟨.ok 0, none, none⟩⟩, ⟨.close ⟨8⟩, ()⟩,
  ⟨.pollWriteReady 5, .ready (.ok ())⟩, ⟨.tryIo 5 .writable, .callInner⟩, ⟨.close ⟨7⟩, ()⟩,
  ⟨.pollShutdown 5, .ready (.ok ())⟩]

theorem exchange_run : (copyBidirectional 5 5 6).Run exchange
    (.val (some (.returned (.ok ⟨1, 0, none⟩)))) :=
  .ask (.ask (.ask (.ask (.ask (.ask (.ask (.ask (.ask (.ask (.ask (.ask (.ask (.ask (.ask (.ask
    (.ask (.ask (.ask (.ask (.ask (.ask (.ask (.ask (.ask (.ask (.ret _))))))))))))))))))))))))))

theorem exchange_accepted : ∃ o', os.Accepts .pair exchange o' := by
  have hnew : ∀ n q, ¬ Os.pair.Names n q := by
    intro n q
    simp only [Os.Names, Os.pair]
    split <;> simp
  have hnew₁ : ∀ n, update (update Os.pair.fd 3 (some (.drainEnd 0))) 4 (some (.fillEnd 0)) n ≠
      some (.drainEnd 1) ∧
      update (update Os.pair.fd 3 (some (.drainEnd 0))) 4 (some (.fillEnd 0)) n ≠
      some (.fillEnd 1) := by
    intro n
    simp only [update_apply]
    have hold := not_or.mp (hnew n 1)
    split
    · simp
    · split
      · simp
      · exact hold
  exact ⟨_, _, ⟨rfl, rfl, by decide, 0, 65536, fun n => hnew n 0, rfl⟩,
    _, ⟨0, 1048576, .inl rfl, Nat.zero_le _, rfl⟩,
    _, ⟨rfl, rfl, by decide, 1, 65536, fun n => not_or.mpr (hnew₁ n), rfl⟩,
    _, ⟨1, 1048576, .inl rfl, Nat.zero_le _, rfl⟩, _, rfl, _, rfl,
    _, .inl ⟨⟨0, _, _, rfl, ⟨_, rfl, by decide, by decide, by decide, by decide, rfl, rfl⟩, rfl⟩,
      rfl⟩, _, rfl, _, rfl,
    _, .inl ⟨⟨0, _, _, rfl, ⟨_, rfl, by decide, by decide, by decide, by decide, rfl, rfl⟩, rfl⟩,
      rfl⟩, _, rfl, _, rfl, _, rfl,
    _, .inr (.inl ⟨⟨0, _, _, rfl, ⟨by decide, by decide, rfl, _, rfl, rfl⟩, rfl⟩, rfl⟩),
    _, rfl, _, rfl, _, rfl, _, rfl, _, rfl, _, rfl,
    _, .inl ⟨⟨1, _, _, rfl, ⟨_, rfl, by decide, by decide, by decide, by decide, rfl, rfl⟩, rfl⟩,
      rfl⟩, _, rfl, _, rfl, _, rfl, _, rfl, _, rfl, rfl⟩

theorem copyBidirectional_simulates_exchange : ∃ o', os.Accepts .pair exchange o' ∧
    TransfersBoth kernel 5 5 6 .pair (.val (some (.returned (.ok ⟨1, 0, none⟩)))) o' := by
  obtain ⟨o', ha⟩ := exchange_accepted
  exact ⟨o', ha, copyBidirectional_simulates (by decide) ⟨rfl, rfl⟩ exchange_run ha⟩

end Whole

end Splicer
