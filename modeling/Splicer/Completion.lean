import Splicer.Termination

/-! The entry points on a kernel that fails no call: they return, and all of the bytes have
arrived. -/
namespace Splicer

open Interaction Function

/-- What a system call that moves nothing costs. -/
def sysDelay : Event sys → ℕ
  | ⟨.pollReadReady _, .pending⟩ => 1
  | ⟨.pollWriteReady _, .pending⟩ => 1
  | ⟨.pollShutdown _, .pending⟩ => 1
  | ⟨.tryIo _ _, .err e⟩ => 2 * if e.kind = .wouldBlock then 1 else 0
  | ⟨.splice _ _ _ _ _ _, ⟨.error e, _, _⟩⟩ => 2 * if e.kind = .wouldBlock then 1 else 0
  | _ => 0

/-- A splice out of a pipe moves a byte, a writer that has been found ready is not turned down, and
nobody drops the task. -/
def Obliges (o : Os) : Event sys → Prop
  | ⟨.splice fdIn _ _ _ _ _, ⟨.ok n, _, _⟩⟩ => ∀ p, o.fd fdIn = some (.drainEnd p) → 0 < n
  | ⟨.tryIo _ .writable, .err _⟩ => False
  | ⟨.suspend, .drop⟩ => False
  | _ => True

/-- The kernel when nothing fails. -/
def smooth : Env sys Os := fun o e o' => os o e o' ∧ SysUnfailing e ∧ Obliges o e

section Smooth

variable {o o' : Os} {r w : AsyncFd} {p : ℕ} {pipe : Pipe} {c : Call} {e : Event sys}
  {es : List (Event sys)}

theorem smooth_os (h : smooth o e o') : os o e o' := h.1

theorem meters_delay : Meters sysDelay delay := by
  refine ⟨?_, fun _ => rfl⟩
  intro r w pipe c a es h
  cases c with
  | pollReadReady =>
    cases r with
    | socket fd =>
      rw [run_sysCall h]
      cases a <;> rfl
    | file fd =>
      cases h
      rfl
  | pollWriteReady =>
    cases w with
    | socket fd =>
      rw [run_sysCall h]
      cases a <;> rfl
    | file fd =>
      cases h
      rfl
  | pollShutdown =>
    rw [run_sysCall h]
    cases a <;> rfl
  | tryIoRead =>
    cases r with
    | socket fd =>
      rw [run_sysCall h]
      cases a <;> rfl
    | file fd =>
      cases h
      rfl
  | tryIoWrite =>
    cases w with
    | socket fd =>
      rw [run_sysCall h]
      cases a <;> rfl
    | file fd =>
      cases h
      rfl
  | spliceIn offIn maxLen =>
    cases hf : pipe.fillFd with
    | none =>
      simp only [implement, hf] at h
      cases h
    | some fd =>
      simp only [implement, hf] at h
      cases h with
      | @ask _ _ answer _ _ h =>
        cases h
        rcases answer with ⟨e | n, off, off'⟩
        · rfl
        · rfl
  | spliceOut offOut maxLen =>
    cases hd : pipe.drainFd with
    | none =>
      simp only [implement, hd] at h
      cases h
    | some fd =>
      simp only [implement, hd] at h
      cases h with
      | @ask _ _ answer _ _ h =>
        cases h
        rcases answer with ⟨e | n, off, off'⟩
        · rfl
        · rfl

/-- Behind `Live` and the instances of the two ends, an obliging kernel obliges the loop. -/
theorem implement_obliges (hrig : Rigged o r.asFd w.asFd p pipe) (c : Call) :
    (implement r w pipe c).wp smooth (fun _ _ => True)
      (fun out _ => ∀ a, out = .val a →
        Productive ⟨c, a⟩ ∧ ∀ e, (⟨c, a⟩ : Event calls) ≠ ⟨.tryIoWrite, .err e⟩) o := by
  cases c with
  | pollReadReady | tryIoRead =>
    cases r with
    | socket fd => exact ⟨trivial, fun a _ _ _ ha => ⟨trivial, by rintro e ⟨⟩⟩⟩
    | file fd => exact fun a _ => ⟨trivial, by rintro e ⟨⟩⟩
  | pollWriteReady =>
    cases w with
    | socket fd => exact ⟨trivial, fun a _ _ _ ha => ⟨trivial, by rintro e ⟨⟩⟩⟩
    | file fd => exact fun a _ => ⟨trivial, by rintro e ⟨⟩⟩
  | pollShutdown => exact ⟨trivial, fun a _ _ _ ha => ⟨trivial, by rintro e ⟨⟩⟩⟩
  | tryIoWrite =>
    cases w with
    | socket fd =>
      refine ⟨trivial, ?_⟩
      rintro (_ | e) o' ⟨-, -, hobliges⟩
      · rintro _ ⟨⟩
        exact ⟨trivial, by rintro e ⟨⟩⟩
      · exact hobliges.elim
    | file fd =>
      rintro _ ⟨⟩
      exact ⟨trivial, by rintro e ⟨⟩⟩
  | spliceIn offIn maxLen =>
    cases hf : pipe.fillFd with
    | none =>
      simp only [implement, hf]
      rintro a ⟨⟩
    | some fd =>
      simp only [implement, hf]
      exact ⟨trivial, fun a _ _ _ ha => ⟨trivial, by rintro e ⟨⟩⟩⟩
  | spliceOut offOut maxLen =>
    cases hd : pipe.drainFd with
    | none =>
      simp only [implement, hd]
      rintro a ⟨⟩
    | some fd =>
      simp only [implement, hd]
      refine ⟨trivial, ?_⟩
      rintro ⟨e | n, off, off'⟩ o' ⟨-, -, hobliges⟩
      · rintro _ ⟨⟩
        exact ⟨trivial, by rintro e ⟨⟩⟩
      · rintro _ ⟨⟩
        exact ⟨hobliges p (hrig.drain fd hd), by rintro e ⟨⟩⟩

theorem shows_smooth : Shows smooth obliging := by
  refine ⟨fun _ _ _ he => he.1, fun _ _ _ _ he => he.1, ?_⟩
  rintro o r w p pipe e o' hrig ⟨es, hr, ha⟩
  have hos : os.Accepts o es o' := ha.mono fun _ _ _ he => he.1
  have hunfailing : ∀ e ∈ es, SysUnfailing e := ha.forall fun _ _ _ he => he.2.1
  obtain ⟨hproductive, hgate⟩ := Prog.wp_post (implement_obliges hrig e.call) hr ha e.answer rfl
  refine ⟨(through_os hrig ⟨es, hr, hos⟩).1, ?_, hproductive, fun _ => hgate⟩
  exact Prog.wp_post (implement_unfailing r w pipe e.call) hr
    (Env.accepts_of (v := ()).mpr hunfailing) e.answer rfl

/-- An end that is no pipe stays one, unless it is closed. -/
theorem os_other {e : Event sys} {n : BorrowedFd} (h : os o e o') (hn : o.fd n = some .other)
    (hclose : e.call ≠ .close ⟨n⟩) : o'.fd n = some .other := by
  rcases e with ⟨_ | _ | _ | fd | _ | _ | _ | _ | _ | _, a⟩
  case pipeWith flags =>
    rcases a with e | ⟨drainFd, fillFd⟩
    · cases h
      exact hn
    · obtain ⟨hd, hf, -, p, cap, -, rfl⟩ := h
      have hnd : n ≠ drainFd.asFd := by
        rintro rfl
        cases hn.symm.trans hd
      have hnf : n ≠ fillFd.asFd := by
        rintro rfl
        cases hn.symm.trans hf
      simp [update_of_ne hnd, update_of_ne hnf, hn]
  case fcntlSetpipeSize =>
    rcases a with e | size
    · cases h
      exact hn
    · obtain ⟨p, cap, -, -, rfl⟩ := h
      exact hn
  case fcntlGetpipeSize =>
    rcases a with e | size
    · cases h
      exact hn
    · obtain ⟨-, rfl⟩ := h
      exact hn
  case close =>
    cases h
    have hne : n ≠ fd.asFd := fun heq => hclose (by rw [heq]; rfl)
    simpa [update_of_ne hne] using hn
  case splice =>
    rcases h with ⟨⟨p, source, buf, -, -, rfl⟩, -⟩ | ⟨⟨p, buf, sink, -, -, rfl⟩, -⟩ |
      ⟨-, -, -, rfl⟩ <;> exact hn
  all_goals
    cases h
    exact hn

/-- A run of calls that fail nothing and move a byte whenever they splice out of a pipe. -/
theorem smooth_of (ends : List BorrowedFd) (ha : os.Accepts o es o')
    (hends : ∀ n ∈ ends, o.fd n = some .other)
    (hes : ∀ e ∈ es, SysUnfailing e ∧
      (∀ o : Os, (∀ n ∈ ends, o.fd n = some .other) → Obliges o e) ∧
      ∀ n ∈ ends, e.call ≠ .close ⟨n⟩) : smooth.Accepts o es o' := by
  induction es generalizing o with
  | nil => exact ha
  | cons e es ih =>
    obtain ⟨o₁, he, ha⟩ := ha
    obtain ⟨hunfailing, hobliges, hclose⟩ := hes e List.mem_cons_self
    refine ⟨o₁, ⟨he, hunfailing, hobliges o hends⟩, ih ha ?_ ?_⟩
    · exact fun n hn => os_other he (hends n hn) (hclose n hn)
    · exact fun e he => hes e (List.mem_cons_of_mem _ he)

end Smooth

/-- What an entry point comes to that reports `report`, or gives up before its first byte; with `n`
delays it has had too little fuel if `late n`. -/
def Completes (late : ℕ → Prop) (report : TransferReport) :
    Outcome sys (Option (Completion (IoResult TransferReport))) → Os × ℕ → Prop
  | .val none, x => late x.2
  | .val (some (.returned (.ok r))), _ => r = report
  | .val (some (.returned (.error _))), _ => True
  | .val (some .dropped), _ => False
  | .fault _, _ => False

theorem Completes.cases {late : ℕ → Prop} {report : TransferReport} {x : Os × ℕ}
    {out : Outcome sys (Option (Completion (IoResult TransferReport)))}
    (h : Completes late report out x) (hlate : ¬ late x.2) :
    (∃ e, out = .val (some (.returned (.error e)))) ∨
      out = .val (some (.returned (.ok report))) := by
  rcases out with (_ | (e | r) | _) | why
  · exact absurd h hlate
  · exact .inl ⟨e, rfl⟩
  · cases (h : r = report)
    exact .inr rfl
  · exact h.elim
  · exact h.elim

/-! ### One direction -/

/-- What an awaited transfer comes to, `c` delays after the start. -/
def Concludes (start : SpliceCtx) (src : List UInt8) (fuel c : ℕ) :
    Outcome sys (Option (SpliceIo × Completion (IoResult Unit))) → Os × ℕ → Prop
  | .val none, x => c + fuel ≤ 2 * due start src + x.2 + 3
  | .val (some (io, .returned res)), _ => res = .ok () ∧ io.splicer.bytesWritten = due start src
  | .val (some (_, .dropped)), _ => False
  | .fault _, _ => False

section OneDirection

variable {start ctx : SpliceCtx} {w₀ : World} {src : List UInt8} {r w : AsyncFd} {b : Builder}
  {p c n fuel : ℕ} {io : SpliceIo} {o o' : Os} {x : Os × ℕ} {es : List (Event sys)}
  {out : Outcome sys (Option (Completion (IoResult TransferReport)))}

/-- To suspend costs nothing, and the task is polled again. -/
theorem smooth_suspend {a : Resume} {x' : Os × ℕ} (h : (smooth.timed sysDelay) x ⟨.suspend, a⟩ x') :
    a = .poll ∧ x' = x := by
  obtain ⟨⟨hos, -, hobliges⟩, hclock⟩ := h
  cases a with
  | poll => exact ⟨rfl, Prod.ext hos hclock⟩
  | drop => exact hobliges.elim

theorem wp_drop_quiet (pipe : Pipe) (o : Os) :
    pipe.drop.wp os Unguarded (fun out o' => out = .val () ∧ Quiet o o') o := by
  refine Prog.wp_mono (wp_dropFds _ o) ?_
  rintro out o' ⟨rfl, rfl⟩
  exact ⟨rfl, quiet_closing⟩

theorem wp_await_concludes (hsrc : w₀.source.ahead start.offset.offIn = some src)
    (hrig : Rigged o r.asFd w.asFd p io.splicer.pipe)
    (h : Hale start w₀ src io (o.world r.asFd w.asFd p)) :
    (((SpliceIo.liveBody r w fun io => io.splicer.pipe.drop).future
      (sysCall .suspend)).await fuel io).wp (smooth.timed sysDelay) (fun x => Unguarded x.1)
      (Concludes start src fuel c) (o, c) := by
  refine Machine.wp_await_future
    (fun k io x => Rigged x.1 r.asFd w.asFd p io.splicer.pipe ∧
      Working start w₀ src (c + fuel) k io (x.1.world r.asFd w.asFd p, x.2)) ?_ ?_
    ⟨hrig, h.working⟩
  · rintro k io ⟨o₁, n⟩ ⟨hrig, hw⟩
    have hbody := wp_liveBody_timed (n := n) shows_smooth meters_delay
      (fun io => io.splicer.pipe.drop) hrig fun o => wp_drop_quiet _ o
    refine Prog.wp_mono hbody ?_
    rintro (⟨io', _ | _ | res⟩ | why) ⟨o₂, n₂⟩ hgoes
    · obtain ⟨hrig', -, es, hi, hk, rfl⟩ := hgoes
      exact ⟨hrig', hw.step hsrc hi hk rfl⟩
    · obtain ⟨hrig', -, es, hi, hk, rfl⟩ := hgoes
      refine ⟨trivial, ?_⟩
      intro a x he
      obtain ⟨rfl, rfl⟩ := smooth_suspend he
      exact ⟨hrig', hw.step hsrc hi hk rfl⟩
    · obtain ⟨-, -, es, hi, hk, -⟩ := hgoes
      obtain ⟨hres, hwritten, -⟩ := hw.hale.returned (hw.hale.step hsrc hi hk) hi hk
      exact ⟨hres, hwritten⟩
    · obtain ⟨-, es, hcrash, hk⟩ := hgoes
      exact hw.hale.no_crash hcrash hk
  · rintro io x ⟨-, hw⟩
    exact hw.exhausted

theorem wp_executeLive_completes (fuel : ℕ) (hl : Launch ctx (o.world r.asFd w.asFd p) src)
    (hrig : Rigged o r.asFd w.asFd p ctx.pipe) :
    (SpliceIo.executeLive fuel r w (.ofCtx ctx)).wp (smooth.timed sysDelay)
      (fun x => Unguarded x.1) (fun out => Completes (c + fuel ≤ 2 * due ctx src + · + 3)
        ⟨due ctx src, 0, none⟩ (out.map (Option.map (Completion.map .ok)))) (o, c) := by
  refine Prog.wp_bind.mpr (Prog.wp_mono (wp_await_concludes hl.source hrig hl.hale) ?_)
  rintro ((_ | ⟨io, res | _⟩) | why) ⟨o₁, n⟩ hc
  · exact hc
  · obtain ⟨rfl, hwritten⟩ := hc
    have hdrop := Prog.wp_env (wp_drop_quiet io.splicer.pipe o₁) fun _ _ _ he => smooth_os he
    refine Prog.wp_bind.mpr (Prog.wp_mono (Prog.wp_timed.mpr hdrop) ?_)
    rintro out x ⟨rfl, -⟩
    change io.report (.ok ()) = _
    rw [SpliceIo.report, hwritten]
  · exact hc.elim
  · exact hc.elim

theorem Primed.launch {r w : BorrowedFd} (h : Primed b ctx o p o')
    (hsrc : (o.source r).ahead b.offset.offIn = some src)
    (hsink : (o.sink w).write b.offset.offOut [] = some (o.sink w)) :
    Launch ctx (o'.world r w p) src := by
  rw [h.pipe.world, ← h.offset] at *
  exact ⟨h.fresh, rfl, hsrc, hsink⟩

theorem wp_transfer_completes (hends : Ends o r.asFd w.asFd)
    (hsrc : (o.source r.asFd).ahead b.offset.offIn = some src)
    (hsink : (o.sink w.asFd).write b.offset.offOut [] = some (o.sink w.asFd)) :
    (transfer fuel b r w).wp (smooth.timed sysDelay) (fun x => Unguarded x.1)
      (Completes (fuel ≤ 2 * min b.target src.length + · + 3)
        ⟨min b.target src.length, 0, none⟩) (o, 0) := by
  have hbuild := Prog.wp_env (wp_build_os b o) fun _ _ _ he => smooth_os he
  refine Prog.wp_bind.mpr (Prog.wp_mono (Prog.wp_timed.mpr hbuild) ?_)
  rintro ((e | ctx) | why) ⟨o₁, c⟩ ho
  · trivial
  · obtain ⟨p, hp⟩ := ho
    have hrig : Rigged o₁ r.asFd w.asFd p ctx.pipe :=
      ⟨hp.pipe.kept.ends hends, hp.pipe.plugged⟩
    have hdue : due ctx src = min b.target src.length := by rw [due, hp.target]
    have hexecute := wp_executeLive_completes (c := c) fuel (hp.launch hsrc hsink) hrig
    refine Prog.wp_bind.mpr (Prog.wp_mono hexecute ?_)
    rw [hdue]
    rintro ((_ | _ | _) | why) x hc
    · exact Nat.le_trans (Nat.le_add_left fuel c) hc
    · exact hc
    · exact hc
    · exact hc
  · exact ho.elim

/-- With fuel enough a transfer is refused and touches nothing, or it reports all that was due. -/
theorem transfer_concludes (hends : Ends o r.asFd w.asFd)
    (hsrc : (o.source r.asFd).ahead b.offset.offIn = some src)
    (hsink : (o.sink w.asFd).write b.offset.offOut [] = some (o.sink w.asFd))
    (h : (transfer fuel b r w).Run es out) (ha : smooth.Accepts o es o')
    (hfuel : 2 * min b.target src.length + tally sysDelay es + 3 < fuel) :
    (∃ e, out = .val (some (.returned (.error e)))) ∧ Kept o o' ∨
      out = .val (some (.returned (.ok ⟨min b.target src.length, 0, none⟩))) := by
  have htimed : (smooth.timed sysDelay).Accepts (o, 0) es (o', 0 + tally sysDelay es) :=
    Env.accepts_timed.mpr ⟨ha, rfl⟩
  have hcompletes := Prog.wp_post (wp_transfer_completes hends hsrc hsink) h htimed
  rcases hcompletes.cases (by simpa using hfuel) with ⟨e, rfl⟩ | hout
  · exact .inl ⟨⟨e, rfl⟩, (Prog.wp_post (wp_transfer_os shows_smooth hends) h ha).refused⟩
  · exact .inr hout

/-- On a kernel that fails no call, with fuel for every byte and every delay, a transfer whose pipe
could be made reports that all its bytes have arrived, and so they have, with nothing else
touched. -/
theorem transfer_completes (hends : Ends o r.asFd w.asFd)
    (hsrc : (o.source r.asFd).ahead b.offset.offIn = some src)
    (hsink : (o.sink w.asFd).write b.offset.offOut [] = some (o.sink w.asFd))
    (h : (transfer fuel b r w).Run es out) (ha : smooth.Accepts o es o')
    (hfuel : 2 * min b.target src.length + tally sysDelay es + 3 < fuel) :
    (∃ e, out = .val (some (.returned (.error e)))) ∧ Kept o o' ∨
      out = .val (some (.returned (.ok ⟨min b.target src.length, 0, none⟩))) ∧
        Spares [r.asFd] [w.asFd] o o' ∧
        Delivered b.offset b.target src r.asFd w.asFd o o' (min b.target src.length)
          (min b.target src.length) := by
  have htransfers := Prog.wp_post (wp_transfer_os shows_os hends) h
    (ha.mono fun _ _ _ => smooth_os)
  rcases transfer_concludes hends hsrc hsink h ha hfuel with hrefused | rfl
  · exact .inl hrefused
  · obtain ⟨hspares, read, written, hd, -, hreport⟩ := htransfers.delivers hsrc hsink
    obtain ⟨-, -, hall⟩ := hreport _ rfl
    obtain ⟨rfl, rfl⟩ := hall rfl
    exact .inr ⟨rfl, hspares, hd⟩

theorem transfer_completes_slice : ∃ o', smooth.Accepts .slicing slices o' ∧
    Spares [5] [6] .slicing o' ∧ Delivered (.input 1) 1 [7, 9] 5 6 .slicing o' 1 1 := by
  obtain ⟨o', ha⟩ := slices_accepted
  have hrun : (sendfile 6 5 6 3 (some 1) (some 2)).Run slices
      (.val (some (.returned (.ok ⟨1, 0, none⟩)))) :=
    .ask (.ask (.ask (.ask (.ask (.ask (.ask (.ask (.ask (.ask (.ask (.ret _)))))))))))
  have hsmooth : smooth.Accepts .slicing slices o' :=
    smooth_of [] ha (by simp) (by simp [slices, SysUnfailing, Obliges])
  have hsrc : (Os.slicing.source 5).ahead (some 1) = some [7, 9] := rfl
  have hcompletes := transfer_completes (r := .file 5) (w := .socket 6) ⟨rfl, rfl⟩ hsrc rfl hrun
    hsmooth (by decide)
  rcases hcompletes with ⟨⟨e, he⟩, -⟩ | ⟨-, hspares, hd⟩
  · cases he
  · exact ⟨o', hsmooth, hspares, hd⟩

end OneDirection

/-! ### Two directions -/

/-- Both directions at work, each through a pipe of its own. -/
structure HaleBoth (ctx : Side → SpliceCtx) (w₀ : Side → World) (src : Side → List UInt8)
    (sl sr : BorrowedFd) (p : Side → ℕ) (io : SpliceBidiIo) (o : Os) : Prop where
  rigged : RiggedBoth o sl sr p io
  hale : ∀ d, Hale (ctx d) (w₀ d) (src d) (io.half d) (o.worlds sl sr p d)

/-- What a call of both halves comes to, `c` delays after the start. -/
def PollsBoth (ctx : Side → SpliceCtx) (w₀ : Side → World) (src : Side → List UInt8)
    (sl sr : BorrowedFd) (p : Side → ℕ) (fuel c : ℕ) :
    Outcome sys (Option (SpliceBidiIo × Poll (IoResult Unit))) → Os × ℕ → Prop
  | .val none, x => ∃ d, c + fuel ≤ 2 * due (ctx d) (src d) + x.2 + 3
  | .val (some (io, .pending)), x => c < x.2 ∧ HaleBoth ctx w₀ src sl sr p io x.1
  | .val (some (io, .ready res)), _ =>
    res = .ok () ∧ ∀ d, (io.half d).splicer.bytesWritten = due (ctx d) (src d)
  | .fault _, _ => False

/-- What `n` of these calls come to. -/
def ConcludesBoth (ctx : Side → SpliceCtx) (src : Side → List UInt8) (fuel n c : ℕ) :
    Outcome sys (Option (SpliceBidiIo × Completion (IoResult Unit))) → Os × ℕ → Prop
  | .val none, x => (∃ d, c + fuel ≤ 2 * due (ctx d) (src d) + x.2 + 3) ∨ c + n ≤ x.2
  | .val (some (io, .returned res)), _ =>
    res = .ok () ∧ ∀ d, (io.half d).splicer.bytesWritten = due (ctx d) (src d)
  | .val (some (_, .dropped)), _ => False
  | .fault _, _ => False

section TwoDirections

variable {ctx : Side → SpliceCtx} {w₀ : Side → World} {src : Side → List UInt8} {p : Side → ℕ}
  {c n fuel : ℕ} {o o' : Os} {es : List (Event sys)}
  {out : Outcome sys (Option (Completion (IoResult TransferReport)))}

theorem wp_poll_settles {start : SpliceCtx} {w₀ : World} {src : List UInt8} {r w : AsyncFd}
    {p : ℕ} {io : SpliceIo} (fuel : ℕ) (release : SpliceIo → Prog sys Unit)
    (hsrc : w₀.source.ahead start.offset.offIn = some src)
    (hrig : Rigged o r.asFd w.asFd p io.splicer.pipe)
    (h : Hale start w₀ src io (o.world r.asFd w.asFd p))
    (hrelease : ∀ io o, (release io).wp os Unguarded (fun out o' => out = .val () ∧ Quiet o o') o) :
    ((SpliceIo.liveBody r w release).poll fuel io).wp (smooth.timed sysDelay)
      (fun x => Unguarded x.1)
      (fun out x => Settles start w₀ src Flow.poll? fuel c (out.translate id)
        (x.1.world r.asFd w.asFd p, x.2) ∧
        ∀ io' ret, out = .val (some (io', ret)) →
          Rigged x.1 r.asFd w.asFd p io'.splicer.pipe ∧ Moves r.asFd w.asFd p o x.1) (o, c) := by
  refine Machine.wp_iterate (fun k io' x => Rigged x.1 r.asFd w.asFd p io'.splicer.pipe ∧
    Moves r.asFd w.asFd p o x.1 ∧ c ≤ x.2 ∧
      Working start w₀ src (c + fuel) k io' (x.1.world r.asFd w.asFd p, x.2)) ?_ ?_
    ⟨hrig, .refl _ _ _ _, Nat.le_refl c, h.working⟩
  · rintro k io₁ ⟨o₁, n⟩ ⟨hrig, hm, hclock, hw⟩
    have hbody := wp_liveBody_timed (n := n) shows_smooth meters_delay release hrig (hrelease io₁)
    refine Prog.wp_mono hbody ?_
    rintro (⟨io₂, flow⟩ | why) ⟨o₂, n₂⟩ hgoes
    · obtain ⟨hrig₂, hm₂, es, hi, hk, rfl⟩ := hgoes
      have hclock₂ : c ≤ n + tally delay es := Nat.le_add_right_of_le hclock
      cases flow with
      | again => exact ⟨hrig₂, hm.trans hm₂, hclock₂, hw.step hsrc hi hk rfl⟩
      | done ret =>
        have hhale₂ := hw.hale.step hsrc hi hk
        refine ⟨⟨hhale₂, hclock₂, .done ret, rfl, ?_, ?_⟩, ?_⟩
        · intro hflow
          change c < n + tally delay es
          rw [hi.delay_of_pending hflow]
          exact Nat.lt_succ_of_le hclock
        · rintro res ⟨⟩
          exact hw.hale.returned hhale₂ hi hk
        · rintro _ _ ⟨⟩
          exact ⟨hrig₂, hm.trans hm₂⟩
    · obtain ⟨-, es, hcrash, hk⟩ := hgoes
      exact (hw.hale.no_crash hcrash hk).elim
  · rintro io₁ x ⟨-, -, -, hw⟩
    exact ⟨hw.exhausted, by rintro _ _ ⟨⟩⟩

/-- What its two halves have come to, one after the other, the call has. -/
theorem pollsBoth_combine {sl sr : BorrowedFd} {io : SpliceBidiIo}
    {ret₁ ret₂ : Poll (IoResult Unit)} {v₁ v₂ : World} {c₁ c₂ : ℕ}
    (h₁ : Settles (ctx .sl2sr) (w₀ .sl2sr) (src .sl2sr) Flow.poll? fuel c
      (.val (some (io.ioSl2sr, ret₁))) (v₁, c₁))
    (h₂ : Settles (ctx .sr2sl) (w₀ .sr2sl) (src .sr2sl) Flow.poll? fuel c₁
      (.val (some (io.ioSr2sl, ret₂))) (v₂, c₂))
    (hhale : HaleBoth ctx w₀ src sl sr p io o) :
    PollsBoth ctx w₀ src sl sr p fuel c (.val (some (io, combine ret₁ ret₂))) (o, c₂) := by
  have hclock₁ : c ≤ c₁ := h₁.2.1
  have hclock₂ : c₁ ≤ c₂ := h₂.2.1
  cases ret₁ with
  | pending => exact ⟨Nat.lt_of_lt_of_le h₁.of_pending hclock₂, hhale⟩
  | ready res₁ =>
    obtain ⟨rfl, hwritten₁, -⟩ := h₁.of_ready
    cases ret₂ with
    | pending => exact ⟨Nat.lt_of_le_of_lt hclock₁ h₂.of_pending, hhale⟩
    | ready res₂ =>
      obtain ⟨rfl, hwritten₂, -⟩ := h₂.of_ready
      refine ⟨rfl, ?_⟩
      rintro (_ | _)
      · exact hwritten₁
      · exact hwritten₂

theorem wp_pollLive_polls {sl sr : AsyncFd} {io : SpliceBidiIo} (hne : sl.asFd ≠ sr.asFd)
    (hp : p .sl2sr ≠ p .sr2sl)
    (hsrc : ∀ d, (w₀ d).source.ahead (ctx d).offset.offIn = some (src d))
    (h : HaleBoth ctx w₀ src sl.asFd sr.asFd p io o) :
    (io.pollLive fuel sl sr).wp (smooth.timed sysDelay) (fun x => Unguarded x.1)
      (PollsBoth ctx w₀ src sl.asFd sr.asFd p fuel c) (o, c) := by
  have hpoll₁ := wp_poll_settles (r := sl) (w := sr) (c := c) fuel
    (fun ioSl2sr => SpliceBidiIo.drop ⟨ioSl2sr, io.ioSr2sl⟩) (hsrc .sl2sr) (h.rigged .sl2sr)
    (h.hale .sl2sr) fun _ _ => wp_drop_os _ _
  refine Prog.wp_bind.mpr (Prog.wp_mono hpoll₁ ?_)
  rintro ((_ | ⟨io₁, ret₁⟩) | why) ⟨o₁, c₁⟩ ⟨hs₁, hrig₁⟩
  · exact ⟨.sl2sr, hs₁⟩
  · obtain ⟨hrig₁, hm₁⟩ := hrig₁ io₁ ret₁ rfl
    have hrig₂ : Rigged o₁ sr.asFd sl.asFd (p .sr2sl) io.ioSr2sl.splicer.pipe :=
      (h.rigged .sr2sl).frame hm₁ hp.symm
    have hother₁ : o₁.worlds sl.asFd sr.asFd p .sr2sl = o.worlds sl.asFd sr.asFd p .sr2sl :=
      Aside.worlds_other (d := .sl2sr) hm₁.toAside hne hp (by decide)
    have hhale₂ : Hale (ctx .sr2sl) (w₀ .sr2sl) (src .sr2sl) io.ioSr2sl
        (o₁.worlds sl.asFd sr.asFd p .sr2sl) := by
      rw [hother₁]
      exact h.hale .sr2sl
    have hpoll₂ := wp_poll_settles (r := sr) (w := sl) (c := c₁) fuel
      (fun ioSr2sl => SpliceBidiIo.drop ⟨io₁, ioSr2sl⟩) (hsrc .sr2sl) hrig₂ hhale₂
      fun _ _ => wp_drop_os _ _
    refine Prog.wp_bind.mpr (Prog.wp_mono hpoll₂ ?_)
    rintro ((_ | ⟨io₂, ret₂⟩) | why) ⟨o₂, c₂⟩ ⟨hs₂, hrig₂⟩
    · have hclock₁ : c ≤ c₁ := hs₁.2.1
      have hspent : c₁ + fuel ≤ 2 * due (ctx .sr2sl) (src .sr2sl) + c₂ + 3 := hs₂
      refine ⟨.sr2sl, ?_⟩
      change c + fuel ≤ 2 * due (ctx .sr2sl) (src .sr2sl) + c₂ + 3
      omega
    · obtain ⟨hrig₂, hm₂⟩ := hrig₂ io₂ ret₂ rfl
      have hother₂ : o₂.worlds sl.asFd sr.asFd p .sl2sr = o₁.worlds sl.asFd sr.asFd p .sl2sr :=
        Aside.worlds_other (d := .sr2sl) hm₂.toAside hne hp (by decide)
      have hhale : HaleBoth ctx w₀ src sl.asFd sr.asFd p ⟨io₁, io₂⟩ o₂ := by
        refine ⟨?_, ?_⟩
        · rintro (_ | _)
          · exact hrig₁.frame hm₂ hp
          · exact hrig₂
        · rintro (_ | _)
          · rw [hother₂]
            exact hs₁.1
          · exact hs₂.1
      exact pollsBoth_combine hs₁ hs₂ hhale
    · exact hs₂.elim
  · exact hs₁.elim

theorem wp_awaitLive_concludes {sl sr : AsyncFd} {io : SpliceBidiIo} (hne : sl.asFd ≠ sr.asFd)
    (hp : p .sl2sr ≠ p .sr2sl)
    (hsrc : ∀ d, (w₀ d).source.ahead (ctx d).offset.offIn = some (src d))
    (h : HaleBoth ctx w₀ src sl.asFd sr.asFd p io o) :
    (io.awaitLive fuel sl sr n).wp (smooth.timed sysDelay) (fun x => Unguarded x.1)
      (ConcludesBoth ctx src fuel n c) (o, c) := by
  induction n generalizing io o c with
  | zero => exact .inr (Nat.le_refl c)
  | succ n ih =>
    refine Prog.wp_bind.mpr (Prog.wp_mono (wp_pollLive_polls hne hp hsrc h) ?_)
    rintro ((_ | ⟨io₁, _ | res⟩) | why) ⟨o₁, c₁⟩ hs
    · exact .inl hs
    · obtain ⟨hclock, hhale⟩ := hs
      refine ⟨trivial, ?_⟩
      intro a x he
      obtain ⟨rfl, rfl⟩ := smooth_suspend he
      refine Prog.wp_mono (ih hhale) ?_
      rintro ((_ | ⟨io₂, res | _⟩) | why) x hends
      · change c < c₁ at hclock
        rcases hends with ⟨d, hspent⟩ | hspent
        · exact .inl ⟨d, by omega⟩
        · refine .inr ?_
          omega
      · exact hends
      · exact hends
      · exact hends
    · exact hs
    · exact hs.elim

theorem wp_executeLive_both_completes (sl sr : AsyncFd) (fuel : ℕ) (hne : sl.asFd ≠ sr.asFd)
    (hp : p .sl2sr ≠ p .sr2sl)
    (hsrc : ∀ d, (w₀ d).source.ahead (ctx d).offset.offIn = some (src d))
    (h : HaleBoth ctx w₀ src sl.asFd sr.asFd p (.ofCtx ctx) o) :
    ((SpliceBidiIo.ofCtx ctx).executeLive fuel sl sr).wp (smooth.timed sysDelay)
      (fun x => Unguarded x.1)
      (fun out => Completes
        (fun late => (∃ d, c + fuel ≤ 2 * due (ctx d) (src d) + late + 3) ∨ c + fuel ≤ late)
        ⟨due (ctx .sl2sr) (src .sl2sr), due (ctx .sr2sl) (src .sr2sl), none⟩
        (out.map (Option.map (Completion.map .ok)))) (o, c) := by
  refine Prog.wp_bind.mpr (Prog.wp_mono (wp_awaitLive_concludes hne hp hsrc h) ?_)
  rintro ((_ | ⟨io, res | _⟩) | why) ⟨o₁, n⟩ hc
  · exact hc
  · obtain ⟨rfl, hwritten⟩ := hc
    have hdrop := Prog.wp_env (wp_drop_os io o₁) fun _ _ _ he => smooth_os he
    refine Prog.wp_bind.mpr (Prog.wp_mono (Prog.wp_timed.mpr hdrop) ?_)
    rintro out x ⟨rfl, -⟩
    have hsl : io.ioSl2sr.splicer.bytesWritten = _ := hwritten .sl2sr
    have hsr : io.ioSr2sl.splicer.bytesWritten = _ := hwritten .sr2sl
    change io.report (.ok ()) = _
    rw [SpliceBidiIo.report, hsl, hsr]
  · exact hc.elim
  · exact hc.elim

section Whole

variable {sl sr : BorrowedFd} {ctx ctx' : SpliceCtx} {p p' : ℕ} {o₁ o₂ : Os}

theorem Primed.haleBoth (h : Primed .new ctx o p o₁) (h' : Primed .new ctx' o₁ p' o₂)
    (hends : Ends o sl sr) (hsrc : ∀ d, (o.source (each sl sr d)).ahead none = some (src d))
    (hsink : ∀ d, (o.sink (each sr sl d)).write none [] = some (o.sink (each sr sl d))) :
    HaleBoth (each ctx ctx') (o.idle sl sr) src sl sr (each p p') (.ofCtx (each ctx ctx')) o₂ ∧
      ∀ d, (o.idle sl sr d).source.ahead (each ctx ctx' d).offset.offIn = some (src d) := by
  have hl : ∀ d, Launch (each ctx ctx' d) (o.idle sl sr d) (src d) := by
    rintro (_ | _)
    · refine ⟨h.fresh, rfl, ?_, ?_⟩
      · rw [show (each ctx ctx' .sl2sr).offset = .none from h.offset]
        exact hsrc .sl2sr
      · rw [show (each ctx ctx' .sl2sr).offset = .none from h.offset]
        exact hsink .sl2sr
    · refine ⟨h'.fresh, rfl, ?_, ?_⟩
      · rw [show (each ctx ctx' .sr2sl).offset = .none from h'.offset]
        exact hsrc .sr2sl
      · rw [show (each ctx ctx' .sr2sl).offset = .none from h'.offset]
        exact hsink .sr2sl
  refine ⟨⟨h.rigged h' hends, fun d => ?_⟩, fun d => (hl d).source⟩
  rw [h.worlds h']
  cases d <;> exact (hl _).hale

theorem wp_copyBidirectional_completes (hne : sl ≠ sr) (hends : Ends o sl sr)
    (hsrc : ∀ d, (o.source (each sl sr d)).ahead none = some (src d))
    (hsink : ∀ d, (o.sink (each sr sl d)).write none [] = some (o.sink (each sr sl d))) :
    (copyBidirectional fuel sl sr).wp (smooth.timed sysDelay) (fun x => Unguarded x.1)
      (Completes
        (fun late => (∃ d, fuel ≤ 2 * min isizeMax (src d).length + late + 3) ∨ fuel ≤ late)
        ⟨min isizeMax (src .sl2sr).length, min isizeMax (src .sr2sl).length, none⟩) (o, 0) := by
  have hcreate (o : Os) (c : ℕ) : SpliceCtx.create.wp (smooth.timed sysDelay)
      (fun x => Unguarded x.1) (fun out x => Constructs (Primed .new) o out x.1) (o, c) :=
    Prog.wp_timed.mpr (Prog.wp_env (wp_build_os .new o) fun _ _ _ he => smooth_os he)
  refine Prog.wp_bind.mpr (Prog.wp_mono (hcreate o 0) ?_)
  rintro ((e | ctx₁) | why) ⟨o₁, c₁⟩ ho
  · trivial
  · obtain ⟨p₁, hp₁⟩ := ho
    refine Prog.wp_bind.mpr (Prog.wp_mono (hcreate o₁ c₁) ?_)
    rintro ((e | ctx₂) | why) ⟨o₂, c₂⟩ ho
    · have hdrop := Prog.wp_env (wp_drop_quiet ctx₁.pipe o₂) fun _ _ _ he => smooth_os he
      refine Prog.wp_bind.mpr (Prog.wp_mono (Prog.wp_timed.mpr hdrop) ?_)
      rintro out x ⟨rfl, -⟩
      trivial
    · obtain ⟨p₂, hp₂⟩ := ho
      obtain ⟨hhale, hahead⟩ := hp₁.haleBoth hp₂ hends hsrc hsink
      have hdue : ∀ d, due (each ctx₁ ctx₂ d) (src d) = min isizeMax (src d).length := by
        rintro (_ | _)
        · rw [due, show (each ctx₁ ctx₂ .sl2sr).sizeToSplice = isizeMax from hp₁.target]
        · rw [due, show (each ctx₁ ctx₂ .sr2sl).sizeToSplice = isizeMax from hp₂.target]
      have hexecute := wp_executeLive_both_completes (c := c₂) (.socket sl) (.socket sr) fuel hne
        (hp₁.pipe.ne hp₂.pipe) hahead hhale
      refine Prog.wp_bind.mpr (Prog.wp_mono hexecute ?_)
      simp only [hdue]
      rintro ((_ | _ | _) | why) x hc
      · rcases hc with ⟨d, hspent⟩ | hspent
        · exact .inl ⟨d, by omega⟩
        · refine .inr ?_
          omega
      · exact hc
      · exact hc
      · exact hc
    · exact ho.elim
  · exact ho.elim

theorem copyBidirectional_concludes (hne : sl ≠ sr) (hends : Ends o sl sr)
    (hsrc : ∀ d, (o.source (each sl sr d)).ahead none = some (src d))
    (hsink : ∀ d, (o.sink (each sr sl d)).write none [] = some (o.sink (each sr sl d)))
    (h : (copyBidirectional fuel sl sr).Run es out) (ha : smooth.Accepts o es o')
    (hfuel : ∀ d, 2 * min isizeMax (src d).length + tally sysDelay es + 3 < fuel) :
    (∃ e, out = .val (some (.returned (.error e)))) ∧ Kept o o' ∨
      out = .val (some (.returned (.ok ⟨min isizeMax (src .sl2sr).length,
        min isizeMax (src .sr2sl).length, none⟩))) := by
  have htimed : (smooth.timed sysDelay).Accepts (o, 0) es (o', 0 + tally sysDelay es) :=
    Env.accepts_timed.mpr ⟨ha, rfl⟩
  have hcompletes :=
    Prog.wp_post (wp_copyBidirectional_completes hne hends hsrc hsink) h htimed
  have hlate : ¬ ((∃ d, fuel ≤ 2 * min isizeMax (src d).length + (0 + tally sysDelay es) + 3) ∨
      fuel ≤ 0 + tally sysDelay es) := by
    rintro (⟨d, hspent⟩ | hspent)
    · have hlt := hfuel d
      omega
    · have hlt := hfuel .sl2sr
      omega
  rcases hcompletes.cases hlate with ⟨e, rfl⟩ | hout
  · have htransfers := Prog.wp_post (wp_copyBidirectional_os shows_smooth hne hends) h ha
    exact .inl ⟨⟨e, rfl⟩, htransfers.refused⟩
  · exact .inr hout

/-- On a kernel that fails no call, with fuel for every byte and every delay, `copy_bidirectional`
reports that all bytes have arrived at both ends, and so they have, with nothing else touched. -/
theorem copyBidirectional_completes (hne : sl ≠ sr) (hends : Ends o sl sr)
    (hsrc : ∀ d, (o.source (each sl sr d)).ahead none = some (src d))
    (hsink : ∀ d, (o.sink (each sr sl d)).write none [] = some (o.sink (each sr sl d)))
    (h : (copyBidirectional fuel sl sr).Run es out) (ha : smooth.Accepts o es o')
    (hfuel : ∀ d, 2 * min isizeMax (src d).length + tally sysDelay es + 3 < fuel) :
    (∃ e, out = .val (some (.returned (.error e)))) ∧ Kept o o' ∨
      out = .val (some (.returned (.ok ⟨min isizeMax (src .sl2sr).length,
        min isizeMax (src .sr2sl).length, none⟩))) ∧
        Spares [sl, sr] [sl, sr] o o' ∧
        ∀ d, Delivered .none isizeMax (src d) (each sl sr d) (each sr sl d) o o'
          (min isizeMax (src d).length) (min isizeMax (src d).length) := by
  have htransfers := Prog.wp_post (wp_copyBidirectional_os shows_smooth hne hends) h ha
  rcases copyBidirectional_concludes hne hends hsrc hsink h ha hfuel with hrefused | rfl
  · exact .inl hrefused
  · obtain ⟨hspares, read, written, hd, -, hreport⟩ :=
      htransfers.delivers shows_smooth hsrc hsink
    obtain ⟨-, -, hall⟩ := hreport _ rfl
    obtain ⟨-, hwritten⟩ := hall fun _ _ _ _ he => he.2.1
    refine .inr ⟨rfl, hspares, fun d => ?_⟩
    have hdelivered := hd d
    have hle := hdelivered.written_le
    have hread := hdelivered.read_le
    rw [hwritten d] at hle hdelivered
    rwa [Nat.le_antisymm hread hle] at hdelivered

theorem copyBidirectional_completes_exchange : ∃ o', smooth.Accepts .pair exchange o' ∧
    Spares [5, 6] [5, 6] .pair o' ∧ Delivered .none isizeMax [9] 5 6 .pair o' 1 1 := by
  obtain ⟨o', hos⟩ := exchange_accepted
  have ha : smooth.Accepts .pair exchange o' :=
    smooth_of [5, 6] hos (by simp [Os.pair])
      (by simp +contextual [exchange, SysUnfailing, Obliges, isizeMax])
  have hrun : (copyBidirectional 6 5 6).Run exchange
      (.val (some (.returned (.ok ⟨1, 0, none⟩)))) :=
    .ask (.ask (.ask (.ask (.ask (.ask (.ask (.ask (.ask (.ask (.ask (.ask (.ask (.ask (.ask (.ask
      (.ask (.ask (.ask (.ask (.ask (.ask (.ask (.ask (.ask (.ask (.ret _))))))))))))))))))))))))))
  have hsrc : ∀ d, (Os.pair.source (each 5 6 d)).ahead none = some (each [9] [] d) := by
    rintro (_ | _) <;> rfl
  have hfuel : ∀ d : Side, 2 * min isizeMax (each [9] [] d : List UInt8).length +
      tally sysDelay exchange + 3 < 6 := by
    rintro (_ | _) <;> decide
  have hcompletes := copyBidirectional_completes (by decide) ⟨rfl, rfl⟩ hsrc (fun _ => rfl) hrun ha
    hfuel
  rcases hcompletes with ⟨⟨e, he⟩, -⟩ | ⟨-, hspares, hd⟩
  · cases he
  · exact ⟨o', ha, hspares, hd .sl2sr⟩

end Whole

end TwoDirections

end Splicer
