import Splicer.File
import Splicer.Os

/-! Executions over the system calls, and the runs of the loop over its traits that they are. -/
namespace Splicer

open Interaction Function

/-! ### Dropping -/

/-- The descriptors are closed; nothing else happens. -/
def Os.closing (o : Os) (fds : List OwnedFd) : Os :=
  { o with fd := fun n => if ⟨n⟩ ∈ fds then none else o.fd n }

/-- No byte has moved, and no capacity has changed. -/
structure Quiet (o o' : Os) : Prop where
  pipe : o'.pipe = o.pipe
  capacity : o'.capacity = o.capacity
  source : o'.source = o.source
  sink : o'.sink = o.sink

/-- Without a guard: what follows is about outcomes only. -/
def Unguarded (_ : Os) (_ : SysCall) : Prop := True

section Dropping

variable {o o' o'' : Os} {fds : List OwnedFd} {p : ℕ} {pipe : Pipe}

theorem Quiet.refl (o : Os) : Quiet o o := ⟨rfl, rfl, rfl, rfl⟩

theorem Quiet.trans (h : Quiet o o') (h' : Quiet o' o'') : Quiet o o'' :=
  ⟨h'.pipe.trans h.pipe, h'.capacity.trans h.capacity, h'.source.trans h.source,
    h'.sink.trans h.sink⟩

theorem quiet_closing : Quiet o (o.closing fds) := ⟨rfl, rfl, rfl, rfl⟩

theorem closing_nil : o.closing [] = o := by
  simp [Os.closing]

theorem closing_cons {fd : OwnedFd} :
    Os.closing { o with fd := update o.fd fd.asFd none } fds = o.closing (fd :: fds) := by
  simp only [Os.closing, Os.mk.injEq, and_true]
  funext n
  by_cases hn : n = fd.asFd
  · subst hn
    simp [OwnedFd.asFd]
  · have hne : (⟨n⟩ : OwnedFd) ≠ fd := fun h => hn (h ▸ rfl)
    simp [update_of_ne hn, hne]

theorem wp_dropFds (fds : List OwnedFd) (o : Os) :
    (dropFds fds).wp os Unguarded (fun out o' => out = .val () ∧ o' = o.closing fds) o := by
  induction fds generalizing o with
  | nil => exact ⟨rfl, closing_nil.symm⟩
  | cons fd fds ih =>
    refine ⟨trivial, ?_⟩
    rintro ⟨⟩ o' rfl
    refine Prog.wp_mono (ih _) ?_
    rintro out o' ⟨rfl, rfl⟩
    exact ⟨rfl, closing_cons⟩

/-- Nor does it take any time, when closing takes none. -/
theorem wp_dropFds_timed {sysCost : Event sys → ℕ} (hclose : ∀ fd, sysCost ⟨.close fd, ()⟩ = 0)
    (fds : List OwnedFd) (o : Os) (n : ℕ) :
    (dropFds fds).wp (os.timed sysCost) (fun x => Unguarded x.1)
      (fun out x => out = .val () ∧ x = (o.closing fds, n)) (o, n) := by
  refine Prog.wp_imp (Prog.wp_timed.mpr (wp_dropFds fds o)) ?_
  rintro es out ⟨o', n'⟩ hr ha ⟨rfl, rfl⟩
  have hfree : tally sysCost es = 0 := by
    clear ha
    induction fds generalizing es with
    | nil =>
      cases hr
      rfl
    | cons fd fds ih =>
      cases hr with
      | ask hr =>
        rw [tally_cons, hclose, ih _ hr]
  obtain ⟨-, rfl⟩ := Env.accepts_timed.mp ha
  rw [hfree]
  exact ⟨rfl, rfl⟩

/-- Closing what a pipe no longer owns leaves the rest of it plugged. -/
theorem Plugged.closing (h : Plugged o p pipe) (hfds : ∀ fd ∈ pipe.fds, fd ∉ fds) :
    Plugged (o.closing fds) p pipe := by
  refine ⟨?_, ?_⟩
  · intro fd hd
    have hnot : fd ∉ fds := hfds fd (by simp [Pipe.fds, hd])
    simpa [Os.closing, OwnedFd.asFd, hnot] using h.drain fd hd
  · intro fd hf
    have hnot : fd ∉ fds := hfds fd (by simp [Pipe.fds, hf])
    simpa [Os.closing, OwnedFd.asFd, hnot] using h.fill fd hf

theorem Plugged.names (h : Plugged o p pipe) {fd : OwnedFd} (hfd : fd ∈ pipe.fds) :
    o.Names fd.asFd p := by
  simp only [Pipe.fds, List.mem_append, Option.mem_toList] at hfd
  rcases hfd with hd | hf
  · exact .inl (h.drain fd hd)
  · exact .inr (h.fill fd hf)

end Dropping

/-! ### One iteration -/

/-- Nothing but the ends of the transfer's pipe may have closed, and no other bytes have moved. -/
structure Moves (r w : BorrowedFd) (p : ℕ) (o o' : Os) : Prop extends Aside r w p o o' where
  fd : ∀ n, ¬ o.Names n p → o'.fd n = o.fd n

/-- `E` is the kernel of many, less some of its answers; seen through `Live` and the instances of
the two ends it is `K`, at the pipe's capacity. -/
structure Shows (E : Env sys Os) (K : ℕ → Env calls World) : Prop where
  le : ∀ o e o', E o e o' → os o e o'
  kernel_le : ∀ cap v e v', K cap v e v' → kernel cap v e v'
  seen : ∀ o (r w : AsyncFd) p pipe e o', Rigged o r.asFd w.asFd p pipe →
    (E.through (implement r w pipe)) o e o' →
      K (o.capacity p) (o.world r.asFd w.asFd p) e (o'.world r.asFd w.asFd p)

/-- What a call of the loop costs, the system calls behind it cost; closing is free. -/
structure Meters (sysCost : Event sys → ℕ) (cost : Event calls → ℕ) : Prop where
  implement : ∀ r w pipe c a es, (implement r w pipe c).Run es (.val a) →
    tally sysCost es = cost ⟨c, a⟩
  close : ∀ fd, sysCost ⟨.close fd, ()⟩ = 0

theorem meters_zero : Meters (fun _ => 0) fun _ => 0 := by
  refine ⟨?_, fun _ => rfl⟩
  intro _ _ _ _ _ es _
  simp [tally]

/-- A transfer under way: a run of the loop has led from `start` in `w₀` to `io`, and left `n` of
the fuel. -/
structure Carries (K : ℕ → Env calls World) (fuel : ℕ) (start : SpliceCtx) (w₀ : World)
    (r w : BorrowedFd) (p n : ℕ) (io : SpliceIo) (o : Os) : Prop where
  rigged : Rigged o r w p io.splicer.pipe
  run : ∃ ts, ts.length + n = fuel ∧ Runs SpliceIo.loopBody (K (o.capacity p)) Unready
    (.ofCtx start) w₀ ts io (o.world r w p)

section Iterations

variable {E : Env sys Os} {K : ℕ → Env calls World}
  {C : SpliceIo → World → Turn calls (IoResult Unit) → Prop} {start : SpliceCtx} {w₀ : World}
  {r w : AsyncFd} {p : ℕ} {pipe : Pipe} {io io' : SpliceIo} {o o' o'' : Os}
  {es : List (Event calls)} {t : Turn calls (IoResult Unit)} {c : Call} {sysCost : Event sys → ℕ}
  {cost : Event calls → ℕ} {n n' : ℕ}

theorem Moves.refl (r w : BorrowedFd) (p : ℕ) (o : Os) : Moves r w p o o :=
  ⟨.refl r w p o, fun _ _ => rfl⟩

theorem Aside.trans {r w : BorrowedFd} (h : Aside r w p o o') (h' : Aside r w p o' o'') :
    Aside r w p o o'' :=
  ⟨h'.capacity.trans h.capacity, fun q hq => (h'.pipe q hq).trans (h.pipe q hq),
    fun n hn => (h'.source n hn).trans (h.source n hn),
    fun n hn => (h'.sink n hn).trans (h.sink n hn)⟩

theorem Quiet.aside {r w : BorrowedFd} (h : Quiet o o') : Aside r w p o o' :=
  ⟨h.capacity, fun q _ => congrFun h.pipe q, fun n _ => congrFun h.source n,
    fun n _ => congrFun h.sink n⟩

theorem Quiet.world {r w : BorrowedFd} (h : Quiet o o') : o'.world r w p = o.world r w p := by
  simp only [Os.world, h.source, h.pipe, h.sink]

theorem Moves.trans {r w : BorrowedFd} (h : Moves r w p o o') (h' : Moves r w p o' o'') :
    Moves r w p o o'' := by
  refine ⟨h.toAside.trans h'.toAside, ?_⟩
  intro n hn
  have hfd := h.fd n hn
  have hn' : ¬ o'.Names n p := by simpa [Os.Names, hfd] using hn
  exact (h'.fd n hn').trans hfd

theorem Beside.moves {r w : BorrowedFd} (h : Beside r w p o o') : Moves r w p o o' :=
  ⟨h.toAside, fun n _ => congrFun h.fd n⟩

theorem Rigged.congr {r w : BorrowedFd} (h : Rigged o r w p pipe) (hfd : o'.fd = o.fd) :
    Rigged o' r w p pipe :=
  ⟨⟨by rw [hfd]; exact h.reader, by rw [hfd]; exact h.writer⟩,
    ⟨by rw [hfd]; exact h.drain, by rw [hfd]; exact h.fill⟩⟩

theorem Plugged.shrinks {pipe' : Pipe} (h : Plugged o p pipe) (hs : pipe.Shrinks pipe') :
    Plugged o p pipe' := by
  rcases hs with rfl | rfl | rfl
  · exact h
  · exact ⟨h.drain, by simp⟩
  · exact ⟨by simp, h.fill⟩

theorem moves_closing {r w : BorrowedFd} {fds : List OwnedFd}
    (hfds : ∀ fd ∈ fds, o.Names fd.asFd p) : Moves r w p o (o.closing fds) := by
  refine ⟨quiet_closing.aside, ?_⟩
  intro n hn
  have hnot : (⟨n⟩ : OwnedFd) ∉ fds := fun h => hn (hfds ⟨n⟩ h)
  simp [Os.closing, hnot]

theorem Ends.moves {r w r' w' : BorrowedFd} (h : Ends o r w) (hm : Moves r' w' p o o') :
    Ends o' r w := by
  have hkept {n : BorrowedFd} (hn : o.fd n = some .other) : o'.fd n = some .other := by
    have hnames : ¬ o.Names n p := by simp [Os.Names, hn]
    exact (hm.fd n hnames).trans hn
  exact ⟨hkept h.reader, hkept h.writer⟩

/-- A whole iteration on the kernel of many is one on the kernel of the transfer, and takes as
long. -/
theorem accepts_through_os (hE : Shows E K) (hcost : Meters sysCost cost)
    (hrig : Rigged o r.asFd w.asFd p pipe)
    (h : ((E.timed sysCost).through (implement r w pipe)).Accepts (o, n) es (o', n')) :
    (K (o.capacity p)).Accepts (o.world r.asFd w.asFd p) es (o'.world r.asFd w.asFd p) ∧
      n' = n + tally cost es ∧ Beside r.asFd w.asFd p o o' := by
  induction es generalizing o n with
  | nil =>
    cases h
    exact ⟨rfl, rfl, .refl _ _ _ _⟩
  | cons e es ih =>
    obtain ⟨⟨o₁, n₁⟩, ⟨es₁, hr, htimed⟩, h⟩ := h
    obtain ⟨ha, rfl⟩ := Env.accepts_timed.mp htimed
    have he : (E.through (implement r w pipe)) o e o₁ := ⟨es₁, hr, ha⟩
    obtain ⟨-, hb⟩ := through_os hrig (Env.through_mono hE.le he)
    obtain ⟨hks, rfl, hbs⟩ := ih (hrig.congr hb.fd) h
    rw [hb.capacity] at hks
    refine ⟨⟨_, hE.seen _ _ _ _ _ _ _ hrig he, hks⟩, ?_, hb.toAside.trans hbs.toAside,
      hbs.fd.trans hb.fd⟩
    rw [hcost.implement _ _ _ _ _ _ hr, tally_cons, Nat.add_assoc]

theorem implement_returns {X : Type} {F : Env sys X} {G : X → SysCall → Prop} {x : X}
    (hG : ∀ x c, G x c) (hask : Asks io c) :
    (implement r w io.splicer.pipe c).wp F G Prog.Returns x := by
  cases c with
  | pollReadReady | tryIoRead =>
    cases r with
    | socket fd => exact ⟨hG _ _, fun a _ _ => ⟨a, rfl⟩⟩
    | file fd => exact ⟨_, rfl⟩
  | pollWriteReady | tryIoWrite =>
    cases w with
    | socket fd => exact ⟨hG _ _, fun a _ _ => ⟨a, rfl⟩⟩
    | file fd => exact ⟨_, rfl⟩
  | spliceIn offIn maxLen =>
    obtain ⟨-, hopen, -⟩ := hask
    obtain ⟨fd, hf⟩ := Pipe.fill_of_open hopen
    simp only [implement, hf]
    exact ⟨hG _ _, fun a _ _ => ⟨_, rfl⟩⟩
  | spliceOut offOut maxLen =>
    obtain ⟨-, hopen, -⟩ := hask
    obtain ⟨fd, hd⟩ := Pipe.drain_of_open hopen
    simp only [implement, hd]
    exact ⟨hG _ _, fun a _ _ => ⟨_, rfl⟩⟩
  | pollShutdown => exact ⟨hG _ _, fun a _ _ => ⟨a, rfl⟩⟩

/-- Against a kernel that moves no more than it is asked to, one panic is left. -/
theorem Counted.crash {why : Panic} (h : Counted io) (hb : ∀ e ∈ es, Bounded e)
    (hc : Crash io es why) :
    es = [⟨.pollReadReady, .ready (.ok ())⟩, ⟨.tryIoRead, .callInner⟩] ∧ why = .closedFd := by
  have hw := h.written_le
  have hr := h.read_le
  have ht := h.target_le
  cases hc with
  | fillUnderflow hs hlt => omega
  | fillClosed => exact ⟨rfl, rfl⟩
  | @fillOverflow n off hs hlt hfd hmax =>
    have hn : n + 1 ≤ io.splicer.sizeToSplice - io.splicer.bytesRead := by simpa [Bounded] using hb
    omega
  | drainUnderflow hs hlt => omega
  | drainClosed hs hlt hfd => cases hs.symm.trans (h.drained hfd)
  | @drainOverflow n off hs hlt hfd hmax =>
    have hn : n + 1 ≤ io.splicer.bytesRead - io.splicer.bytesWritten := by
      simpa [Bounded] using hb
    omega

theorem Shows.bounded {cap : ℕ} {v v' : World} {e : Event calls} (hE : Shows E K)
    (h : K cap v e v') : Bounded e :=
  kernel_bounded (hE.kernel_le _ _ _ _ h)

/-- The panic that is left moves no bytes. -/
theorem Counted.crash_world {cap : ℕ} {v v' : World} {why : Panic} (h : Counted io)
    (hc : Crash io es why) (ha : (kernel cap).Accepts v es v') : v' = v := by
  obtain ⟨rfl, -⟩ := h.crash (ha.forall fun _ _ _ => kernel_bounded) hc
  obtain ⟨v₁, rfl, v₂, rfl, hv⟩ := ha
  exact hv

/-- What an iteration leaves is what one of the loop over the traits leaves, a panic included; the
events `es` of a completed one satisfy `P`. -/
def Goes (K : ℕ → Env calls World) (P : List (Event calls) → Prop) (r w : BorrowedFd) (p : ℕ)
    (io : SpliceIo) (o : Os) : Outcome sys (SpliceIo × Flow (IoResult Unit)) → Os → Prop
  | .val (io', flow), o' => Rigged o' r w p io'.splicer.pipe ∧ Moves r w p o o' ∧
      ∃ es, Iteration io ⟨es, flow⟩ io' ∧
        (K (o.capacity p)).Accepts (o.world r w p) es (o'.world r w p) ∧ P es
  | .fault why, o' => Aside r w p o o' ∧ ∃ es, Crash io es why ∧
      (K (o.capacity p)).Accepts (o.world r w p) es (o'.world r w p)

theorem wp_liveBody_timed (hE : Shows E K) (hcost : Meters sysCost cost)
    (release : SpliceIo → Prog sys Unit) (hrig : Rigged o r.asFd w.asFd p io.splicer.pipe)
    (hrelease : ∀ o, (release io).wp os Unguarded (fun out o' => out = .val () ∧ Quiet o o') o) :
    (SpliceIo.liveBody r w release io).wp (E.timed sysCost) (fun x => Unguarded x.1)
      (fun out x => Goes K (fun es => x.2 = n + tally cost es) r.asFd w.asFd p io o out x.1)
      (o, n) := by
  have hle : ∀ x e x', (E.timed sysCost) x e x' → (os.timed sysCost) x e x' :=
    fun _ _ _ he => ⟨hE.le _ _ _ he.1, he.2⟩
  refine Prog.wp_bind.mpr (Prog.wp_unwind (Prog.wp_interp ?_))
  refine Prog.wp_guard (wp_loopBody ?_ ?_) fun x c hask =>
    implement_returns (fun _ _ => trivial) hask
  · rintro t io' ⟨o₁, n₁⟩ hi ha
    obtain ⟨hk, rfl, hb⟩ := accepts_through_os hE hcost hrig ha
    have hrig₁ := hrig.congr hb.fd
    refine Prog.wp_bind.mpr
      (Prog.wp_mono (Prog.wp_env (wp_dropFds_timed hcost.close _ o₁ _) hle) ?_)
    rintro out _ ⟨rfl, rfl⟩
    have hlost : ∀ fd ∈ io.splicer.pipe.fds.filter (fun fd => fd ∉ io'.splicer.pipe.fds),
        o₁.Names fd.asFd p := fun fd hfd => hrig₁.toPlugged.names (List.mem_of_mem_filter hfd)
    have hclosing := moves_closing (r := r.asFd) (w := w.asFd) hlost
    refine ⟨⟨hrig₁.toEnds.moves hclosing, ?_⟩, hb.moves.trans hclosing, t.events, hi, ?_, rfl⟩
    · refine (hrig₁.toPlugged.shrinks hi.shrinks).closing ?_
      intro fd hfd hmem
      simpa [hfd] using List.of_mem_filter hmem
    · rw [quiet_closing.world]
      exact hk
  · rintro es why ⟨o₁, n₁⟩ hcrash ha
    obtain ⟨hk, -, hb⟩ := accepts_through_os hE hcost hrig ha
    refine Prog.wp_mono (Prog.wp_timed.mpr (Prog.wp_env (hrelease o₁) hE.le)) ?_
    rintro out ⟨o₂, n₂⟩ ⟨rfl, hq⟩
    rw [← hq.world] at hk
    exact ⟨hb.toAside.trans hq.aside, es, hcrash, hk⟩

theorem wp_liveBody_os (hE : Shows E K) (release : SpliceIo → Prog sys Unit)
    (hrig : Rigged o r.asFd w.asFd p io.splicer.pipe)
    (hrelease : ∀ o, (release io).wp os Unguarded (fun out o' => out = .val () ∧ Quiet o o') o) :
    (SpliceIo.liveBody r w release io).wp E Unguarded
      (Goes K (fun _ => True) r.asFd w.asFd p io o) o := by
  have htimed := wp_liveBody_timed (n := 0) hE meters_zero release hrig hrelease
  refine Prog.wp_timed.mp (Prog.wp_mono htimed ?_)
  rintro (⟨io', flow⟩ | why) x hgoes
  · obtain ⟨hrig', hm, es, hi, hk, -⟩ := hgoes
    exact ⟨hrig', hm, es, hi, hk, trivial⟩
  · exact hgoes

end Iterations

/-! ### One direction -/

/-- How far an awaited transfer has come, whatever stopped it. -/
def Reached (K : ℕ → Env calls World) (fuel : ℕ) (start : SpliceCtx) (w₀ : World)
    (r w : BorrowedFd) (p : ℕ) (o : Os)
    (out : Outcome sys (Option (SpliceIo × Completion (IoResult Unit)))) (o' : Os) : Prop :=
  Aside r w p o o' ∧
    (∃ ts io, Runs SpliceIo.loopBody (K (o.capacity p)) Always (.ofCtx start) w₀ ts io
      (o'.world r w p)) ∧
    Simulates (Machine.await SpliceIo.loopBody fuel (.ofCtx start)) (K (o.capacity p)) w₀
      (o'.world r w p) (out.map (Option.map fun x => x.2.map (x.1, ·))) id

/-- The same of `execute`. -/
def Executes (K : ℕ → Env calls World) (fuel : ℕ) (start : SpliceCtx) (w₀ : World)
    (r w : BorrowedFd) (p : ℕ) (o : Os) (out : Outcome sys (Option (Completion TransferReport)))
    (o' : Os) : Prop :=
  Aside r w p o o' ∧
    (∃ ts io, Runs SpliceIo.loopBody (K (o.capacity p)) Always (.ofCtx start) w₀ ts io
      (o'.world r w p)) ∧
    Simulates (SpliceIo.execute fuel (.ofCtx start)) (K (o.capacity p)) w₀ (o'.world r w p)
      out id

section OneDirection

variable {E : Env sys Os} {F : Env calls World} {K : ℕ → Env calls World} {start : SpliceCtx}
  {w₀ w' : World} {r w : AsyncFd} {p n fuel : ℕ} {io io' : SpliceIo} {o o' : Os}
  {t : Turn calls (IoResult Unit)}

/-- `execute` reports what it has awaited. -/
theorem simulates_report {out : Outcome sys (Option (SpliceIo × Completion (IoResult Unit)))}
    (h : Simulates (Machine.await SpliceIo.loopBody fuel io) F w₀ w'
      (out.map (Option.map fun x => x.2.map (x.1, ·))) id) :
    Simulates (SpliceIo.execute fuel io) F w₀ w'
      (out.map (Option.map fun x => x.2.map x.1.report)) id := by
  have hwrap : Simulates (SpliceIo.execute fuel io) F w₀ w'
      ((out.map (Option.map fun x => x.2.map (x.1, ·))).map
        (Option.map (Completion.map fun x => x.1.report x.2))) id :=
    h.wrap (fun _ => rfl) rfl
  rcases out with (_ | ⟨io', _ | _⟩) | why <;> exact hwrap

theorem Carries.counted {r w : BorrowedFd} (h : Carries K fuel start w₀ r w p n io o)
    (hE : Shows E K) (hfresh : Fresh start) : Counted io := by
  obtain ⟨ts, -, hr⟩ := h.run
  exact run_counted (fun _ _ _ => hE.bounded) hr hfresh.counted

theorem Carries.step {r w : BorrowedFd} (h : Carries K fuel start w₀ r w p (n + 1) io o)
    (hrig : Rigged o' r w p io'.splicer.pipe) (hm : Moves r w p o o') (hi : Iteration io t io')
    (hk : (K (o.capacity p)).Accepts (o.world r w p) t.events (o'.world r w p))
    (ht : t.flow.ready? = none) : Carries K fuel start w₀ r w p n io' o' := by
  obtain ⟨ts, hn, hr⟩ := h.run
  refine ⟨hrig, ts ++ [t], ?_, ?_⟩
  · rw [List.length_append, List.length_singleton]
    omega
  · rw [hm.capacity]
    exact hr.snoc (step_iff.mpr hi) hk ht

theorem Carries.dropped {r w : BorrowedFd} {o₀ : Os} (h : Carries K fuel start w₀ r w p n io o)
    (hm : Moves r w p o₀ o) :
    Reached K fuel start w₀ r w p o₀ (.val (some (io, .dropped))) o := by
  obtain ⟨ts, -, hr⟩ := h.run
  rw [hm.capacity] at hr
  exact ⟨hm.toAside, ⟨ts, io, hr.always⟩, simulates_dropped⟩

theorem Carries.spent {r w : BorrowedFd} {o₀ : Os} (h : Carries K fuel start w₀ r w p 0 io o)
    (hm : Moves r w p o₀ o) : Reached K fuel start w₀ r w p o₀ (.val none) o := by
  obtain ⟨ts, rfl, hr⟩ := h.run
  rw [hm.capacity] at hr
  refine ⟨hm.toAside, ⟨ts, io, hr.always⟩, by rintro _ ⟨⟩, fun _ => ?_, by rintro _ ⟨⟩⟩
  exact Machine.run_iterate_append hr (.ret none) rfl

theorem Carries.returned {r w : BorrowedFd} {o₀ : Os} {res : IoResult Unit}
    (h : Carries K fuel start w₀ r w p (n + 1) io o) (hm : Moves r w p o₀ o)
    (hm' : Moves r w p o o') (hi : Iteration io t io') (ht : t.flow = .done (.ready res))
    (hk : (K (o.capacity p)).Accepts (o.world r w p) t.events (o'.world r w p)) :
    Reached K fuel start w₀ r w p o₀ (.val (some (io', .returned res))) o' := by
  obtain ⟨ts, rfl, hr⟩ := h.run
  rw [hm.capacity] at hr hk
  refine ⟨hm.toAside.trans hm'.toAside, ⟨ts ++ [t], io', ?_⟩, ?_, by rintro ⟨⟩, by rintro _ ⟨⟩⟩
  · exact hr.always.snoc (step_iff.mpr hi) hk trivial
  · rintro _ ⟨⟩
    have hexit := Machine.run_iterate_exit (n := n) (step_iff.mpr hi) (Flow.ready?_eq_some.mpr ht)
    exact Machine.run_iterate_append hr hexit hk

theorem Carries.crashed {r w : BorrowedFd} {o₀ : Os} {es : List (Event calls)} {why : Panic}
    (h : Carries K fuel start w₀ r w p (n + 1) io o) (hE : Shows E K) (hfresh : Fresh start)
    (hm : Moves r w p o₀ o) (ha : Aside r w p o o') (hc : Crash io es why)
    (hk : (K (o.capacity p)).Accepts (o.world r w p) es (o'.world r w p)) :
    Reached K fuel start w₀ r w p o₀ (.fault why) o' := by
  have hsame := (h.counted hE hfresh).crash_world hc (hk.mono (hE.kernel_le _))
  obtain ⟨ts, rfl, hr⟩ := h.run
  rw [hm.capacity] at hr hk
  refine ⟨hm.toAside.trans ha, ⟨ts, io, ?_⟩, by rintro _ ⟨⟩, by rintro ⟨⟩, ?_⟩
  · rw [hsame]
    exact hr.always
  · rintro _ ⟨⟩
    exact Machine.run_iterate_append hr (Machine.run_iterate_panic (panics_iff.mpr hc)) hk

theorem wp_await_os (hE : Shows E K) (hfresh : Fresh start)
    (hc : Carries K fuel start w₀ r.asFd w.asFd p fuel io o) :
    (((SpliceIo.liveBody r w fun io => io.splicer.pipe.drop).future
      (sysCall .suspend)).await fuel io).wp E Unguarded
      (Reached K fuel start w₀ r.asFd w.asFd p o) o := by
  refine Machine.wp_await_future
    (fun n io o' => Carries K fuel start w₀ r.asFd w.asFd p n io o' ∧
      Moves r.asFd w.asFd p o o') ?_ ?_ ⟨hc, .refl _ _ _ _⟩
  · rintro n io o₁ ⟨hc, hm⟩
    have hdrop : ∀ o, (io.splicer.pipe.drop).wp os Unguarded
        (fun out o' => out = .val () ∧ Quiet o o') o := by
      intro o
      refine Prog.wp_mono (wp_dropFds _ o) ?_
      rintro out o' ⟨rfl, rfl⟩
      exact ⟨rfl, quiet_closing⟩
    refine Prog.wp_mono (wp_liveBody_os hE _ hc.rigged hdrop) ?_
    rintro (⟨io', _ | _ | res⟩ | why) o₂ hgoes
    · obtain ⟨hrig, hm', es, hi, hk, -⟩ := hgoes
      exact ⟨hc.step hrig hm' hi hk rfl, hm.trans hm'⟩
    · obtain ⟨hrig, hm', es, hi, hk, -⟩ := hgoes
      have hc' := hc.step hrig hm' hi hk rfl
      have hm' := hm.trans hm'
      refine ⟨trivial, ?_⟩
      rintro a o₃ he
      cases hE.le _ _ _ he
      cases a with
      | poll => exact ⟨hc', hm'⟩
      | drop => exact hc'.dropped hm'
    · obtain ⟨hrig, hm', es, hi, hk, -⟩ := hgoes
      exact hc.returned hm hm' hi rfl hk
    · obtain ⟨ha, es, hcrash, hk⟩ := hgoes
      exact hc.crashed hE hfresh hm ha hcrash hk
  · rintro io o₁ ⟨hc, hm⟩
    exact hc.spent hm

theorem wp_executeLive_os (hE : Shows E K) (hfresh : Fresh start)
    (hc : Carries K fuel start w₀ r.asFd w.asFd p fuel (.ofCtx start) o) :
    (SpliceIo.executeLive fuel r w (.ofCtx start)).wp E Unguarded
      (Executes K fuel start w₀ r.asFd w.asFd p o) o := by
  refine Prog.wp_bind.mpr (Prog.wp_mono (wp_await_os hE hfresh hc) ?_)
  rintro out o' ⟨ha, hrun, hsim⟩
  have hsim := simulates_report hsim
  rcases out with (_ | ⟨io₁, done⟩) | why
  · exact ⟨ha, hrun, hsim⟩
  · refine Prog.wp_bind.mpr (Prog.wp_mono (Prog.wp_env (wp_dropFds _ o') hE.le) ?_)
    rintro out o₂ ⟨rfl, rfl⟩
    have hworld : (o'.closing io₁.splicer.pipe.fds).world r.asFd w.asFd p =
        o'.world r.asFd w.asFd p := quiet_closing.world
    refine ⟨ha.trans quiet_closing.aside, ?_, ?_⟩
    · rwa [hworld]
    · rw [hworld]
      exact hsim
  · exact ⟨ha, hrun, hsim⟩

end OneDirection

/-! ### Construction -/

/-- The offset and the target that an accepted chain of builder calls gives. -/
def Builder.offset : Builder → Offset
  | .new => .none
  | .inputFile _ fOffsetStart _ => .input (fOffsetStart.getD 0).toNat
  | .outputFile _ fOffsetStart _ => .output (fOffsetStart.getD 0).toNat
  | .targetLen b _ => b.offset
  | .pipeSize b _ => b.offset

def Builder.target : Builder → ℕ
  | .new => isizeMax
  | .inputFile fLen fOffsetStart fOffsetEnd =>
    (fOffsetEnd.getD fLen).toNat - (fOffsetStart.getD 0).toNat
  | .outputFile fLen fOffsetStart fOffsetEnd =>
    (fOffsetEnd.getD fLen).toNat - (fOffsetStart.getD 0).toNat
  | .targetLen _ sizeToSplice => sizeToSplice.toNat
  | .pipeSize b _ => b.target

/-- Whatever was open is as it was. -/
structure Kept (o o' : Os) : Prop where
  fd : ∀ n, o.fd n ≠ none → o'.fd n = o.fd n
  pipe : ∀ q n, o.Names n q → o'.pipe q = o.pipe q
  capacity : ∀ q n, o.Names n q → o'.capacity q = o.capacity q
  source : o'.source = o.source
  sink : o'.sink = o.sink

/-- A pipe that was not there before, and is empty. -/
structure NewPipe (pipe : Pipe) (o : Os) (p : ℕ) (o' : Os) : Prop where
  isOpen : pipe.isFillDone = false ∧ pipe.isDrainDone = false
  plugged : Plugged o' p pipe
  opened : ∀ fd ∈ pipe.fds, o.fd fd.asFd = none
  unnamed : ∀ n, ¬ o.Names n p
  empty : o'.pipe p = []
  kept : Kept o o'

/-- A construction makes a new pipe, or leaves everything as it was. -/
def Constructs {α : Type} (good : α → Os → ℕ → Os → Prop) (o : Os) :
    Outcome sys (IoResult α) → Os → Prop
  | .val (.ok a), o' => ∃ p, good a o p o'
  | .val (.error _), o' => Kept o o'
  | .fault _, _ => False

section Building

variable {o o' o'' : Os} {p : ℕ} {pipe : Pipe} {b : Builder} {drainFd fillFd : OwnedFd}

theorem Kept.refl (o : Os) : Kept o o :=
  ⟨fun _ _ => rfl, fun _ _ _ => rfl, fun _ _ _ => rfl, rfl, rfl⟩

theorem Kept.closing {fds : List OwnedFd} (h : Kept o o')
    (hfds : ∀ fd ∈ fds, o.fd fd.asFd = none) : Kept o (o'.closing fds) := by
  refine ⟨?_, h.pipe, h.capacity, h.source, h.sink⟩
  intro n hn
  have hnot : (⟨n⟩ : OwnedFd) ∉ fds := fun hmem => hn (hfds _ hmem)
  simpa [Os.closing, hnot] using h.fd n hn

theorem Kept.resized (h : Kept o o') (hp : ∀ n, ¬ o.Names n p) (cap : ℕ) :
    Kept o { o' with capacity := update o'.capacity p cap } := by
  refine ⟨h.fd, h.pipe, ?_, h.source, h.sink⟩
  intro q n hq
  have hne : q ≠ p := by
    rintro rfl
    exact hp n hq
  simpa [update_of_ne hne] using h.capacity q n hq

theorem Plugged.names_unique {q : ℕ} {fd : OwnedFd} (h : Plugged o p pipe) (hfd : fd ∈ pipe.fds)
    (hq : o.Names fd.asFd q) : q = p := by
  have hp := h.names hfd
  simp only [Os.Names] at hp hq
  rcases hp with hp | hp <;> rcases hq with hq | hq <;> rw [hp] at hq <;> cases hq <;> rfl

/-- The pipe that `pipe2(2)` has just made, before its size is known. -/
structure Raw (drainFd fillFd : OwnedFd) (o : Os) (p : ℕ) (o' : Os) : Prop where
  drain : o'.fd drainFd.asFd = some (.drainEnd p)
  fill : o'.fd fillFd.asFd = some (.fillEnd p)
  free : o.fd drainFd.asFd = none ∧ o.fd fillFd.asFd = none
  unnamed : ∀ n, ¬ o.Names n p
  empty : o'.pipe p = []
  kept : Kept o o'

theorem Raw.abandon (h : Raw drainFd fillFd o p o') (e : IoError) :
    (Pipe.abandon drainFd fillFd e).wp os Unguarded (Constructs NewPipe o) o' := by
  refine Prog.wp_bind.mpr (Prog.wp_mono (wp_dropFds _ o') ?_)
  rintro out o₁ ⟨rfl, rfl⟩
  refine h.kept.closing ?_
  intro fd hfd
  rcases List.mem_pair.mp hfd with rfl | rfl
  · exact h.free.2
  · exact h.free.1

theorem Raw.sized (h : Raw drainFd fillFd o p o') (n : ℕ) :
    (Pipe.sized drainFd fillFd n).wp os Unguarded (Constructs NewPipe o) o' := by
  unfold Pipe.sized
  split
  · refine ⟨p, ⟨rfl, rfl⟩, ⟨?_, ?_⟩, ?_, h.unnamed, h.empty, h.kept⟩
    · rintro fd ⟨⟩
      exact h.drain
    · rintro fd ⟨⟩
      exact h.fill
    · intro fd hfd
      rcases List.mem_pair.mp hfd with rfl | rfl
      · exact h.free.1
      · exact h.free.2
  · exact h.abandon _

theorem Raw.names_unique (h : Raw drainFd fillFd o p o') {q : ℕ}
    (hq : o'.Names drainFd.asFd q) : q = p := by
  rcases hq with hq | hq <;> cases h.drain.symm.trans hq
  rfl

theorem Raw.resized (h : Raw drainFd fillFd o p o') (cap : ℕ) :
    Raw drainFd fillFd o p { o' with capacity := update o'.capacity p cap } :=
  ⟨h.drain, h.fill, h.free, h.unnamed, h.empty, h.kept.resized h.unnamed cap⟩

theorem raw_pipeWith (hd : o.fd drainFd.asFd = none) (hf : o.fd fillFd.asFd = none)
    (hne : drainFd ≠ fillFd) (hp : ∀ n, ¬ o.Names n p) (cap : ℕ) :
    Raw drainFd fillFd o p { o with
      fd := update (update o.fd drainFd.asFd (some (.drainEnd p))) fillFd.asFd (some (.fillEnd p))
      pipe := update o.pipe p []
      capacity := update o.capacity p cap } := by
  have hraw : drainFd.asFd ≠ fillFd.asFd := by
    intro h
    apply hne
    cases drainFd
    cases fillFd
    cases h
    rfl
  have hother {q n : ℕ} (hq : o.Names n q) : q ≠ p := by
    rintro rfl
    exact hp n hq
  refine ⟨?_, ?_, ⟨hd, hf⟩, hp, update_self _ _ _, ⟨?_, ?_, ?_, rfl, rfl⟩⟩
  · simp [update_of_ne hraw]
  · simp
  · intro n hn
    have hnd : n ≠ drainFd.asFd := fun h => hn (h ▸ hd)
    have hnf : n ≠ fillFd.asFd := fun h => hn (h ▸ hf)
    simp [update_of_ne hnd, update_of_ne hnf]
  · intro q n hq
    exact update_of_ne (hother hq) _ _
  · intro q n hq
    exact update_of_ne (hother hq) _ _

theorem wp_create_os (o : Os) : Pipe.create.wp os Unguarded (Constructs NewPipe o) o := by
  refine ⟨trivial, ?_⟩
  rintro (e | ⟨drainFd, fillFd⟩) o₁ ho
  · cases ho
    exact .refl o
  obtain ⟨hd, hf, hne, p, cap, hp, rfl⟩ := ho
  have hraw := raw_pipeWith hd hf hne hp cap
  refine ⟨trivial, ?_⟩
  rintro (e | size) o₂ ho
  · cases ho
    refine ⟨trivial, ?_⟩
    rintro (e | size) o₃ ho
    · cases ho
      exact hraw.abandon e
    · obtain ⟨-, rfl⟩ := ho
      exact hraw.sized size
  · obtain ⟨q, cap', hq, -, rfl⟩ := ho
    cases hraw.names_unique hq
    exact (hraw.resized cap').sized size

theorem wp_resize_os {o₁ : Os} (h : NewPipe pipe o p o₁) (n : ℕ) :
    (pipe.resize n).wp os Unguarded
      (Constructs (fun pipe' o p o' => NewPipe pipe' o p o' ∧ ∃ size, pipe' = { pipe with size }) o)
      o₁ := by
  have hdiscard {o₁ : Os} (h : NewPipe pipe o p o₁) (e : IoError) :
      (pipe.discard e).wp os Unguarded (Constructs (fun pipe' o p o' => NewPipe pipe' o p o' ∧
        ∃ size, pipe' = { pipe with size }) o) o₁ := by
    refine Prog.wp_bind.mpr (Prog.wp_mono (wp_dropFds _ o₁) ?_)
    rintro out o₂ ⟨rfl, rfl⟩
    exact h.kept.closing h.opened
  unfold Pipe.resize
  split
  · exact hdiscard h _
  · rename_i fillFd hf
    refine ⟨trivial, ?_⟩
    rintro (e | size) o₂ ho
    · cases ho
      exact hdiscard h e
    · obtain ⟨q, cap, hq, -, rfl⟩ := ho
      have hmem : fillFd ∈ pipe.fds := by simp [Pipe.fds, hf]
      cases h.plugged.names_unique hmem hq
      have hkept := h.kept.resized h.unnamed cap
      cases hsize : NonZeroUsize.new size with
      | some size' =>
        simp only [Prog.bind, hsize]
        exact ⟨p, ⟨h.isOpen, ⟨h.plugged.drain, h.plugged.fill⟩, h.opened, h.unnamed, h.empty,
          hkept⟩, size', rfl⟩
      | none =>
        simp only [Prog.bind, hsize]
        refine Prog.wp_bind.mpr (Prog.wp_mono (wp_dropFds _ _) ?_)
        rintro out o₂ ⟨rfl, rfl⟩
        exact hkept.closing h.opened

/-- The size of an accepted range is the builder's target. -/
theorem range_target {fLen : UInt64} {fOffsetStart fOffsetEnd : Option UInt64} {size : UInt64}
    {n : ℕ} (h : Offset.calcSizeToSplice fLen fOffsetStart fOffsetEnd = .ok size)
    (hn : usizeTryFrom size = some n) :
    n = (fOffsetEnd.getD fLen).toNat - (fOffsetStart.getD 0).toNat := by
  obtain ⟨-, -, hsize⟩ := calcSizeToSplice_ok h
  rw [usizeTryFrom_eq] at hn
  cases hn
  exact hsize

/-- `with_target_len` is there for two ends that are no files. -/
def Builder.Typed : Builder → Prop
  | .new => True
  | .inputFile _ _ _ => True
  | .outputFile _ _ _ => True
  | .targetLen b _ => b.Typed ∧ b.offset = .none
  | .pipeSize b _ => b.Typed

/-- A context fit to start: nothing has moved, and offset and target are the builder's. -/
structure Primed (b : Builder) (ctx : SpliceCtx) (o : Os) (p : ℕ) (o' : Os) : Prop where
  fresh : Fresh ctx
  constructed : b.Typed → Constructed ctx
  offset : ctx.offset = b.offset
  target : ctx.sizeToSplice = b.target
  pipe : NewPipe ctx.pipe o p o'

/-- A pipe with both its ends is what `Pipe::new` returns on some kernel. -/
theorem Pipe.new_of_open (h : pipe.isFillDone = false ∧ pipe.isDrainDone = false) :
    ∃ k, Pipe.new k = .ok pipe := by
  obtain ⟨fillFd, hf⟩ := Pipe.fill_of_open h.1
  obtain ⟨drainFd, hd⟩ := Pipe.drain_of_open h.2
  obtain ⟨_, _, size⟩ := pipe
  cases hf
  cases hd
  refine ⟨⟨.ok (drainFd, fillFd), fun _ _ => .ok size, fun _ => .ok size⟩, ?_⟩
  have hsize : NonZeroUsize.new size = some size := dif_pos size.2
  simp [Pipe.new, Pipe.newSize, hsize, bind, Except.bind, Except.map]

theorem Primed.of_create {f : Pipe → SpliceCtx} {b : Builder}
    (hf : ∀ k pipe, Pipe.new k = .ok pipe → Constructed (f pipe) ∧ (f pipe).pipe = pipe ∧
      (f pipe).offset = b.offset ∧ (f pipe).sizeToSplice = b.target) (o : Os) :
    (Pipe.create >>= fun pipe => .ret (pipe.map f)).wp os Unguarded
      (Constructs (Primed b) o) o := by
  refine Prog.wp_bind.mpr (Prog.wp_mono (wp_create_os o) ?_)
  rintro ((e | pipe) | why) o₁ ho
  · exact ho
  · obtain ⟨p, hp⟩ := ho
    obtain ⟨k, hk⟩ := Pipe.new_of_open hp.isOpen
    obtain ⟨hconstructed, hpipe, hoff, htarget⟩ := hf k pipe hk
    rw [← hpipe] at hp
    exact ⟨p, hconstructed.fresh, fun _ => hconstructed, hoff, htarget, hp⟩
  · exact ho

/-- Whatever the chain of builders, the context is primed, or everything is as it was. -/
theorem wp_build_os (b : Builder) (o : Os) :
    b.build.wp os Unguarded (Constructs (Primed b) o) o := by
  induction b with
  | new => exact Primed.of_create (fun k pipe hk => ⟨.new hk, rfl, rfl, rfl⟩) o
  | inputFile fLen fOffsetStart fOffsetEnd =>
    unfold Builder.build SpliceCtx.createInputFile
    split
    · exact .refl o
    · rename_i size hsize
      split
      · exact .refl o
      · rename_i n hn
        refine Primed.of_create (fun k pipe hk => ⟨?_, rfl, rfl, range_target hsize hn⟩) o
        have hctx : SpliceCtx.withInputFile (Pipe.new k) fLen fOffsetStart fOffsetEnd =
            .ok { SpliceCtx.new pipe with
              offset := .input (fOffsetStart.getD 0).toNat, sizeToSplice := n } := by
          simp [SpliceCtx.withInputFile, hsize, hn, hk, bind, Except.bind, Except.map]
        exact .inputFile hctx
  | outputFile fLen fOffsetStart fOffsetEnd =>
    unfold Builder.build SpliceCtx.createOutputFile
    split
    · exact .refl o
    · rename_i size hsize
      split
      · exact .refl o
      · rename_i n hn
        refine Primed.of_create (fun k pipe hk => ⟨?_, rfl, rfl, range_target hsize hn⟩) o
        have hctx : SpliceCtx.withOutputFile (Pipe.new k) fLen fOffsetStart fOffsetEnd =
            .ok { SpliceCtx.new pipe with
              offset := .output (fOffsetStart.getD 0).toNat, sizeToSplice := n } := by
          simp [SpliceCtx.withOutputFile, hsize, hn, hk, bind, Except.bind, Except.map]
        exact .outputFile hctx
  | targetLen b size ih =>
    refine Prog.wp_bind.mpr (Prog.wp_mono ih ?_)
    rintro ((e | ctx) | why) o₁ ho
    · exact ho
    · obtain ⟨p, ⟨hread, hwritten, -, hfill, hdrain⟩, hconstructed, hoff, -, hpipe⟩ := ho
      refine ⟨p, ⟨hread, hwritten, toNat_le_usizeMax size, hfill, hdrain⟩, ?_, hoff, rfl, hpipe⟩
      rintro ⟨htyped, hnone⟩
      exact .targetLen (hconstructed htyped) (hoff.trans hnone) size
    · exact ho
  | pipeSize b size ih =>
    refine Prog.wp_bind.mpr (Prog.wp_mono ih ?_)
    rintro ((e | ctx) | why) o₁ ho
    · exact ho
    · obtain ⟨p, hprimed⟩ := ho
      refine Prog.wp_bind.mpr (Prog.wp_mono (wp_resize_os hprimed.pipe size) ?_)
      rintro ((e | pipe) | why) o₂ ho
      · exact ho
      · obtain ⟨q, hq, size', rfl⟩ := ho
        have hfresh := hprimed.fresh
        refine ⟨q, ⟨hfresh.read, hfresh.written, hfresh.target, hq.isOpen.1, hq.isOpen.2⟩, ?_,
          hprimed.offset, hprimed.target, hq⟩
        intro htyped
        let k : PipeKernel := ⟨.error .eio, fun _ _ => .ok size', fun _ => .error .eio⟩
        have hresize : ctx.withPipeSize k size =
            .ok { ctx with pipe := { ctx.pipe with size := size' } } := by
          obtain ⟨fillFd, hf⟩ := Pipe.fill_of_open hfresh.fill
          have hsize : NonZeroUsize.new size' = some size' := dif_pos size'.2
          simp [SpliceCtx.withPipeSize, Pipe.withPipeSize, hf, hsize, k, bind, Except.bind,
            Except.map, pure, Except.pure]
        exact .pipeSize (hprimed.constructed htyped) hresize
      · exact ho
    · exact ho

end Building

/-! ### A whole transfer -/

/-- What other transfers and processes see of a transfer that reads from `rs` and writes to `ws`. -/
structure Spares (rs ws : List BorrowedFd) (o o' : Os) : Prop where
  pipe : ∀ q n, o.Names n q → o'.pipe q = o.pipe q
  capacity : ∀ q n, o.Names n q → o'.capacity q = o.capacity q
  source : ∀ n, n ∉ rs → o'.source n = o.source n
  sink : ∀ n, n ∉ ws → o'.sink n = o.sink n

/-- A transfer is refused and moves nothing, or its outcome is that of an execution of the loop over
the traits, through a pipe that was nobody's. -/
def Transfers (K : ℕ → Env calls World) (fuel : ℕ) (b : Builder) (r w : BorrowedFd) (o : Os)
    (out : Outcome sys (Option (Completion (IoResult TransferReport)))) (o' : Os) : Prop :=
  (∃ e, out = .val (some (.returned (.error e)))) ∧ Kept o o' ∨
  ∃ (exec : Outcome sys (Option (Completion TransferReport))) (ctx : SpliceCtx) (p : ℕ),
    out = exec.map (Option.map (Completion.map .ok)) ∧ Spares [r] [w] o o' ∧
    (∀ n, ¬ o.Names n p) ∧ Fresh ctx ∧ (b.Typed → Constructed ctx) ∧ ctx.offset = b.offset ∧
      ctx.sizeToSplice = b.target ∧
    (∃ ts io, Runs SpliceIo.loopBody (K (o'.capacity p)) Always (.ofCtx ctx)
      ⟨o.source r, [], o.sink w⟩ ts io (o'.world r w p)) ∧
    Simulates (SpliceIo.execute fuel (.ofCtx ctx)) (K (o'.capacity p))
      ⟨o.source r, [], o.sink w⟩ (o'.world r w p) exec id

section Transfers

variable {E : Env sys Os} {K : ℕ → Env calls World} {o o' o'' : Os} {r w : AsyncFd} {p fuel : ℕ}
  {b : Builder} {ctx : SpliceCtx} {es : List (Event sys)}
  {out : Outcome sys (Option (Completion (IoResult TransferReport)))}

theorem Kept.ends {r w : BorrowedFd} (h : Kept o o') (hends : Ends o r w) : Ends o' r w := by
  have hkept {n : BorrowedFd} (hn : o.fd n = some .other) : o'.fd n = some .other := by
    rw [h.fd n (by simp [hn])]
    exact hn
  exact ⟨hkept hends.reader, hkept hends.writer⟩

theorem Kept.names {n q : ℕ} (h : Kept o o') (hn : o.Names n q) : o'.Names n q := by
  have hopen : o.fd n ≠ none := by rcases hn with hn | hn <;> simp [hn]
  unfold Os.Names
  rw [h.fd n hopen]
  exact hn

theorem Kept.trans (h : Kept o o') (h' : Kept o' o'') : Kept o o'' := by
  refine ⟨?_, ?_, ?_, h'.source.trans h.source, h'.sink.trans h.sink⟩
  · intro n hn
    have hfd := h.fd n hn
    exact (h'.fd n (hfd ▸ hn)).trans hfd
  · exact fun q n hn => (h'.pipe q n (h.names hn)).trans (h.pipe q n hn)
  · exact fun q n hn => (h'.capacity q n (h.names hn)).trans (h.capacity q n hn)

theorem Kept.spares {rs ws : List BorrowedFd} (h : Kept o o') : Spares rs ws o o' :=
  ⟨h.pipe, h.capacity, fun n _ => congrFun h.source n, fun n _ => congrFun h.sink n⟩

theorem NewPipe.world {pipe : Pipe} {r w : BorrowedFd} (h : NewPipe pipe o p o') :
    o'.world r w p = ⟨o.source r, [], o.sink w⟩ := by
  simp only [Os.world, h.empty, h.kept.source, h.kept.sink]

theorem NewPipe.spares {pipe : Pipe} {r w : BorrowedFd} (h : NewPipe pipe o p o')
    (ha : Aside r w p o' o'') : Spares [r] [w] o o'' := by
  have hne {q n : ℕ} (hn : o.Names n q) : q ≠ p := by
    rintro rfl
    exact h.unnamed n hn
  refine ⟨?_, ?_, ?_, ?_⟩
  · exact fun q n hn => (ha.pipe q (hne hn)).trans (h.kept.pipe q n hn)
  · intro q n hn
    rw [ha.capacity]
    exact h.kept.capacity q n hn
  · intro n hn
    rw [ha.source n (List.ne_of_not_mem_cons hn), h.kept.source]
  · intro n hn
    rw [ha.sink n (List.ne_of_not_mem_cons hn), h.kept.sink]

theorem Primed.carries {r w : BorrowedFd} (h : Primed b ctx o p o') (hends : Ends o r w) :
    Carries K fuel ctx ⟨o.source r, [], o.sink w⟩ r w p fuel (.ofCtx ctx) o' := by
  refine ⟨⟨h.pipe.kept.ends hends, h.pipe.plugged⟩, [], Nat.zero_add fuel, ?_⟩
  rw [h.pipe.world]
  exact .refl _ _

theorem wp_transfer_os (hE : Shows E K) (hends : Ends o r.asFd w.asFd) :
    (transfer fuel b r w).wp E Unguarded (Transfers K fuel b r.asFd w.asFd o) o := by
  refine Prog.wp_bind.mpr (Prog.wp_mono (Prog.wp_env (wp_build_os b o) hE.le) ?_)
  rintro ((e | ctx) | why) o₁ ho
  · exact .inl ⟨⟨e, rfl⟩, ho⟩
  · obtain ⟨p, hp⟩ := ho
    refine Prog.wp_bind.mpr (Prog.wp_mono (wp_executeLive_os hE hp.fresh (hp.carries hends)) ?_)
    rintro exec o₂ ⟨ha, hrun, hsim⟩
    rw [← ha.capacity] at hrun hsim
    have htransfers : Transfers K fuel b r.asFd w.asFd o
        (exec.map (Option.map (Completion.map .ok))) o₂ :=
      .inr ⟨exec, ctx, p, rfl, hp.pipe.spares ha, hp.pipe.unnamed, hp.fresh, hp.constructed,
        hp.offset, hp.target, hrun, hsim⟩
    cases exec <;> exact htransfers
  · exact ho.elim

theorem shows_os : Shows os kernel :=
  ⟨fun _ _ _ he => he, fun _ _ _ _ he => he, fun _ _ _ _ _ _ _ hrig he => (through_os hrig he).1⟩

/-- Every execution over the system calls, however it ends, is one of the loop over the traits,
through a pipe of its own, and has the same outcome. -/
theorem transfer_simulates (hends : Ends o r.asFd w.asFd) (h : (transfer fuel b r w).Run es out)
    (ha : os.Accepts o es o') : Transfers kernel fuel b r.asFd w.asFd o out o' :=
  Prog.wp_post (wp_transfer_os shows_os hends) h ha

/-- A file of three bytes, and a socket. -/
def Os.slicing : Os where
  fd n := if n = 5 ∨ n = 6 then some .other else none
  pipe _ := []
  capacity _ := 0
  source n := if n = 5 then .file [5, 7, 9] else .stream []
  sink _ := .stream []

/-- The second byte of the file is sent. -/
def slices : List (Event sys) := [⟨.pipeWith ⟨true, true⟩, .ok (⟨3⟩, ⟨4⟩)⟩,
  ⟨.fcntlSetpipeSize 3 MAXIMUM_PIPE_SIZE, .ok 1048576⟩,
  ⟨.splice 5 (some 1) 4 none 1 .NONBLOCK, ⟨.ok 1, some 2, none⟩⟩,
  ⟨.close ⟨4⟩, ()⟩,
  ⟨.pollWriteReady 6, .ready (.ok ())⟩, ⟨.tryIo 6 .writable, .callInner⟩,
  ⟨.splice 3 none 6 none 1 .NONBLOCK, ⟨.ok 1, none, none⟩⟩,
  ⟨.pollWriteReady 6, .ready (.ok ())⟩, ⟨.tryIo 6 .writable, .callInner⟩,
  ⟨.close ⟨3⟩, ()⟩, ⟨.pollShutdown 6, .ready (.ok ())⟩]

theorem slices_run : (sendfile 5 5 6 3 (some 1) (some 2)).Run slices
    (.val (some (.returned (.ok ⟨1, 0, none⟩)))) :=
  .ask (.ask (.ask (.ask (.ask (.ask (.ask (.ask (.ask (.ask (.ask (.ret _)))))))))))

theorem slices_accepted : ∃ o', os.Accepts .slicing slices o' := by
  have hnew : ∀ n, ¬ Os.slicing.Names n 0 := by
    intro n
    simp only [Os.Names, Os.slicing]
    split <;> simp
  exact ⟨_, _, ⟨rfl, rfl, by decide, 0, 65536, hnew, rfl⟩,
    _, ⟨0, 1048576, .inl rfl, Nat.zero_le _, rfl⟩,
    _, .inl ⟨⟨0, _, _, rfl, ⟨_, rfl, by decide, by decide, by decide, by decide, rfl, rfl⟩, rfl⟩,
      rfl⟩, _, rfl, _, rfl, _, rfl,
    _, .inr (.inl ⟨⟨0, _, _, rfl, ⟨by decide, by decide, rfl, _, rfl, rfl⟩, rfl⟩, rfl⟩),
    _, rfl, _, rfl, _, rfl, _, rfl, rfl⟩

theorem transfer_simulates_slices : ∃ o', os.Accepts .slicing slices o' ∧
    Transfers kernel 5 (.inputFile 3 (some 1) (some 2)) 5 6 .slicing
      (.val (some (.returned (.ok ⟨1, 0, none⟩)))) o' := by
  obtain ⟨o', ha⟩ := slices_accepted
  exact ⟨o', ha, transfer_simulates (r := .file 5) (w := .socket 6) ⟨rfl, rfl⟩ slices_run ha⟩

end Transfers

end Splicer
