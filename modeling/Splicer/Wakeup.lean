import Splicer.Asks
import Splicer.Entry

/-! A transfer that suspends has left a waker behind. -/
namespace Splicer

open Interaction

/-- The answers after which tokio wakes the task: only a socket makes a transfer wait. -/
inductive Registers : AsyncFd → AsyncFd → Event sys → Prop
  | read {fd : BorrowedFd} {w : AsyncFd} : Registers (.socket fd) w ⟨.pollReadReady fd, .pending⟩
  | write {r : AsyncFd} {fd : BorrowedFd} : Registers r (.socket fd) ⟨.pollWriteReady fd, .pending⟩
  | shutdown {r w : AsyncFd} : Registers r w ⟨.pollShutdown w.asFd, .pending⟩

/-- The answers that end a call of one direction, and what the call returns. -/
inductive Stops : AsyncFd → AsyncFd → Event sys → Poll (IoResult Unit) → Prop
  | pending {r w : AsyncFd} {e : Event sys} (h : Registers r w e) : Stops r w e .pending
  | read {fd : BorrowedFd} {w : AsyncFd} {e : IoError} :
    Stops (.socket fd) w ⟨.pollReadReady fd, .ready (.error e)⟩ (.ready (.error e))
  | write {r : AsyncFd} {fd : BorrowedFd} {e : IoError} :
    Stops r (.socket fd) ⟨.pollWriteReady fd, .ready (.error e)⟩ (.ready (.error e))
  | shutdown {r w : AsyncFd} {a : IoResult Unit} {res : IoResult Unit} :
    Stops r w ⟨.pollShutdown w.asFd, .ready a⟩ (.ready res)

/-- Every call but the one that returns to the executor. -/
def Awake (c : SysCall) : Prop := c ≠ .suspend

/-- An iteration that ends the call makes one system call, whose answer has ended it. -/
def Halts (r w : AsyncFd) (h : List (Event sys)) :
    Outcome sys (SpliceIo × Flow (IoResult Unit)) → List (Event sys) → Prop
  | .val (_, .again), _ => True
  | .val (_, .done ret), h' => ∃ e, h' = h ++ [e] ∧ Stops r w e ret
  | .fault _, _ => True

/-- The last event of the call that has returned `ret`; it has not been to the executor before. -/
def Stopped (r w : AsyncFd) (h : List (Event sys)) {S : Type} :
    Outcome sys (Option (S × Poll (IoResult Unit))) → List (Event sys) → Prop
  | .val (some (_, ret)), h' => ∃ es e, h' = h ++ es ++ [e] ∧ (∀ e ∈ es, Awake e.call) ∧
      Stops r w e ret
  | _, _ => True

/-- A suspension comes right after an answer that wakes the task again. -/
def Woken (r w : AsyncFd) (h : List (Event sys)) (c : SysCall) : Prop :=
  c = .suspend → ∃ h' e, h = h' ++ [e] ∧ Registers r w e

/-- A suspension of both directions comes after both have been stopped since the last one, and one
of them by an answer that wakes the task again. -/
def WokenBoth (sl sr : AsyncFd) (h : List (Event sys)) (c : SysCall) : Prop :=
  c = .suspend → ∃ h' es e₁ e₂ ret₁ ret₂, h = h' ++ [e₁] ++ es ++ [e₂] ∧
    (∀ e ∈ es, e.call ≠ .suspend) ∧ Stops sl sr e₁ ret₁ ∧ Stops sr sl e₂ ret₂ ∧
      (Registers sl sr e₁ ∨ Registers sr sl e₂)

section OneDirection

variable {r w : AsyncFd} {pipe : Pipe} {io : SpliceIo} {c : Call} {h h' : List (Event sys)}
  {ret : Poll (IoResult Unit)}

theorem implement_awake (hask : Asks io c) :
    (implement r w io.splicer.pipe c).wp Env.history (fun _ => Awake) Prog.Returns h := by
  cases c with
  | pollReadReady | tryIoRead =>
    cases r with
    | socket fd => exact ⟨by rintro ⟨⟩, fun a _ _ => ⟨a, rfl⟩⟩
    | file fd => exact ⟨_, rfl⟩
  | pollWriteReady | tryIoWrite =>
    cases w with
    | socket fd => exact ⟨by rintro ⟨⟩, fun a _ _ => ⟨a, rfl⟩⟩
    | file fd => exact ⟨_, rfl⟩
  | spliceIn offIn maxLen =>
    obtain ⟨-, hopen, -⟩ := hask
    obtain ⟨fd, hf⟩ := Pipe.fill_of_open hopen
    simp only [implement, hf]
    exact ⟨by rintro ⟨⟩, fun a _ _ => ⟨_, rfl⟩⟩
  | spliceOut offOut maxLen =>
    obtain ⟨-, hopen, -⟩ := hask
    obtain ⟨fd, hd⟩ := Pipe.drain_of_open hopen
    simp only [implement, hd]
    exact ⟨by rintro ⟨⟩, fun a _ _ => ⟨_, rfl⟩⟩
  | pollShutdown => exact ⟨by rintro ⟨⟩, fun a _ _ => ⟨a, rfl⟩⟩

theorem wp_dropFds_awake (fds : List OwnedFd) :
    (dropFds fds).wp Env.history (fun _ => Awake)
      (fun out h' => out = .val () ∧ (fds = [] → h' = h)) h := by
  induction fds generalizing h with
  | nil => exact ⟨rfl, fun _ => rfl⟩
  | cons fd fds ih =>
    refine ⟨by rintro ⟨⟩, fun a h' _ => Prog.wp_mono ih ?_⟩
    rintro out h'' ⟨rfl, -⟩
    exact ⟨rfl, by rintro ⟨⟩⟩

/-- The last answer of a call of the loop, as tokio gave it. -/
theorem stops_of_checked {s : TransferState} {a : Poll (IoResult Unit)}
    (hh : (Env.history.through (implement r w pipe)) h (checked s a) h')
    (ha : a = .pending ∧ ret = .pending ∨
      ∃ e, a = .ready (.error e) ∧ ret = .ready (.error e)) :
    ∃ e, h' = h ++ [e] ∧ Stops r w e ret := by
  obtain ⟨es, hr, hes⟩ := hh
  rw [Env.accepts_history.mp hes]
  cases s with
  | fill =>
    cases r with
    | socket fd =>
      rw [run_sysCall hr]
      refine ⟨_, rfl, ?_⟩
      rcases ha with ⟨rfl, rfl⟩ | ⟨e, rfl, rfl⟩
      · exact .pending .read
      · exact .read
    | file fd => rcases ha with ⟨rfl, -⟩ | ⟨e, rfl, -⟩ <;> cases hr
  | drain =>
    cases w with
    | socket fd =>
      rw [run_sysCall hr]
      refine ⟨_, rfl, ?_⟩
      rcases ha with ⟨rfl, rfl⟩ | ⟨e, rfl, rfl⟩
      · exact .pending .write
      · exact .write
    | file fd => rcases ha with ⟨rfl, -⟩ | ⟨e, rfl, -⟩ <;> cases hr
  | finished error =>
    rw [run_sysCall hr]
    refine ⟨_, rfl, ?_⟩
    rcases ha with ⟨rfl, rfl⟩ | ⟨e, rfl, rfl⟩
    · exact .pending .shutdown
    · exact .shutdown

theorem stops_of_shutdown {res : IoResult Unit}
    (hh : (Env.history.through (implement r w pipe)) h ⟨.pollShutdown, .ready (.ok ())⟩ h') :
    ∃ e, h' = h ++ [e] ∧ Stops r w e (.ready res) := by
  obtain ⟨es, hr, hes⟩ := hh
  rw [Env.accepts_history.mp hes, run_sysCall hr]
  exact ⟨_, rfl, .shutdown⟩

theorem Iteration.stops {t : Turn calls (IoResult Unit)} {io' : SpliceIo}
    (hi : Iteration io t io') (ht : t.flow = .done ret)
    (ha : (Env.history.through (implement r w pipe)).Accepts h t.events h') :
    io'.splicer.pipe = io.splicer.pipe ∧ ∃ e, h' = h ++ [e] ∧ Stops r w e ret := by
  cases hi with
  | pending =>
    cases ht
    obtain ⟨h₁, hh, rfl⟩ := ha
    exact ⟨rfl, stops_of_checked hh (.inl ⟨rfl, rfl⟩)⟩
  | failed e =>
    cases ht
    obtain ⟨h₁, hh, rfl⟩ := ha
    exact ⟨rfl, stops_of_checked hh (.inr ⟨e, rfl, rfl⟩)⟩
  | fill | drain => cases ht
  | clean | fault =>
    cases ht
    obtain ⟨h₁, hh, rfl⟩ := ha
    exact ⟨rfl, stops_of_shutdown hh⟩

theorem wp_liveBody_halts (release : SpliceIo → Prog sys Unit)
    (hrelease : ∀ h, (release io).wp Env.history (fun _ => Awake) (fun out _ => out = .val ()) h) :
    (SpliceIo.liveBody r w release io).wp Env.history (fun _ => Awake) (Halts r w h) h := by
  refine Prog.wp_bind.mpr (Prog.wp_unwind (Prog.wp_interp ?_))
  refine Prog.wp_guard (wp_loopBody ?_ ?_) fun h c hask => implement_awake hask
  · rintro ⟨es, flow⟩ io' h₁ hi ha
    refine Prog.wp_bind.mpr (Prog.wp_mono (wp_dropFds_awake _) ?_)
    rintro out h₂ ⟨rfl, hsame⟩
    cases flow with
    | again => trivial
    | done ret =>
      obtain ⟨hpipe, e, rfl, hstops⟩ := hi.stops rfl ha
      refine ⟨e, hsame ?_, hstops⟩
      rw [hpipe]
      simp
  · intro es why h₁ hcrash ha
    refine Prog.wp_mono (hrelease h₁) ?_
    rintro out h₂ rfl
    trivial

theorem Stops.registers {e : Event sys} (h : Stops r w e .pending) : Registers r w e := by
  cases h with
  | pending h => exact h

theorem awake_woken {c : SysCall} (hc : Awake c) : Woken r w h c := fun hs => absurd hs hc

theorem wp_drop_awake (pipe : Pipe) :
    pipe.drop.wp Env.history (fun _ => Awake) (fun out _ => out = .val ()) h :=
  Prog.wp_mono (wp_dropFds_awake _) fun _ _ hout => hout.1

theorem wp_await_wakes {fuel : ℕ} :
    (((SpliceIo.liveBody r w fun io => io.splicer.pipe.drop).future
      (sysCall .suspend)).await fuel io).wp Env.history (Woken r w) (fun _ _ => True) h := by
  refine Machine.wp_await_future (fun _ _ _ => True) ?_ (fun _ _ _ => trivial) trivial
  intro n io h _
  refine Prog.wp_mono (Prog.wp_guard (wp_liveBody_halts (h := h) _ fun _ => wp_drop_awake _)
    fun _ _ => awake_woken) ?_
  rintro (⟨io', _ | _ | res⟩ | why) h' hhalts
  · trivial
  · obtain ⟨e, rfl, hstops⟩ := hhalts
    refine ⟨fun _ => ⟨h, e, rfl, hstops.registers⟩, ?_⟩
    rintro (_ | _) h' - <;> trivial
  · trivial
  · trivial

theorem wp_poll_stops {fuel : ℕ} (release : SpliceIo → Prog sys Unit)
    (hrelease : ∀ io h, (release io).wp Env.history (fun _ => Awake)
      (fun out _ => out = .val ()) h) :
    ((SpliceIo.liveBody r w release).poll fuel io).wp Env.history (fun _ => Awake)
      (Stopped r w h) h := by
  refine Machine.wp_iterate (fun _ _ h' => ∃ es, h' = h ++ es ∧ ∀ e ∈ es, Awake e.call) ?_
    (fun _ _ _ => trivial) ⟨[], (List.append_nil h).symm, by simp⟩
  rintro n io₁ _ ⟨es, rfl, hes⟩
  refine Prog.wp_mono (Prog.wp_history (wp_liveBody_halts release (hrelease io₁))) ?_
  rintro (⟨io₂, _ | ret⟩ | why) h₂ ⟨hhalts, es₂, rfl, hes₂⟩
  · refine ⟨es ++ es₂, List.append_assoc _ _ _, ?_⟩
    intro e he
    exact (List.mem_append.mp he).elim (hes e) (hes₂ e)
  · obtain ⟨e, heq, hstops⟩ := hhalts
    exact ⟨es, e, heq, hes, hstops⟩
  · trivial

end OneDirection

/-! ### Construction -/

/-- Whatever it answers, the program never goes to the executor. -/
def Wakeful {α : Type} (p : Prog sys α) : Prop :=
  ∀ h, p.wp Env.history (fun _ => Awake) (fun _ _ => True) h

section Construction

variable {α β : Type}

theorem Wakeful.ret (a : α) : Wakeful (.ret a) := fun _ => trivial

theorem Wakeful.ask {c : SysCall} {next : SysAnswer c → Prog sys α} (hc : c ≠ .suspend)
    (hnext : ∀ a, Wakeful (next a)) : Wakeful (.ask (I := sys) c next) :=
  fun _ => ⟨hc, fun a h' _ => hnext a h'⟩

theorem Wakeful.bind {p : Prog sys α} {f : α → Prog sys β} (hp : Wakeful p)
    (hf : ∀ a, Wakeful (f a)) : Wakeful (p >>= f) := by
  intro h
  refine Prog.wp_bind.mpr (Prog.wp_mono (hp h) ?_)
  rintro (a | why) h' -
  · exact hf a h'
  · trivial

theorem wakeful_dropFds (fds : List OwnedFd) : Wakeful (dropFds fds) :=
  fun _ => Prog.wp_mono (wp_dropFds_awake fds) fun _ _ _ => trivial

theorem wakeful_sized (drainFd fillFd : OwnedFd) (size : ℕ) :
    Wakeful (Pipe.sized drainFd fillFd size) := by
  unfold Pipe.sized
  split
  · exact .ret _
  · exact (wakeful_dropFds _).bind fun _ => .ret _

theorem wakeful_create : Wakeful Pipe.create := by
  refine .ask (by rintro ⟨⟩) ?_
  rintro (e | ⟨drainFd, fillFd⟩)
  · exact .ret _
  · refine .ask (by rintro ⟨⟩) ?_
    rintro (e | size)
    · refine .ask (by rintro ⟨⟩) ?_
      rintro (e | size)
      · exact (wakeful_dropFds _).bind fun _ => .ret _
      · exact wakeful_sized drainFd fillFd size
    · exact wakeful_sized drainFd fillFd size

theorem wakeful_resize (pipe : Pipe) (size : ℕ) : Wakeful (pipe.resize size) := by
  have hdiscard (e : IoError) : Wakeful (pipe.discard e) :=
    (wakeful_dropFds _).bind fun _ => .ret _
  unfold Pipe.resize
  split
  · exact hdiscard _
  · refine .ask (by rintro ⟨⟩) ?_
    rintro (e | newSize)
    · exact hdiscard e
    · cases hsize : NonZeroUsize.new newSize with
      | some size' =>
        simp only [Prog.bind, hsize]
        exact .ret _
      | none =>
        simp only [Prog.bind, hsize]
        exact hdiscard _

/-- Nothing in the construction of a context waits. -/
theorem wakeful_build (b : Builder) : Wakeful b.build := by
  induction b with
  | new => exact wakeful_create.bind fun _ => .ret _
  | inputFile fLen fOffsetStart fOffsetEnd =>
    unfold Builder.build SpliceCtx.createInputFile
    split
    · exact .ret _
    · split
      · exact .ret _
      · exact wakeful_create.bind fun _ => .ret _
  | outputFile fLen fOffsetStart fOffsetEnd =>
    unfold Builder.build SpliceCtx.createOutputFile
    split
    · exact .ret _
    · split
      · exact .ret _
      · exact wakeful_create.bind fun _ => .ret _
  | targetLen b size ih => exact ih.bind fun _ => .ret _
  | pipeSize b size ih =>
    refine ih.bind ?_
    rintro (e | ctx)
    · exact .ret _
    · exact (wakeful_resize ctx.pipe size).bind fun _ => .ret _

end Construction

/-! ### The entry points -/

section Whole

variable {r w : AsyncFd} {sl sr : BorrowedFd} {fuel : ℕ} {h es pre post : List (Event sys)}
  {b : Builder} {a : Resume}
  {out : Outcome sys (Option (Completion (IoResult TransferReport)))}

theorem Wakeful.woken {α : Type} {p : Prog sys α} (hp : Wakeful p) :
    p.wp Env.history (Woken r w) (fun _ _ => True) h :=
  Prog.wp_guard (hp h) fun _ _ => awake_woken

theorem wp_transfer_wakes :
    (transfer fuel b r w).wp Env.history (Woken r w) (fun _ _ => True) h := by
  refine Prog.wp_bind.mpr (Prog.wp_mono (wakeful_build b).woken ?_)
  rintro ((e | ctx) | why) h₁ -
  · trivial
  · refine Prog.wp_bind.mpr (Prog.wp_mono (Q := fun _ _ => True) ?_ ?_)
    · refine Prog.wp_bind.mpr (Prog.wp_mono wp_await_wakes ?_)
      rintro ((_ | ⟨io, done⟩) | why) h₂ -
      · trivial
      · exact ((wakeful_dropFds _).bind fun _ => .ret _).woken
      · trivial
    · rintro (report | why) h₂ - <;> trivial
  · trivial

/-- A task goes to sleep only when its last call has been answered `Pending` on an end of its own,
so that it is woken again. -/
theorem transfer_wakes (h : (transfer fuel b r w).Run es out)
    (hes : es = pre ++ ⟨.suspend, a⟩ :: post) : ∃ pre' e, pre = pre' ++ [e] ∧ Registers r w e :=
  Prog.wp_permits (wp_transfer_wakes (h := [])) h pre _ post pre hes
    (Env.accepts_history.mpr rfl) rfl

/-- Eight bytes come in and three go out: the copy waits for its writer. -/
theorem transfer_wakes_writer : ∃ es pre post,
    (copy 6 5 6).Run es (.val (some .dropped)) ∧ es = pre ++ ⟨.suspend, .drop⟩ :: post ∧
      ∃ pre' e, pre = pre' ++ [e] ∧ Registers (.socket 5) (.socket 6) e := by
  let pre : List (Event sys) := [⟨.pipeWith ⟨true, true⟩, .ok (⟨3⟩, ⟨4⟩)⟩,
    ⟨.fcntlSetpipeSize 3 MAXIMUM_PIPE_SIZE, .ok 1048576⟩, ⟨.pollReadReady 5, .ready (.ok ())⟩,
    ⟨.tryIo 5 .readable, .callInner⟩,
    ⟨.splice 5 none 4 none isizeMax .NONBLOCK, ⟨.ok 8, none, none⟩⟩,
    ⟨.pollReadReady 5, .ready (.ok ())⟩, ⟨.tryIo 5 .readable, .err .wouldBlock⟩,
    ⟨.pollWriteReady 6, .ready (.ok ())⟩, ⟨.tryIo 6 .writable, .callInner⟩,
    ⟨.splice 3 none 6 none 8 .NONBLOCK, ⟨.ok 3, none, none⟩⟩,
    ⟨.pollWriteReady 6, .ready (.ok ())⟩, ⟨.tryIo 6 .writable, .err .wouldBlock⟩,
    ⟨.pollWriteReady 6, .pending⟩]
  let post : List (Event sys) := [⟨.close ⟨3⟩, ()⟩, ⟨.close ⟨4⟩, ()⟩]
  have hrun : (copy 6 5 6).Run (pre ++ ⟨.suspend, .drop⟩ :: post) (.val (some .dropped)) :=
    .ask (.ask (.ask (.ask (.ask (.ask (.ask (.ask (.ask (.ask (.ask (.ask (.ask (.ask (.ask
      (.ask (.ret _))))))))))))))))
  exact ⟨_, pre, post, hrun, rfl, transfer_wakes hrun rfl⟩

/-! ### Two directions -/

/-- Where both halves of a call have stopped. -/
def StoppedBoth (sl sr : AsyncFd) (h : List (Event sys)) :
    Outcome sys (Option (SpliceBidiIo × Poll (IoResult Unit))) → List (Event sys) → Prop
  | .val (some (_, ret)), h' => ∃ es₁ e₁ es₂ e₂ ret₁ ret₂, h' = h ++ es₁ ++ [e₁] ++ es₂ ++ [e₂] ∧
      (∀ e ∈ es₂, Awake e.call) ∧ Stops sl sr e₁ ret₁ ∧ Stops sr sl e₂ ret₂ ∧
        ret = combine ret₁ ret₂
  | _, _ => True

theorem combine_pending {ret₁ ret₂ : Poll (IoResult Unit)} (h : combine ret₁ ret₂ = .pending) :
    ret₁ = .pending ∨ ret₂ = .pending := by
  rcases ret₁ with _ | _ | _
  · exact .inl rfl
  · rcases ret₂ with _ | _ | _
    · exact .inr rfl
    · cases h
    · cases h
  · rcases ret₂ with _ | _ | _
    · exact .inr rfl
    · cases h
    · cases h

theorem wp_drop_both_awake (io : SpliceBidiIo) :
    io.drop.wp Env.history (fun _ => Awake) (fun out _ => out = .val ()) h := by
  refine Prog.wp_bind.mpr (Prog.wp_mono (wp_drop_awake _) ?_)
  rintro out h₁ rfl
  exact wp_drop_awake _

theorem wp_pollLive_stops {sl sr : AsyncFd} (io : SpliceBidiIo) :
    (io.pollLive fuel sl sr).wp Env.history (fun _ => Awake) (StoppedBoth sl sr h) h := by
  refine Prog.wp_bind.mpr (Prog.wp_mono (wp_poll_stops _ fun _ _ => wp_drop_both_awake _) ?_)
  rintro ((_ | ⟨io₁, ret₁⟩) | why) h₁ hs₁
  · trivial
  · obtain ⟨es₁, e₁, rfl, -, hstops₁⟩ := hs₁
    refine Prog.wp_bind.mpr (Prog.wp_mono (wp_poll_stops _ fun _ _ => wp_drop_both_awake _) ?_)
    rintro ((_ | ⟨io₂, ret₂⟩) | why) h₂ hs₂
    · trivial
    · obtain ⟨es₂, e₂, rfl, hawake, hstops₂⟩ := hs₂
      exact ⟨es₁, e₁, es₂, e₂, ret₁, ret₂, rfl, hawake, hstops₁, hstops₂, rfl⟩
    · trivial
  · trivial

theorem StoppedBoth.woken {sl sr : AsyncFd} {io : SpliceBidiIo} {h' : List (Event sys)}
    {c : SysCall} (hs : StoppedBoth sl sr h (.val (some (io, .pending))) h') :
    WokenBoth sl sr h' c := by
  obtain ⟨es₁, e₁, es₂, e₂, ret₁, ret₂, rfl, hawake, hstops₁, hstops₂, hret⟩ := hs
  intro _
  refine ⟨h ++ es₁, es₂, e₁, e₂, ret₁, ret₂, rfl, hawake, hstops₁, hstops₂, ?_⟩
  rcases combine_pending hret.symm with rfl | rfl
  · exact .inl hstops₁.registers
  · exact .inr hstops₂.registers

theorem awake_wokenBoth {sl sr : AsyncFd} {c : SysCall} (hc : Awake c) : WokenBoth sl sr h c :=
  fun hs => absurd hs hc

theorem wp_awaitLive_wakes {sl sr : AsyncFd} {n : ℕ} {io : SpliceBidiIo} :
    (io.awaitLive fuel sl sr n).wp Env.history (WokenBoth sl sr) (fun _ _ => True) h := by
  induction n generalizing io h with
  | zero => trivial
  | succ n ih =>
    refine Prog.wp_bind.mpr (Prog.wp_mono
      (Prog.wp_guard (wp_pollLive_stops (h := h) io) fun _ _ => awake_wokenBoth) ?_)
    rintro ((_ | ⟨io₁, _ | res⟩) | why) h₁ hs
    · trivial
    · refine ⟨hs.woken, ?_⟩
      rintro (_ | _) h₂ -
      · exact ih
      · trivial
    · trivial
    · trivial

theorem Wakeful.wokenBoth {α : Type} {sl sr : AsyncFd} {p : Prog sys α} (hp : Wakeful p) :
    p.wp Env.history (WokenBoth sl sr) (fun _ _ => True) h :=
  Prog.wp_guard (hp h) fun _ _ => awake_wokenBoth

theorem wp_copyBidirectional_wakes : (copyBidirectional fuel sl sr).wp Env.history
    (WokenBoth (.socket sl) (.socket sr)) (fun _ _ => True) h := by
  have hcreate : Wakeful SpliceCtx.create := wakeful_build .new
  refine Prog.wp_bind.mpr (Prog.wp_mono hcreate.wokenBoth ?_)
  rintro ((e | ctx₁) | why) h₁ -
  · trivial
  · refine Prog.wp_bind.mpr (Prog.wp_mono hcreate.wokenBoth ?_)
    rintro ((e | ctx₂) | why) h₂ -
    · exact ((wakeful_dropFds _).bind fun _ => .ret _).wokenBoth
    · refine Prog.wp_bind.mpr (Prog.wp_mono (Q := fun _ _ => True) ?_ ?_)
      · refine Prog.wp_bind.mpr (Prog.wp_mono wp_awaitLive_wakes ?_)
        rintro ((_ | ⟨io, done⟩) | why) h₃ -
        · trivial
        · have hdrop : Wakeful io.drop := (wakeful_dropFds _).bind fun _ => wakeful_dropFds _
          exact (hdrop.bind fun _ => .ret _).wokenBoth
        · trivial
      · rintro (report | why) h₃ - <;> trivial
    · trivial
  · trivial

/-- A task that copies both ways goes to sleep only when either direction has been stopped by an
answer of its own, and one of them by a `Pending`, since it was woken last. -/
theorem copyBidirectional_wakes (h : (copyBidirectional fuel sl sr).Run es out)
    (hes : es = pre ++ ⟨.suspend, a⟩ :: post) : ∃ pre' mid e₁ e₂ ret₁ ret₂,
      pre = pre' ++ [e₁] ++ mid ++ [e₂] ∧ (∀ e ∈ mid, e.call ≠ .suspend) ∧
        Stops (.socket sl) (.socket sr) e₁ ret₁ ∧ Stops (.socket sr) (.socket sl) e₂ ret₂ ∧
          (Registers (.socket sl) (.socket sr) e₁ ∨ Registers (.socket sr) (.socket sl) e₂) :=
  Prog.wp_permits (wp_copyBidirectional_wakes (h := [])) h pre _ post pre hes
    (Env.accepts_history.mpr rfl) rfl

theorem copyBidirectional_wakes_pending : ∃ es pre post,
    (copyBidirectional 1 5 6).Run es (.val (some .dropped)) ∧
      es = pre ++ ⟨.suspend, .drop⟩ :: post ∧ ∃ pre' mid e₁ e₂ ret₁ ret₂,
        pre = pre' ++ [e₁] ++ mid ++ [e₂] ∧ (∀ e ∈ mid, e.call ≠ .suspend) ∧
          Stops (.socket 5) (.socket 6) e₁ ret₁ ∧ Stops (.socket 6) (.socket 5) e₂ ret₂ ∧
            (Registers (.socket 5) (.socket 6) e₁ ∨ Registers (.socket 6) (.socket 5) e₂) := by
  let pre : List (Event sys) := [⟨.pipeWith ⟨true, true⟩, .ok (⟨3⟩, ⟨4⟩)⟩,
    ⟨.fcntlSetpipeSize 3 MAXIMUM_PIPE_SIZE, .ok 1048576⟩,
    ⟨.pipeWith ⟨true, true⟩, .ok (⟨7⟩, ⟨8⟩)⟩,
    ⟨.fcntlSetpipeSize 7 MAXIMUM_PIPE_SIZE, .ok 1048576⟩, ⟨.pollReadReady 5, .pending⟩,
    ⟨.pollReadReady 6, .ready (.error ⟨.os 104, "ECONNRESET"⟩)⟩]
  let post : List (Event sys) := [⟨.close ⟨3⟩, ()⟩, ⟨.close ⟨4⟩, ()⟩, ⟨.close ⟨7⟩, ()⟩,
    ⟨.close ⟨8⟩, ()⟩]
  have hrun : (copyBidirectional 1 5 6).Run (pre ++ ⟨.suspend, .drop⟩ :: post)
      (.val (some .dropped)) :=
    .ask (.ask (.ask (.ask (.ask (.ask (.ask (.ask (.ask (.ask (.ask (.ret _)))))))))))
  exact ⟨_, pre, post, hrun, rfl, copyBidirectional_wakes hrun rfl⟩

end Whole

end Splicer
