import Splicer.SpliceIo

/-! Everything one iteration of the loop can do, said once. -/
namespace Splicer

open Interaction

/-- The ways `r.try_io_read(|| splicer.try_splice_from_source(r))` can return. -/
inductive FillAttempt (ctx : SpliceCtx) :
    List (Event calls) → IoResult SpliceOutcome → SpliceCtx → Prop where
  | gate (e : IoError) : FillAttempt ctx [⟨.tryIoRead, .err e⟩] (.error e) ctx
  | target (h : ctx.bytesRead = ctx.sizeToSplice) :
      FillAttempt ctx [⟨.tryIoRead, .callInner⟩] (.ok .closed) ctx.setFillDone
  | failed {e : IoError} {off : Option ℕ} (h : ctx.bytesRead < ctx.sizeToSplice)
      (hfd : ctx.isSourceDone = false) :
      FillAttempt ctx [⟨.tryIoRead, .callInner⟩,
        ⟨.spliceIn ctx.offset.offIn (ctx.sizeToSplice - ctx.bytesRead), ⟨.error e, off⟩⟩]
        (.error e) (ctx.storeIn off)
  | eof {off : Option ℕ} (h : ctx.bytesRead < ctx.sizeToSplice)
      (hfd : ctx.isSourceDone = false) :
      FillAttempt ctx [⟨.tryIoRead, .callInner⟩,
        ⟨.spliceIn ctx.offset.offIn (ctx.sizeToSplice - ctx.bytesRead), ⟨.ok 0, off⟩⟩]
        (.ok .closed) (ctx.storeIn off).setFillDone
  | moved {n : ℕ} {off : Option ℕ} (h : ctx.bytesRead < ctx.sizeToSplice)
      (hfd : ctx.isSourceDone = false) (hn : 0 < n) (hmax : ctx.bytesRead + n ≤ usizeMax) :
      FillAttempt ctx [⟨.tryIoRead, .callInner⟩,
        ⟨.spliceIn ctx.offset.offIn (ctx.sizeToSplice - ctx.bytesRead), ⟨.ok n, off⟩⟩]
        (.ok (.bytesWritten n)) { ctx.storeIn off with bytesRead := ctx.bytesRead + n }

/-- The ways `w.try_io_write(|| splicer.try_splice_to_dest(w))` can return. -/
inductive DrainAttempt (ctx : SpliceCtx) :
    List (Event calls) → IoResult SpliceOutcome → SpliceCtx → Prop where
  | gate (e : IoError) : DrainAttempt ctx [⟨.tryIoWrite, .err e⟩] (.error e) ctx
  | closed (h : ctx.bytesRead = ctx.bytesWritten) (hfd : ctx.isSourceDone = true) :
      DrainAttempt ctx [⟨.tryIoWrite, .callInner⟩] (.ok .closed) ctx.setDrainDone
  | empty (h : ctx.bytesRead = ctx.bytesWritten) (hfd : ctx.isSourceDone = false) :
      DrainAttempt ctx [⟨.tryIoWrite, .callInner⟩] (.ok .noProgress) ctx
  | failed {e : IoError} {off : Option ℕ} (h : ctx.bytesWritten < ctx.bytesRead)
      (hfd : ctx.pipe.isDrainDone = false) :
      DrainAttempt ctx [⟨.tryIoWrite, .callInner⟩,
        ⟨.spliceOut ctx.offset.offOut (ctx.bytesRead - ctx.bytesWritten), ⟨.error e, off⟩⟩]
        (.error e) (ctx.storeOut off)
  | stuck {off : Option ℕ} (h : ctx.bytesWritten < ctx.bytesRead)
      (hfd : ctx.pipe.isDrainDone = false) :
      DrainAttempt ctx [⟨.tryIoWrite, .callInner⟩,
        ⟨.spliceOut ctx.offset.offOut (ctx.bytesRead - ctx.bytesWritten), ⟨.ok 0, off⟩⟩]
        (.ok .noProgress) (ctx.storeOut off)
  | moved {n : ℕ} {off : Option ℕ} (h : ctx.bytesWritten < ctx.bytesRead)
      (hfd : ctx.pipe.isDrainDone = false) (hn : 0 < n) (hmax : ctx.bytesWritten + n ≤ usizeMax) :
      DrainAttempt ctx [⟨.tryIoWrite, .callInner⟩,
        ⟨.spliceOut ctx.offset.offOut (ctx.bytesRead - ctx.bytesWritten), ⟨.ok n, off⟩⟩]
        (.ok (.bytesWritten n)) { ctx.storeOut off with bytesWritten := ctx.bytesWritten + n }

/-- The event of the readiness check, or of the shutdown, that opens an iteration. -/
def checked : TransferState → Poll (IoResult Unit) → Event calls
  | .fill, a => ⟨.pollReadReady, a⟩
  | .drain, a => ⟨.pollWriteReady, a⟩
  | .finished _, a => ⟨.pollShutdown, a⟩

/-- One completed iteration of `loopBody`. -/
inductive Iteration (io : SpliceIo) : Turn calls (IoResult Unit) → SpliceIo → Prop where
  | pending : Iteration io ⟨[checked io.state .pending], .done .pending⟩ io
  | failed (e : IoError) :
      Iteration io ⟨[checked io.state (.ready (.error e))], .done (.ready (.error e))⟩ io
  | fill {es res ctx next} (hs : io.state = .fill) (h : FillAttempt io.splicer es res ctx)
      (hn : afterFill ctx.pipeHasData res = some next) :
      Iteration io ⟨⟨.pollReadReady, .ready (.ok ())⟩ :: es, .again⟩ ⟨ctx, next⟩
  | drain {es res ctx} (hs : io.state = .drain) (h : DrainAttempt io.splicer es res ctx) :
      Iteration io ⟨⟨.pollWriteReady, .ready (.ok ())⟩ :: es, .again⟩
        ⟨ctx, afterDrain ctx.pipeHasData res⟩
  | clean (hs : io.state = .finished none) :
      Iteration io ⟨[⟨.pollShutdown, .ready (.ok ())⟩], .done (.ready (.ok ()))⟩ io
  | fault {e : IoError} (hs : io.state = .finished (some e)) :
      Iteration io ⟨[⟨.pollShutdown, .ready (.ok ())⟩], .done (.ready (.error e))⟩
        { io with state := .finished none }

/-- The ways an iteration can panic. -/
inductive Crash (io : SpliceIo) : List (Event calls) → Panic → Prop where
  | fillUnderflow (hs : io.state = .fill) (h : io.splicer.sizeToSplice < io.splicer.bytesRead) :
      Crash io [⟨.pollReadReady, .ready (.ok ())⟩, ⟨.tryIoRead, .callInner⟩] .underflow
  | fillClosed (hs : io.state = .fill) (h : io.splicer.bytesRead < io.splicer.sizeToSplice)
      (hfd : io.splicer.isSourceDone = true) :
      Crash io [⟨.pollReadReady, .ready (.ok ())⟩, ⟨.tryIoRead, .callInner⟩] .closedFd
  | fillOverflow {n : ℕ} {off : Option ℕ} (hs : io.state = .fill)
      (h : io.splicer.bytesRead < io.splicer.sizeToSplice)
      (hfd : io.splicer.isSourceDone = false) (hmax : usizeMax < io.splicer.bytesRead + (n + 1)) :
      Crash io [⟨.pollReadReady, .ready (.ok ())⟩, ⟨.tryIoRead, .callInner⟩,
        ⟨.spliceIn io.splicer.offset.offIn (io.splicer.sizeToSplice - io.splicer.bytesRead),
          ⟨.ok (n + 1), off⟩⟩] .overflow
  | drainUnderflow (hs : io.state = .drain) (h : io.splicer.bytesRead < io.splicer.bytesWritten) :
      Crash io [⟨.pollWriteReady, .ready (.ok ())⟩, ⟨.tryIoWrite, .callInner⟩] .underflow
  | drainClosed (hs : io.state = .drain) (h : io.splicer.bytesWritten < io.splicer.bytesRead)
      (hfd : io.splicer.pipe.isDrainDone = true) :
      Crash io [⟨.pollWriteReady, .ready (.ok ())⟩, ⟨.tryIoWrite, .callInner⟩] .closedFd
  | drainOverflow {n : ℕ} {off : Option ℕ} (hs : io.state = .drain)
      (h : io.splicer.bytesWritten < io.splicer.bytesRead)
      (hfd : io.splicer.pipe.isDrainDone = false)
      (hmax : usizeMax < io.splicer.bytesWritten + (n + 1)) :
      Crash io [⟨.pollWriteReady, .ready (.ok ())⟩, ⟨.tryIoWrite, .callInner⟩,
        ⟨.spliceOut io.splicer.offset.offOut (io.splicer.bytesRead - io.splicer.bytesWritten),
          ⟨.ok (n + 1), off⟩⟩] .overflow

/-! ### The splice attempts -/

section Attempts

variable {ctx ctx' : SpliceCtx} {es : List (Event calls)} {res : IoResult SpliceOutcome}
  {why : Panic}

theorem usizeSub_of_le {a b : ℕ} (h : b ≤ a) : usizeSub a b = .ret (a - b) := by
  simp [usizeSub, h]

theorem usizeSub_of_lt {a b : ℕ} (h : a < b) : usizeSub a b = .panic .underflow := by
  simp [usizeSub, h]

theorem usizeAdd_of_le {a b : ℕ} (h : a + b ≤ usizeMax) : usizeAdd a b = .ret (a + b) := by
  simp [usizeAdd, h]

theorem usizeAdd_of_lt {a b : ℕ} (h : usizeMax < a + b) : usizeAdd a b = .panic .overflow := by
  simp [usizeAdd, h]

theorem trySpliceFromSource_target (h : ctx.bytesRead = ctx.sizeToSplice) :
    ctx.trySpliceFromSource = .ret (.ok .closed, ctx.setFillDone) := by
  simp [SpliceCtx.trySpliceFromSource, usizeSub_of_le (Nat.le_refl _), h]

theorem trySpliceFromSource_underflow (h : ctx.sizeToSplice < ctx.bytesRead) :
    ctx.trySpliceFromSource = .panic .underflow := by
  simp [SpliceCtx.trySpliceFromSource, usizeSub_of_lt h]

theorem trySpliceFromSource_closedFd (h : ctx.bytesRead < ctx.sizeToSplice)
    (hfd : ctx.isSourceDone = true) : ctx.trySpliceFromSource = .panic .closedFd := by
  have hne : ¬ ctx.sizeToSplice - ctx.bytesRead = 0 := by omega
  have hfd : ctx.pipe.fillFd = none := by
    simpa [SpliceCtx.isSourceDone, Pipe.isFillDone] using hfd
  simp [SpliceCtx.trySpliceFromSource, usizeSub_of_le (Nat.le_of_lt h), hne, hfd, expectFd]

/-- Below the target and with the fill end open, the attempt is one `splice_in`. -/
theorem trySpliceFromSource_splice (h : ctx.bytesRead < ctx.sizeToSplice)
    (hfd : ctx.isSourceDone = false) :
    ctx.trySpliceFromSource =
      .ask (.spliceIn ctx.offset.offIn (ctx.sizeToSplice - ctx.bytesRead)) fun answer =>
        match answer.ret with
        | .error e => .ret (.error e, ctx.storeIn answer.off)
        | .ok 0 => .ret (.ok .closed, (ctx.storeIn answer.off).setFillDone)
        | .ok (n + 1) =>
          if ctx.bytesRead + (n + 1) ≤ usizeMax then
            .ret (.ok (.bytesWritten (n + 1)),
              { ctx.storeIn answer.off with bytesRead := ctx.bytesRead + (n + 1) })
          else .panic .overflow := by
  have hne : ¬ ctx.sizeToSplice - ctx.bytesRead = 0 := by omega
  obtain ⟨fd, hfd⟩ : ∃ fd, ctx.pipe.fillFd = some fd := by
    simpa [SpliceCtx.isSourceDone, Pipe.isFillDone, Option.isSome_iff_exists] using hfd
  simp only [SpliceCtx.trySpliceFromSource, usizeSub_of_le (Nat.le_of_lt h), hne, hfd, expectFd,
    call, Prog.bind_ask, Prog.bind_ret, if_false]
  congr 1
  funext answer
  rcases answer with ⟨_ | _ | n, off⟩
  · rfl
  · rfl
  · by_cases hmax : ctx.bytesRead + (n + 1) ≤ usizeMax
    · simp [SpliceCtx.storeIn, usizeAdd_of_le hmax, hmax]
    · simp [SpliceCtx.storeIn, usizeAdd_of_lt (Nat.lt_of_not_le hmax), hmax]

theorem trySpliceToDest_underflow (h : ctx.bytesRead < ctx.bytesWritten) :
    ctx.trySpliceToDest = .panic .underflow := by
  simp [SpliceCtx.trySpliceToDest, usizeSub_of_lt h]

theorem trySpliceToDest_empty (h : ctx.bytesRead = ctx.bytesWritten) :
    ctx.trySpliceToDest =
      .ret (if ctx.isSourceDone then (.ok .closed, ctx.setDrainDone)
        else (.ok .noProgress, ctx)) := by
  simp only [SpliceCtx.trySpliceToDest, usizeSub_of_le (Nat.le_refl _), h, Nat.sub_self,
    Prog.bind_ret, if_true]
  split <;> rfl

theorem trySpliceToDest_closedFd (h : ctx.bytesWritten < ctx.bytesRead)
    (hfd : ctx.pipe.isDrainDone = true) : ctx.trySpliceToDest = .panic .closedFd := by
  have hne : ¬ ctx.bytesRead - ctx.bytesWritten = 0 := by omega
  have hfd : ctx.pipe.drainFd = none := by simpa [Pipe.isDrainDone] using hfd
  simp [SpliceCtx.trySpliceToDest, usizeSub_of_le (Nat.le_of_lt h), hne, hfd, expectFd]

theorem trySpliceToDest_splice (h : ctx.bytesWritten < ctx.bytesRead)
    (hfd : ctx.pipe.isDrainDone = false) :
    ctx.trySpliceToDest =
      .ask (.spliceOut ctx.offset.offOut (ctx.bytesRead - ctx.bytesWritten)) fun answer =>
        match answer.ret with
        | .error e => .ret (.error e, ctx.storeOut answer.off)
        | .ok 0 => .ret (.ok .noProgress, ctx.storeOut answer.off)
        | .ok (n + 1) =>
          if ctx.bytesWritten + (n + 1) ≤ usizeMax then
            .ret (.ok (.bytesWritten (n + 1)),
              { ctx.storeOut answer.off with bytesWritten := ctx.bytesWritten + (n + 1) })
          else .panic .overflow := by
  have hne : ¬ ctx.bytesRead - ctx.bytesWritten = 0 := by omega
  obtain ⟨fd, hfd⟩ : ∃ fd, ctx.pipe.drainFd = some fd := by
    simpa [Pipe.isDrainDone, Option.isSome_iff_exists] using hfd
  simp only [SpliceCtx.trySpliceToDest, usizeSub_of_le (Nat.le_of_lt h), hne, hfd, expectFd,
    call, Prog.bind_ask, Prog.bind_ret, if_false]
  congr 1
  funext answer
  rcases answer with ⟨_ | _ | n, off⟩
  · rfl
  · rfl
  · by_cases hmax : ctx.bytesWritten + (n + 1) ≤ usizeMax
    · simp [SpliceCtx.storeOut, usizeAdd_of_le hmax, hmax]
    · simp [SpliceCtx.storeOut, usizeAdd_of_lt (Nat.lt_of_not_le hmax), hmax]

/-- The ways the closure of `try_io_read` can panic; `DrainPanic` is about `try_io_write`. -/
inductive FillPanic (ctx : SpliceCtx) : List (Event calls) → Panic → Prop where
  | underflow (h : ctx.sizeToSplice < ctx.bytesRead) :
      FillPanic ctx [⟨.tryIoRead, .callInner⟩] .underflow
  | closed (h : ctx.bytesRead < ctx.sizeToSplice) (hfd : ctx.isSourceDone = true) :
      FillPanic ctx [⟨.tryIoRead, .callInner⟩] .closedFd
  | overflow {n : ℕ} {off : Option ℕ} (h : ctx.bytesRead < ctx.sizeToSplice)
      (hfd : ctx.isSourceDone = false) (hmax : usizeMax < ctx.bytesRead + (n + 1)) :
      FillPanic ctx [⟨.tryIoRead, .callInner⟩,
        ⟨.spliceIn ctx.offset.offIn (ctx.sizeToSplice - ctx.bytesRead), ⟨.ok (n + 1), off⟩⟩]
        .overflow

inductive DrainPanic (ctx : SpliceCtx) : List (Event calls) → Panic → Prop where
  | underflow (h : ctx.bytesRead < ctx.bytesWritten) :
      DrainPanic ctx [⟨.tryIoWrite, .callInner⟩] .underflow
  | closed (h : ctx.bytesWritten < ctx.bytesRead) (hfd : ctx.pipe.isDrainDone = true) :
      DrainPanic ctx [⟨.tryIoWrite, .callInner⟩] .closedFd
  | overflow {n : ℕ} {off : Option ℕ} (h : ctx.bytesWritten < ctx.bytesRead)
      (hfd : ctx.pipe.isDrainDone = false) (hmax : usizeMax < ctx.bytesWritten + (n + 1)) :
      DrainPanic ctx [⟨.tryIoWrite, .callInner⟩,
        ⟨.spliceOut ctx.offset.offOut (ctx.bytesRead - ctx.bytesWritten), ⟨.ok (n + 1), off⟩⟩]
        .overflow

variable {o : Outcome calls (IoResult SpliceOutcome × SpliceCtx)}

/-- However the attempt ends, its trace says how. -/
theorem tryIoRead_cases (h : (tryIoRead ctx ctx.trySpliceFromSource).Run es o) :
    (∃ res ctx', o = .val (res, ctx') ∧ FillAttempt ctx es res ctx') ∨
      ∃ why, o = .fault why ∧ FillPanic ctx es why := by
  obtain ⟨_ | e, es', rfl, hrun⟩ := Prog.run_ask.mp h
  · change ctx.trySpliceFromSource.Run es' o at hrun
    rcases Nat.lt_trichotomy ctx.bytesRead ctx.sizeToSplice with hlt | heq | hgt
    · cases hfd : ctx.isSourceDone with
      | true =>
        rw [trySpliceFromSource_closedFd hlt hfd] at hrun
        obtain ⟨rfl, rfl⟩ := Prog.run_panic.mp hrun
        exact .inr ⟨_, rfl, .closed hlt hfd⟩
      | false =>
        rw [trySpliceFromSource_splice hlt hfd] at hrun
        obtain ⟨⟨_ | _ | n, off⟩, es', rfl, hr⟩ := Prog.run_ask.mp hrun
        · obtain ⟨rfl, rfl⟩ := Prog.run_ret.mp hr
          exact .inl ⟨_, _, rfl, .failed hlt hfd⟩
        · obtain ⟨rfl, rfl⟩ := Prog.run_ret.mp hr
          exact .inl ⟨_, _, rfl, .eof hlt hfd⟩
        · by_cases hmax : ctx.bytesRead + (n + 1) ≤ usizeMax
          · simp only [hmax, if_true] at hr
            obtain ⟨rfl, rfl⟩ := Prog.run_ret.mp hr
            exact .inl ⟨_, _, rfl, .moved hlt hfd (Nat.succ_pos n) hmax⟩
          · simp only [hmax, if_false] at hr
            obtain ⟨rfl, rfl⟩ := Prog.run_panic.mp hr
            exact .inr ⟨_, rfl, .overflow hlt hfd (Nat.lt_of_not_le hmax)⟩
    · rw [trySpliceFromSource_target heq] at hrun
      obtain ⟨rfl, rfl⟩ := Prog.run_ret.mp hrun
      exact .inl ⟨_, _, rfl, .target heq⟩
    · rw [trySpliceFromSource_underflow hgt] at hrun
      obtain ⟨rfl, rfl⟩ := Prog.run_panic.mp hrun
      exact .inr ⟨_, rfl, .underflow hgt⟩
  · obtain ⟨rfl, rfl⟩ := Prog.run_ret.mp hrun
    exact .inl ⟨_, _, rfl, .gate e⟩

theorem tryIoWrite_cases (h : (tryIoWrite ctx ctx.trySpliceToDest).Run es o) :
    (∃ res ctx', o = .val (res, ctx') ∧ DrainAttempt ctx es res ctx') ∨
      ∃ why, o = .fault why ∧ DrainPanic ctx es why := by
  obtain ⟨_ | e, es', rfl, hrun⟩ := Prog.run_ask.mp h
  · change ctx.trySpliceToDest.Run es' o at hrun
    rcases Nat.lt_trichotomy ctx.bytesWritten ctx.bytesRead with hlt | heq | hgt
    · cases hfd : ctx.pipe.isDrainDone with
      | true =>
        rw [trySpliceToDest_closedFd hlt hfd] at hrun
        obtain ⟨rfl, rfl⟩ := Prog.run_panic.mp hrun
        exact .inr ⟨_, rfl, .closed hlt hfd⟩
      | false =>
        rw [trySpliceToDest_splice hlt hfd] at hrun
        obtain ⟨⟨_ | _ | n, off⟩, es', rfl, hr⟩ := Prog.run_ask.mp hrun
        · obtain ⟨rfl, rfl⟩ := Prog.run_ret.mp hr
          exact .inl ⟨_, _, rfl, .failed hlt hfd⟩
        · obtain ⟨rfl, rfl⟩ := Prog.run_ret.mp hr
          exact .inl ⟨_, _, rfl, .stuck hlt hfd⟩
        · by_cases hmax : ctx.bytesWritten + (n + 1) ≤ usizeMax
          · simp only [hmax, if_true] at hr
            obtain ⟨rfl, rfl⟩ := Prog.run_ret.mp hr
            exact .inl ⟨_, _, rfl, .moved hlt hfd (Nat.succ_pos n) hmax⟩
          · simp only [hmax, if_false] at hr
            obtain ⟨rfl, rfl⟩ := Prog.run_panic.mp hr
            exact .inr ⟨_, rfl, .overflow hlt hfd (Nat.lt_of_not_le hmax)⟩
    · rw [trySpliceToDest_empty heq.symm] at hrun
      obtain ⟨rfl, rfl⟩ := Prog.run_ret.mp hrun
      cases hfd : ctx.isSourceDone with
      | true => exact .inl ⟨_, _, rfl, .closed heq.symm hfd⟩
      | false => exact .inl ⟨_, _, rfl, .empty heq.symm hfd⟩
    · rw [trySpliceToDest_underflow hgt] at hrun
      obtain ⟨rfl, rfl⟩ := Prog.run_panic.mp hrun
      exact .inr ⟨_, rfl, .underflow hgt⟩
  · obtain ⟨rfl, rfl⟩ := Prog.run_ret.mp hrun
    exact .inl ⟨_, _, rfl, .gate e⟩

/-- Once the gate has run the closure, the attempt is the closure. -/
theorem run_tryIoRead_callInner {es : List (Event calls)} (h : ctx.trySpliceFromSource.Run es o) :
    (tryIoRead ctx ctx.trySpliceFromSource).Run (⟨.tryIoRead, .callInner⟩ :: es) o :=
  .ask h

theorem run_tryIoWrite_callInner {es : List (Event calls)} (h : ctx.trySpliceToDest.Run es o) :
    (tryIoWrite ctx ctx.trySpliceToDest).Run (⟨.tryIoWrite, .callInner⟩ :: es) o :=
  .ask h

theorem run_tryIoRead :
    (tryIoRead ctx ctx.trySpliceFromSource).Run es (.val (res, ctx')) ↔
      FillAttempt ctx es res ctx' := by
  constructor
  · intro h
    rcases tryIoRead_cases h with ⟨res', ctx₁, ho, hf⟩ | ⟨why, ho, -⟩
    · cases ho
      exact hf
    · cases ho
  · intro h
    cases h with
    | gate e => exact .ask (.ret _)
    | target h =>
      apply run_tryIoRead_callInner
      rw [trySpliceFromSource_target h]
      exact .ret _
    | failed h hfd | eof h hfd =>
      apply run_tryIoRead_callInner
      rw [trySpliceFromSource_splice h hfd]
      exact .ask (.ret _)
    | @moved n off h hfd hn hmax =>
      obtain ⟨n, rfl⟩ : ∃ m, n = m + 1 := ⟨n - 1, by omega⟩
      apply run_tryIoRead_callInner
      rw [trySpliceFromSource_splice h hfd]
      exact .ask (by simp [hmax])

theorem run_tryIoWrite :
    (tryIoWrite ctx ctx.trySpliceToDest).Run es (.val (res, ctx')) ↔
      DrainAttempt ctx es res ctx' := by
  constructor
  · intro h
    rcases tryIoWrite_cases h with ⟨res', ctx₁, ho, hd⟩ | ⟨why, ho, -⟩
    · cases ho
      exact hd
    · cases ho
  · intro h
    cases h with
    | gate e => exact .ask (.ret _)
    | closed h hfd | empty h hfd =>
      apply run_tryIoWrite_callInner
      rw [trySpliceToDest_empty h, hfd]
      exact .ret _
    | failed h hfd | stuck h hfd =>
      apply run_tryIoWrite_callInner
      rw [trySpliceToDest_splice h hfd]
      exact .ask (.ret _)
    | @moved n off h hfd hn hmax =>
      obtain ⟨n, rfl⟩ : ∃ m, n = m + 1 := ⟨n - 1, by omega⟩
      apply run_tryIoWrite_callInner
      rw [trySpliceToDest_splice h hfd]
      exact .ask (by simp [hmax])

theorem run_tryIoRead_fault :
    (tryIoRead ctx ctx.trySpliceFromSource).Run es (.fault why) ↔ FillPanic ctx es why := by
  constructor
  · intro h
    rcases tryIoRead_cases h with ⟨res', ctx₁, ho, -⟩ | ⟨why', ho, hp⟩
    · cases ho
    · cases ho
      exact hp
  · intro h
    cases h with
    | underflow h =>
      apply run_tryIoRead_callInner
      rw [trySpliceFromSource_underflow h]
      exact .panic _
    | closed h hfd =>
      apply run_tryIoRead_callInner
      rw [trySpliceFromSource_closedFd h hfd]
      exact .panic _
    | overflow h hfd hmax =>
      apply run_tryIoRead_callInner
      rw [trySpliceFromSource_splice h hfd]
      exact .ask (by simp [Nat.not_le_of_lt hmax])

theorem run_tryIoWrite_fault :
    (tryIoWrite ctx ctx.trySpliceToDest).Run es (.fault why) ↔ DrainPanic ctx es why := by
  constructor
  · intro h
    rcases tryIoWrite_cases h with ⟨res', ctx₁, ho, -⟩ | ⟨why', ho, hp⟩
    · cases ho
    · cases ho
      exact hp
  · intro h
    cases h with
    | underflow h =>
      apply run_tryIoWrite_callInner
      rw [trySpliceToDest_underflow h]
      exact .panic _
    | closed h hfd =>
      apply run_tryIoWrite_callInner
      rw [trySpliceToDest_closedFd h hfd]
      exact .panic _
    | overflow h hfd hmax =>
      apply run_tryIoWrite_callInner
      rw [trySpliceToDest_splice h hfd]
      exact .ask (by simp [Nat.not_le_of_lt hmax])

end Attempts

/-! ### The loop body -/

/-- Where an error leads, from either arm: a `WouldBlock` goes where the pipe says, and any other
ends the transfer. -/
inductive AfterError (pipeHasData : Bool) (e : IoError) : TransferState → Prop where
  | drain (hk : e.kind = .wouldBlock) (hd : pipeHasData = true) : AfterError pipeHasData e .drain
  | fill (hk : e.kind = .wouldBlock) (hd : pipeHasData = false) : AfterError pipeHasData e .fill
  | faulted (hk : e.kind ≠ .wouldBlock) : AfterError pipeHasData e (.finished (some e))

theorem afterDrain_error (b : Bool) (e : IoError) : AfterError b e (afterDrain b (.error e)) := by
  by_cases hk : e.kind = .wouldBlock
  · cases b with
    | true =>
      simp only [afterDrain, hk, if_true]
      exact .drain hk rfl
    | false =>
      simp only [afterDrain, hk, if_true, Bool.false_eq_true, if_false]
      exact .fill hk rfl
  · simp only [afterDrain, hk, if_false]
    exact .faulted hk

theorem afterFill_error_eq (b : Bool) (e : IoError) :
    afterFill b (.error e) = some (afterDrain b (.error e)) := by
  by_cases hk : e.kind = .wouldBlock
  · cases b <;> simp [afterFill, afterDrain, hk]
  · simp [afterFill, afterDrain, hk]

theorem afterFill_error {b : Bool} {e : IoError} {next : TransferState}
    (h : afterFill b (.error e) = some next) : AfterError b e next := by
  rw [afterFill_error_eq] at h
  cases h
  exact afterDrain_error b e

theorem afterFill_eq_some {b : Bool} {ctx ctx' : SpliceCtx} {es res}
    (h : FillAttempt ctx es res ctx') : ∃ next, afterFill b res = some next := by
  cases h with
  | gate e => exact ⟨_, afterFill_error_eq b e⟩
  | failed => exact ⟨_, afterFill_error_eq b _⟩
  | target | eof | moved => exact ⟨_, rfl⟩

/-- The check itself, as a computation. -/
def check : TransferState → Comp (Poll (IoResult Unit))
  | .fill => call .pollReadReady
  | .drain => call .pollWriteReady
  | .finished _ => call .pollShutdown

theorem run_check {s : TransferState} {es : List (Event calls)} {o} :
    (check s).Run es o ↔ ∃ a, es = [checked s a] ∧ o = .val a := by
  cases s <;> simp only [check, call, Prog.run_ask, Prog.run_ret, checked]
  all_goals
    constructor
    · rintro ⟨a, es', rfl, rfl, rfl⟩
      exact ⟨a, rfl, rfl⟩
    · rintro ⟨a, rfl, rfl⟩
      exact ⟨a, [], rfl, rfl, rfl⟩

theorem run_ready {s : TransferState} {io : SpliceIo} {es : List (Event calls)} {rest o} :
    (io.ready (check s) rest).Run es o ↔
      es = [checked s .pending] ∧ o = .val (io, .done .pending) ∨
      (∃ e, es = [checked s (.ready (.error e))] ∧
        o = .val (io, .done (.ready (.error e)))) ∨
      ∃ es', es = checked s (.ready (.ok ())) :: es' ∧ rest.Run es' o := by
  simp only [SpliceIo.ready, Prog.run_bind, run_check]
  constructor
  · rintro (⟨a, es₁, es₂, rfl, ⟨_, rfl, ha⟩, h⟩ | ⟨why, rfl, a, rfl, h⟩)
    · cases ha
      rcases a with _ | e | ⟨⟩
      · obtain ⟨rfl, rfl⟩ := Prog.run_ret.mp h
        exact .inl ⟨rfl, rfl⟩
      · obtain ⟨rfl, rfl⟩ := Prog.run_ret.mp h
        exact .inr (.inl ⟨e, rfl, rfl⟩)
      · exact .inr (.inr ⟨es₂, rfl, h⟩)
    · cases h
  · rintro (⟨rfl, rfl⟩ | ⟨e, rfl, rfl⟩ | ⟨es', rfl, h⟩)
    · exact .inl ⟨.pending, _, [], rfl, ⟨_, rfl, rfl⟩, .ret _⟩
    · exact .inl ⟨.ready (.error e), _, [], rfl, ⟨_, rfl, rfl⟩, .ret _⟩
    · exact .inl ⟨.ready (.ok ()), _, es', rfl, ⟨_, rfl, rfl⟩, h⟩

variable {io io' : SpliceIo} {es : List (Event calls)} {why : Panic}

theorem iteration_of_run {f : Flow (IoResult Unit)}
    (h : (SpliceIo.loopBody io).Run es (.val (io', f))) : Iteration io ⟨es, f⟩ io' := by
  obtain ⟨ctx, state⟩ := io
  cases state with
  | fill =>
    obtain ⟨rfl, ho⟩ | ⟨e, rfl, ho⟩ | ⟨es, rfl, hr⟩ := (run_ready (s := .fill)).mp h
    · cases ho
      exact .pending
    · cases ho
      exact .failed e
    · obtain ⟨⟨res, ctx'⟩, es₁, es₂, rfl, hf, hr⟩ | ⟨why, hw, -⟩ := Prog.run_bind.mp hr
      · have hf := run_tryIoRead.mp hf
        obtain ⟨next, hn⟩ := afterFill_eq_some (b := ctx'.pipeHasData) hf
        simp only [hn] at hr
        obtain ⟨rfl, hr⟩ := Prog.run_ret.mp hr
        cases hr
        rw [List.append_nil]
        exact .fill rfl hf hn
      · cases hw
  | drain =>
    obtain ⟨rfl, ho⟩ | ⟨e, rfl, ho⟩ | ⟨es, rfl, hr⟩ := (run_ready (s := .drain)).mp h
    · cases ho
      exact .pending
    · cases ho
      exact .failed e
    · obtain ⟨⟨res, ctx'⟩, es₁, es₂, rfl, hf, hr⟩ | ⟨why, hw, -⟩ := Prog.run_bind.mp hr
      · obtain ⟨rfl, hr⟩ := Prog.run_ret.mp hr
        cases hr
        rw [List.append_nil]
        exact .drain rfl (run_tryIoWrite.mp hf)
      · cases hw
  | finished error =>
    obtain ⟨rfl, ho⟩ | ⟨e, rfl, ho⟩ | ⟨es, rfl, hr⟩ := (run_ready (s := .finished error)).mp h
    · cases ho
      exact .pending
    · cases ho
      exact .failed e
    · cases error with
      | none =>
        obtain ⟨rfl, hr⟩ := Prog.run_ret.mp hr
        cases hr
        exact .clean rfl
      | some e =>
        obtain ⟨rfl, hr⟩ := Prog.run_ret.mp hr
        cases hr
        exact .fault rfl

/-- Whatever the state, an iteration opens with its check. -/
theorem loopBody_eq_ready (io : SpliceIo) :
    ∃ rest, SpliceIo.loopBody io = io.ready (check io.state) rest := by
  obtain ⟨ctx, state⟩ := io
  cases state <;> exact ⟨_, rfl⟩

theorem Iteration.run {t : Turn calls (IoResult Unit)} (h : Iteration io t io') :
    (SpliceIo.loopBody io).Run t.events (.val (io', t.flow)) := by
  obtain ⟨rest, hrest⟩ := loopBody_eq_ready io
  obtain ⟨ctx, state⟩ := io
  cases h with
  | pending =>
    rw [hrest]
    exact run_ready.mpr (.inl ⟨rfl, rfl⟩)
  | failed e =>
    rw [hrest]
    exact run_ready.mpr (.inr (.inl ⟨e, rfl, rfl⟩))
  | @fill es res ctx' next hs h hn =>
    cases hs
    refine (run_ready (s := .fill)).mpr (.inr (.inr ⟨es, rfl, ?_⟩))
    refine Prog.run_bind.mpr (.inl ⟨(res, ctx'), es, [], by simp, run_tryIoRead.mpr h, ?_⟩)
    simp [hn]
  | @drain es res ctx' hs h =>
    cases hs
    refine (run_ready (s := .drain)).mpr (.inr (.inr ⟨es, rfl, ?_⟩))
    exact Prog.run_bind.mpr (.inl ⟨(res, ctx'), es, [], by simp, run_tryIoWrite.mpr h, .ret _⟩)
  | clean hs =>
    cases hs
    exact (run_ready (s := .finished none)).mpr (.inr (.inr ⟨[], rfl, .ret _⟩))
  | fault hs =>
    cases hs
    exact (run_ready (s := .finished none)).mpr (.inr (.inr ⟨[], rfl, .ret _⟩))

/-- The inversion lemma of the loop: an iteration is one of the six cases, and each can happen. -/
theorem step_iff {t : Turn calls (IoResult Unit)} :
    Machine.Step SpliceIo.loopBody io t io' ↔ Iteration io t io' :=
  ⟨iteration_of_run, Iteration.run⟩

/-- An iteration panics in the six ways of `Crash` and no other; `unreachable!()` is none. -/
theorem panics_iff : Machine.Panics SpliceIo.loopBody io es why ↔ Crash io es why := by
  obtain ⟨ctx, state⟩ := io
  constructor
  · intro h
    cases state with
    | fill =>
      obtain ⟨-, ho⟩ | ⟨e, -, ho⟩ | ⟨es, rfl, hr⟩ := (run_ready (s := .fill)).mp h
      · cases ho
      · cases ho
      · obtain ⟨⟨res, ctx'⟩, es₁, es₂, rfl, hf, hr⟩ | ⟨why, hw, hf⟩ := Prog.run_bind.mp hr
        · have hf := run_tryIoRead.mp hf
          obtain ⟨next, hn⟩ := afterFill_eq_some (b := ctx'.pipeHasData) hf
          simp only [hn] at hr
          cases (Prog.run_ret.mp hr).2
        · cases hw
          cases run_tryIoRead_fault.mp hf with
          | underflow hc => exact .fillUnderflow rfl hc
          | closed hc hfd => exact .fillClosed rfl hc hfd
          | overflow hc hfd hmax => exact .fillOverflow rfl hc hfd hmax
    | drain =>
      obtain ⟨-, ho⟩ | ⟨e, -, ho⟩ | ⟨es, rfl, hr⟩ := (run_ready (s := .drain)).mp h
      · cases ho
      · cases ho
      · obtain ⟨⟨res, ctx'⟩, es₁, es₂, rfl, hf, hr⟩ | ⟨why, hw, hf⟩ := Prog.run_bind.mp hr
        · cases (Prog.run_ret.mp hr).2
        · cases hw
          cases run_tryIoWrite_fault.mp hf with
          | underflow hc => exact .drainUnderflow rfl hc
          | closed hc hfd => exact .drainClosed rfl hc hfd
          | overflow hc hfd hmax => exact .drainOverflow rfl hc hfd hmax
    | finished error =>
      obtain ⟨-, ho⟩ | ⟨e, -, ho⟩ | ⟨es, rfl, hr⟩ := (run_ready (s := .finished error)).mp h
      · cases ho
      · cases ho
      · cases error <;> cases (Prog.run_ret.mp hr).2
  · have fill (hs : state = .fill) {es} (h : FillPanic ctx es why) :
        Machine.Panics SpliceIo.loopBody ⟨ctx, state⟩
          (⟨.pollReadReady, .ready (.ok ())⟩ :: es) why := by
      cases hs
      have hf := run_tryIoRead_fault.mpr h
      exact (run_ready (s := .fill)).mpr
        (.inr (.inr ⟨es, rfl, Prog.run_bind.mpr (.inr ⟨why, rfl, hf⟩)⟩))
    have drain (hs : state = .drain) {es} (h : DrainPanic ctx es why) :
        Machine.Panics SpliceIo.loopBody ⟨ctx, state⟩
          (⟨.pollWriteReady, .ready (.ok ())⟩ :: es) why := by
      cases hs
      have hd := run_tryIoWrite_fault.mpr h
      exact (run_ready (s := .drain)).mpr
        (.inr (.inr ⟨es, rfl, Prog.run_bind.mpr (.inr ⟨why, rfl, hd⟩)⟩))
    intro h
    cases h with
    | fillUnderflow hs h => exact fill hs (.underflow h)
    | fillClosed hs h hfd => exact fill hs (.closed h hfd)
    | fillOverflow hs h hfd hmax => exact fill hs (.overflow h hfd hmax)
    | drainUnderflow hs h => exact drain hs (.underflow h)
    | drainClosed hs h hfd => exact drain hs (.closed h hfd)
    | drainOverflow hs h hfd hmax => exact drain hs (.overflow h hfd hmax)

end Splicer
