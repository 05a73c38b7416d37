import Splicer.Iteration

/-! Where a transfer starts, and what holds of its counters and pipe ends in every run. -/
namespace Splicer

open Interaction

/-- The contexts that the public constructors and builders produce. -/
inductive Constructed : SpliceCtx → Prop where
  | new {k : PipeKernel} {pipe : Pipe} (h : Pipe.new k = .ok pipe) :
      Constructed (SpliceCtx.new pipe)
  | inputFile {k : PipeKernel} {fLen : UInt64} {fOffsetStart fOffsetEnd : Option UInt64}
      {ctx : SpliceCtx}
      (h : SpliceCtx.withInputFile (Pipe.new k) fLen fOffsetStart fOffsetEnd = .ok ctx) :
      Constructed ctx
  | outputFile {k : PipeKernel} {fLen : UInt64} {fOffsetStart fOffsetEnd : Option UInt64}
      {ctx : SpliceCtx}
      (h : SpliceCtx.withOutputFile (Pipe.new k) fLen fOffsetStart fOffsetEnd = .ok ctx) :
      Constructed ctx
  | targetLen {ctx : SpliceCtx} (h : Constructed ctx) (hoff : ctx.offset = .none)
      (sizeToSplice : UInt64) : Constructed (ctx.withTargetLen sizeToSplice)
  | pipeSize {k : PipeKernel} {ctx ctx' : SpliceCtx} {pipeSize : ℕ} (h : Constructed ctx)
      (hp : ctx.withPipeSize k pipeSize = .ok ctx') : Constructed ctx'

/-- Nothing has moved yet and both pipe ends are open. -/
structure Fresh (ctx : SpliceCtx) : Prop where
  read : ctx.bytesRead = 0
  written : ctx.bytesWritten = 0
  target : ctx.sizeToSplice ≤ usizeMax
  fill : ctx.pipe.isFillDone = false
  drain : ctx.pipe.isDrainDone = false

section Construction

variable {k : PipeKernel} {pipe : Pipe} {ctx : SpliceCtx} {fLen : UInt64}
  {fOffsetStart fOffsetEnd : Option UInt64}

theorem toNat_le_usizeMax (n : UInt64) : n.toNat ≤ usizeMax := by
  have hn : n.toNat < 2 ^ 64 := n.toNat_lt
  unfold usizeMax
  omega

theorem fresh_new (h : Pipe.new k = .ok pipe) : Fresh (SpliceCtx.new pipe) := by
  obtain ⟨hfill, hdrain⟩ := Pipe.new_open h
  have htarget : isizeMax ≤ usizeMax := by decide
  exact ⟨rfl, rfl, htarget, hfill, hdrain⟩

/-- An accepted range fixes the target and the first offset of an input file. -/
theorem withInputFile_ok (h : SpliceCtx.withInputFile (Pipe.new k) fLen fOffsetStart fOffsetEnd =
      .ok ctx) :
    ∃ pipe size, Pipe.new k = .ok pipe ∧
      Offset.calcSizeToSplice fLen fOffsetStart fOffsetEnd = .ok size ∧
      ctx = { SpliceCtx.new pipe with
        offset := .input (fOffsetStart.getD 0).toNat, sizeToSplice := size.toNat } := by
  unfold SpliceCtx.withInputFile at h
  cases hc : Offset.calcSizeToSplice fLen fOffsetStart fOffsetEnd with
  | error e => simp [hc, bind, Except.bind] at h
  | ok size =>
    cases hp : Pipe.new k with
    | error e => simp [hc, hp, usizeTryFrom_eq, bind, Except.bind, Except.map] at h
    | ok pipe =>
      simp only [hc, hp, usizeTryFrom_eq, bind, Except.bind, Except.map] at h
      cases h
      exact ⟨pipe, size, rfl, rfl, rfl⟩

theorem withOutputFile_ok
    (h : SpliceCtx.withOutputFile (Pipe.new k) fLen fOffsetStart fOffsetEnd = .ok ctx) :
    ∃ pipe size, Pipe.new k = .ok pipe ∧
      Offset.calcSizeToSplice fLen fOffsetStart fOffsetEnd = .ok size ∧
      ctx = { SpliceCtx.new pipe with
        offset := .output (fOffsetStart.getD 0).toNat, sizeToSplice := size.toNat } := by
  unfold SpliceCtx.withOutputFile at h
  cases hc : Offset.calcSizeToSplice fLen fOffsetStart fOffsetEnd with
  | error e => simp [hc, bind, Except.bind] at h
  | ok size =>
    cases hp : Pipe.new k with
    | error e => simp [hc, hp, usizeTryFrom_eq, bind, Except.bind, Except.map] at h
    | ok pipe =>
      simp only [hc, hp, usizeTryFrom_eq, bind, Except.bind, Except.map] at h
      cases h
      exact ⟨pipe, size, rfl, rfl, rfl⟩

theorem withPipeSize_ok {ctx' : SpliceCtx} {pipeSize : ℕ}
    (h : ctx.withPipeSize k pipeSize = .ok ctx') :
    ∃ size, ctx' = { ctx with pipe := { ctx.pipe with size } } := by
  unfold SpliceCtx.withPipeSize Pipe.withPipeSize at h
  cases hfd : ctx.pipe.fillFd with
  | none => simp [hfd, throw, throwThe, MonadExceptOf.throw, Except.map] at h
  | some fd =>
    cases hs : k.fcntlSetpipeSize fd pipeSize with
    | error e => simp [hfd, hs, bind, Except.bind, Except.map] at h
    | ok n =>
      cases hn : NonZeroUsize.new n with
      | none =>
        simp [hfd, hs, hn, throw, throwThe, MonadExceptOf.throw, bind, Except.bind,
          Except.map] at h
      | some size =>
        simp only [hfd, hs, hn, bind, Except.bind, pure, Except.pure, Except.map] at h
        cases h
        exact ⟨size, by rw [← hfd]⟩

theorem Constructed.fresh (h : Constructed ctx) : Fresh ctx := by
  induction h with
  | new h => exact fresh_new h
  | inputFile h =>
    obtain ⟨pipe, size, hp, -, rfl⟩ := withInputFile_ok h
    have hf := fresh_new hp
    exact ⟨hf.read, hf.written, toNat_le_usizeMax size, hf.fill, hf.drain⟩
  | outputFile h =>
    obtain ⟨pipe, size, hp, -, rfl⟩ := withOutputFile_ok h
    have hf := fresh_new hp
    exact ⟨hf.read, hf.written, toNat_le_usizeMax size, hf.fill, hf.drain⟩
  | targetLen h hoff n ih => exact ⟨ih.read, ih.written, toNat_le_usizeMax n, ih.fill, ih.drain⟩
  | pipeSize h hp ih =>
    obtain ⟨size, rfl⟩ := withPipeSize_ok hp
    exact ⟨ih.read, ih.written, ih.target, ih.fill, ih.drain⟩

/-- A kernel that grants every request; concrete runs start from its pipe. -/
def PipeKernel.granting : PipeKernel where
  pipeWith := .ok (⟨3⟩, ⟨4⟩)
  fcntlSetpipeSize := fun _ size => .ok size
  fcntlGetpipeSize := fun _ => .ok 65536

def Pipe.granted : Pipe := ⟨some ⟨3⟩, some ⟨4⟩, MAXIMUM_PIPE_SIZE⟩

theorem Pipe.new_granting : Pipe.new .granting = .ok .granted := rfl

end Construction

/-! ### Counters -/

/-- A splice moves at most the number of bytes it was asked for. -/
def Bounded : Event calls → Prop
  | ⟨.spliceIn _ maxLen, ⟨.ok n, _⟩⟩ => n ≤ maxLen
  | ⟨.spliceOut _ maxLen, ⟨.ok n, _⟩⟩ => n ≤ maxLen
  | _ => True

structure Counted (io : SpliceIo) : Prop where
  written_le : io.splicer.bytesWritten ≤ io.splicer.bytesRead
  read_le : io.splicer.bytesRead ≤ io.splicer.sizeToSplice
  target_le : io.splicer.sizeToSplice ≤ usizeMax
  drained : io.splicer.pipe.isDrainDone = true → io.state = .finished none

theorem Fresh.counted {ctx : SpliceCtx} (h : Fresh ctx) : Counted (.ofCtx ctx) where
  written_le := by simp [SpliceIo.ofCtx, h.read, h.written]
  read_le := by simp [SpliceIo.ofCtx, h.read]
  target_le := h.target
  drained := by simp [SpliceIo.ofCtx, h.drain]

section Steps

variable {ctx ctx' : SpliceCtx} {es : List (Event calls)} {res : IoResult SpliceOutcome}
  {io io' : SpliceIo} {t : Turn calls (IoResult Unit)}

/-- A fill attempt leaves the written counter and the drain end alone. -/
theorem FillAttempt.frame (h : FillAttempt ctx es res ctx') :
    ctx'.sizeToSplice = ctx.sizeToSplice ∧ ctx'.bytesWritten = ctx.bytesWritten ∧
      ctx'.pipe.isDrainDone = ctx.pipe.isDrainDone := by
  cases h <;> simp

theorem DrainAttempt.frame (h : DrainAttempt ctx es res ctx') :
    ctx'.sizeToSplice = ctx.sizeToSplice ∧ ctx'.bytesRead = ctx.bytesRead ∧
      ctx'.isSourceDone = ctx.isSourceDone := by
  cases h <;> simp

theorem FillAttempt.read_le (h : FillAttempt ctx es res ctx') (hb : ∀ e ∈ es, Bounded e)
    (hle : ctx.bytesRead ≤ ctx.sizeToSplice) :
    ctx.bytesRead ≤ ctx'.bytesRead ∧ ctx'.bytesRead ≤ ctx.sizeToSplice := by
  cases h with
  | @moved n off hlt hfd hn hmax =>
    have hn : n ≤ ctx.sizeToSplice - ctx.bytesRead := by simpa [Bounded] using hb
    simp only
    omega
  | gate | target | failed | eof => simpa using hle

theorem DrainAttempt.written_le (h : DrainAttempt ctx es res ctx') (hb : ∀ e ∈ es, Bounded e)
    (hle : ctx.bytesWritten ≤ ctx.bytesRead) :
    ctx.bytesWritten ≤ ctx'.bytesWritten ∧ ctx'.bytesWritten ≤ ctx.bytesRead := by
  cases h with
  | @moved n off hlt hfd hn hmax =>
    have hn : n ≤ ctx.bytesRead - ctx.bytesWritten := by simpa [Bounded] using hb
    simp only
    omega
  | gate | closed | empty | failed | stuck => simpa using hle

/-- Only the attempt that ends the transfer closes the drain end. -/
theorem DrainAttempt.drained (h : DrainAttempt ctx es res ctx')
    (hopen : ctx.pipe.isDrainDone = false) (hd : ctx'.pipe.isDrainDone = true) :
    res = .ok .closed := by
  cases h with
  | closed => rfl
  | gate | empty | failed | stuck | moved => simp [hopen] at hd

theorem Counted.step (h : Counted io) (hi : Iteration io t io')
    (hb : ∀ e ∈ t.events, Bounded e) : Counted io' := by
  cases hi with
  | pending => exact h
  | failed => exact h
  | clean => exact h
  | fault hs => exact ⟨h.written_le, h.read_le, h.target_le, fun _ => rfl⟩
  | @fill es res ctx next hs hf hn =>
    obtain ⟨htarget, hwritten, hdrain⟩ := hf.frame
    have hb : ∀ e ∈ es, Bounded e := fun e he => hb e (List.mem_cons_of_mem _ he)
    obtain ⟨hge, hle⟩ := hf.read_le hb h.read_le
    have hw := h.written_le
    refine ⟨by simp only; omega, by simp only; omega, by simpa [htarget] using h.target_le, ?_⟩
    intro hd
    have hfin := h.drained (hdrain ▸ hd)
    cases hs.symm.trans hfin
  | @drain es res ctx hs hd =>
    obtain ⟨htarget, hread, -⟩ := hd.frame
    have hb : ∀ e ∈ es, Bounded e := fun e he => hb e (List.mem_cons_of_mem _ he)
    obtain ⟨hge, hle⟩ := hd.written_le hb h.written_le
    have hr := h.read_le
    refine ⟨by simp only; omega, by simp only; omega, by simpa [htarget] using h.target_le, ?_⟩
    intro hdone
    have hopen : io.splicer.pipe.isDrainDone = false := by
      cases hc : io.splicer.pipe.isDrainDone with
      | false => rfl
      | true => cases hs.symm.trans (h.drained hc)
    rw [hd.drained hopen hdone]
    rfl

theorem Iteration.sizeToSplice_eq (hi : Iteration io t io') :
    io'.splicer.sizeToSplice = io.splicer.sizeToSplice := by
  cases hi with
  | fill _ hf _ => exact hf.frame.1
  | drain _ hd => exact hd.frame.1
  | pending | failed | clean | fault => rfl

/-- The transfer is over only once the fill end is closed and the pipe is empty. -/
def Clean (io : SpliceIo) : Prop :=
  io.state = .finished none →
    io.splicer.isSourceDone = true ∧ io.splicer.bytesRead = io.splicer.bytesWritten

theorem afterFill_ne_clean {b : Bool} {next : TransferState} (h : afterFill b res = some next) :
    next ≠ .finished none := by
  rintro rfl
  rcases res with e | _ | _ | n
  · cases afterFill_error h
  all_goals cases h

theorem afterDrain_eq_clean {b : Bool} (h : afterDrain b res = .finished none) :
    res = .ok .closed := by
  rcases res with e | _ | _ | n
  · have herror := afterDrain_error b e
    rw [h] at herror
    cases herror
  · rfl
  all_goals cases h

theorem Clean.step (h : Clean io) (hi : Iteration io t io') (ht : t.flow.ready? = none) :
    Clean io' := by
  cases hi with
  | pending => exact h
  | failed => exact h
  | clean => exact h
  | fault => simp at ht
  | fill hs hf hn => exact fun hc => absurd hc (afterFill_ne_clean hn)
  | drain hs hd =>
    intro hc
    have hres := afterDrain_eq_clean hc
    cases hd with
    | closed heq hfd => exact ⟨by simpa using hfd, by simpa using heq⟩
    | gate | empty | failed | stuck | moved => cases hres

end Steps

/-! ### Runs -/

/-- The iteration that fills with one `splice_in`; `drainTurn` drains with one `splice_out`. -/
def fillTurn (offIn : Option ℕ) (maxLen : ℕ) (answer : Spliced) : Turn calls (IoResult Unit) :=
  ⟨[⟨.pollReadReady, .ready (.ok ())⟩, ⟨.tryIoRead, .callInner⟩,
    ⟨.spliceIn offIn maxLen, answer⟩], .again⟩

def drainTurn (offOut : Option ℕ) (maxLen : ℕ) (answer : Spliced) : Turn calls (IoResult Unit) :=
  ⟨[⟨.pollWriteReady, .ready (.ok ())⟩, ⟨.tryIoWrite, .callInner⟩,
    ⟨.spliceOut offOut maxLen, answer⟩], .again⟩

theorem fillTurn_bounded {offIn off : Option ℕ} {maxLen n : ℕ} (h : n ≤ maxLen) :
    ∀ e ∈ (fillTurn offIn maxLen ⟨.ok n, off⟩).events, Bounded e := by
  simpa [fillTurn, Bounded] using h

section Granted

variable {n : ℕ} {e : IoError} {pipe : Pipe}

/-- The first fill from a new context; below, how the next attempt can leave `Fill`. -/
theorem new_fills (hp : pipe.isFillDone = false) (hn : 0 < n) (hle : n ≤ isizeMax) :
    Iteration (.ofCtx (.new pipe)) (fillTurn none isizeMax ⟨.ok n, none⟩)
      ⟨{ SpliceCtx.new pipe with bytesRead := n }, .fill⟩ := by
  have hpos : 0 < isizeMax := Nat.lt_of_lt_of_le hn hle
  have hmax : 0 + n ≤ usizeMax := by
    rw [Nat.zero_add]
    exact Nat.le_trans hle (by decide)
  have hmoved := @FillAttempt.moved (.new pipe) n none hpos hp hn hmax
  change FillAttempt _ _ _ { SpliceCtx.new pipe with bytesRead := 0 + n } at hmoved
  rw [Nat.zero_add] at hmoved
  exact .fill rfl hmoved rfl

theorem new_blocks (hp : pipe.isFillDone = false) (hn : 0 < n) (hlt : n < isizeMax) :
    Iteration ⟨{ SpliceCtx.new pipe with bytesRead := n }, .fill⟩
      (fillTurn none (isizeMax - n) ⟨.error .wouldBlock, none⟩)
      ⟨{ SpliceCtx.new pipe with bytesRead := n }, .drain⟩ := by
  let ctx : SpliceCtx := { SpliceCtx.new pipe with bytesRead := n }
  have hdata : ctx.pipeHasData = true := (SpliceCtx.pipeHasData_iff ctx).mpr hn
  have hnext : afterFill ctx.pipeHasData (.error .wouldBlock) = some .drain := by
    rw [hdata]
    rfl
  exact .fill rfl (.failed hlt hp) hnext

theorem granted_fills (hn : 0 < n) (hle : n ≤ isizeMax) :
    Iteration (.ofCtx (.new .granted)) (fillTurn none isizeMax ⟨.ok n, none⟩)
      ⟨{ SpliceCtx.new .granted with bytesRead := n }, .fill⟩ :=
  new_fills rfl hn hle

theorem granted_blocks (hn : 0 < n) (hlt : n < isizeMax) :
    Iteration ⟨{ SpliceCtx.new .granted with bytesRead := n }, .fill⟩
      (fillTurn none (isizeMax - n) ⟨.error .wouldBlock, none⟩)
      ⟨{ SpliceCtx.new .granted with bytesRead := n }, .drain⟩ :=
  new_blocks rfl hn hlt

theorem granted_ends (hlt : n < isizeMax) :
    Iteration ⟨{ SpliceCtx.new .granted with bytesRead := n }, .fill⟩
      (fillTurn none (isizeMax - n) ⟨.ok 0, none⟩)
      ⟨({ SpliceCtx.new .granted with bytesRead := n } : SpliceCtx).setFillDone, .drain⟩ :=
  .fill rfl (.eof hlt rfl) rfl

theorem granted_fails (hlt : n < isizeMax) (he : e.kind ≠ .wouldBlock) :
    Iteration ⟨{ SpliceCtx.new .granted with bytesRead := n }, .fill⟩
      (fillTurn none (isizeMax - n) ⟨.error e, none⟩)
      ⟨{ SpliceCtx.new .granted with bytesRead := n }, .faulted e⟩ := by
  have hnext (b : Bool) : afterFill b (.error e) = some (.faulted e) := by
    simp [afterFill, he]
  exact .fill rfl (.failed hlt rfl) (hnext _)

end Granted

section Runs

variable {W : Type} {E : Env calls W} {C : SpliceIo → W → Turn calls (IoResult Unit) → Prop}
  {io io' : SpliceIo} {w w' : W} {ts : List (Turn calls (IoResult Unit))}

/-- The invariant rule over the six cases of an iteration. -/
theorem transfer_invariant (Inv : SpliceIo → W → Prop)
    (h : Runs SpliceIo.loopBody E C io w ts io' w') (init : Inv io w)
    (step : ∀ io w t io' w', Inv io w → Iteration io t io' → E.Accepts w t.events w' →
      C io w t → Inv io' w') : Inv io' w' :=
  h.invariant Inv init fun io w t io' w' hI hs ha hc =>
    step io w t io' w' hI (step_iff.mp hs) ha hc

theorem run_counted (hE : ∀ w e w', E w e w' → Bounded e)
    (h : Runs SpliceIo.loopBody E C io w ts io' w') (init : Counted io) : Counted io' := by
  apply transfer_invariant (fun io _ => Counted io) h init
  intro io w t io' w' hI hi ha _
  exact hI.step hi (ha.forall hE)

theorem run_sizeToSplice (h : Runs SpliceIo.loopBody E C io w ts io' w') :
    io'.splicer.sizeToSplice = io.splicer.sizeToSplice := by
  apply transfer_invariant (fun u _ => u.splicer.sizeToSplice = io.splicer.sizeToSplice)
    h rfl
  intro u w t u' w' hI hi _ _
  exact hi.sizeToSplice_eq.trans hI

theorem run_clean (h : Runs SpliceIo.loopBody E Unready io w ts io' w') (init : Clean io) :
    Clean io' := by
  apply transfer_invariant (fun io _ => Clean io) h init
  intro io w t io' w' hI hi _ hc
  exact hI.step hi hc

end Runs

/-- The shortest transfer of `n` bytes: one fill, one drain, and an orderly end. -/
def wholeTurns (n : ℕ) (offIn offOut : Option ℕ) : List (Turn calls (IoResult Unit)) :=
  [fillTurn offIn n ⟨.ok n, offIn.map (· + n)⟩,
    ⟨[⟨.pollReadReady, .ready (.ok ())⟩, ⟨.tryIoRead, .callInner⟩], .again⟩,
    drainTurn offOut n ⟨.ok n, offOut.map (· + n)⟩,
    ⟨[⟨.pollWriteReady, .ready (.ok ())⟩, ⟨.tryIoWrite, .callInner⟩], .again⟩,
    ⟨[⟨.pollShutdown, .ready (.ok ())⟩], .done (.ready (.ok ()))⟩]

/-- Nothing in the machine itself keeps a transfer from ending. -/
theorem await_whole {ctx : SpliceCtx} (h : Fresh ctx) (hpos : 0 < ctx.sizeToSplice) :
    ∃ io, (Machine.await SpliceIo.loopBody 5 (.ofCtx ctx)).Run
        ((wholeTurns ctx.sizeToSplice ctx.offset.offIn ctx.offset.offOut).flatMap Turn.events)
        (.val (some (io, .ok ()))) := by
  obtain ⟨offset, size, pipe, _, _⟩ := ctx
  obtain ⟨rfl, rfl, hmax, hfill, hdrain⟩ := h
  let read : SpliceCtx := ⟨offset.storeIn (offset.offIn.map (· + size)), size, pipe, size, 0⟩
  let done : SpliceCtx :=
    { read.setFillDone.storeOut (offset.offOut.map (· + size)) with bytesWritten := size }
  have hout : read.setFillDone.offset.offOut = offset.offOut := by cases offset <;> rfl
  have hsize : 0 + size ≤ usizeMax := by
    rw [Nat.zero_add]
    exact hmax
  have h₁ : Iteration (.ofCtx ⟨offset, size, pipe, 0, 0⟩)
      (fillTurn offset.offIn size ⟨.ok size, offset.offIn.map (· + size)⟩) ⟨read, .fill⟩ := by
    have hm : FillAttempt ⟨offset, size, pipe, 0, 0⟩ _ _ { read with bytesRead := 0 + size } :=
      .moved hpos hfill hpos hsize
    rw [Nat.zero_add] at hm
    exact .fill rfl hm rfl
  have h₂ : Iteration ⟨read, .fill⟩ _ ⟨read.setFillDone, .drain⟩ := .fill rfl (.target rfl) rfl
  have h₃ : Iteration ⟨read.setFillDone, .drain⟩
      (drainTurn offset.offOut size ⟨.ok size, offset.offOut.map (· + size)⟩) ⟨done, .drain⟩ := by
    have hm : DrainAttempt read.setFillDone _ _ { done with bytesWritten := 0 + size } :=
      .moved hpos hdrain hpos hsize
    rw [Nat.zero_add] at hm
    have hi := @Iteration.drain ⟨read.setFillDone, .drain⟩ _ _ _ rfl hm
    rw [hout] at hi
    exact hi
  have h₄ : Iteration ⟨done, .drain⟩ _ ⟨done.setDrainDone, .finished none⟩ :=
    .drain rfl (.closed rfl rfl)
  exact ⟨_, Machine.run_iterate_iff.mpr ⟨_, _, _,
    .step_of (step_iff.mpr h₁) (by simp) rfl (.step_of (step_iff.mpr h₂) (by simp) rfl
      (.step_of (step_iff.mpr h₃) (by simp) rfl (.step_of (step_iff.mpr h₄) (by simp) rfl
        (.refl _ _)))),
    step_iff.mpr (.clean rfl), rfl, Nat.lt_succ_self 4, rfl⟩⟩

end Splicer
