import Splicer.File
import Splicer.Trace

/-! The requests a transfer makes, and the sizes and ranges for which the kernel can take them. -/
namespace Splicer

open Interaction

/-- The largest file position, of type `loff_t`. -/
def i64Max : ℕ := 2 ^ 63 - 1

/-- `splice(2)` rejects a count above `isize::MAX`, and an offset or an end above `i64::MAX`. -/
def Representable : Event calls → Prop
  | ⟨.spliceIn off maxLen, _⟩ =>
    maxLen ≤ isizeMax ∧ ∀ start, off = some start → start + maxLen ≤ i64Max
  | ⟨.spliceOut off maxLen, _⟩ =>
    maxLen ≤ isizeMax ∧ ∀ start, off = some start → start + maxLen ≤ i64Max
  | _ => True

/-- The file offset of a context, whichever side the file is on. -/
def Offset.position : Offset → Option ℕ
  | .none => Option.none
  | .input off => some off
  | .output off => some off

/-- The whole transfer, taken as one request, is one the kernel can take; or there is none. -/
def Fits (ctx : SpliceCtx) : Prop :=
  ctx.sizeToSplice = 0 ∨ ctx.sizeToSplice ≤ isizeMax ∧
    ∀ start, ctx.offset.position = some start → start + ctx.sizeToSplice ≤ i64Max

/-- No counter and no offset exceeds its type, and no arithmetic on them panics. -/
structure Unwrapped (io : SpliceIo) : Prop where
  read : io.splicer.bytesRead ≤ usizeMax
  written : io.splicer.bytesWritten ≤ usizeMax
  offset : ∀ off, io.splicer.offset.position = some off → off ≤ usizeMax
  panics : ∀ es why, (∀ ev ∈ es, Advancing ev) → Machine.Panics SpliceIo.loopBody io es why →
    why = .closedFd

/-- Every request of every run is representable, and nothing wraps on the way. -/
def Accepted (ctx : SpliceCtx) : Prop :=
  ∀ ts io, Runs SpliceIo.loopBody (.of Advancing) Always (.ofCtx ctx) () ts io () →
    Unwrapped io ∧ ∀ es o, (SpliceIo.loopBody io).Run es o → ∀ ev ∈ es, Representable ev

section Requests

variable {k : PipeKernel} {pipe : Pipe} {ctx : SpliceCtx} {fLen : UInt64}
  {fOffsetStart fOffsetEnd : Option UInt64} {io : SpliceIo} {ts : List (Turn calls (IoResult Unit))}
  {o : Offset} {read written off : ℕ}

/-- A moved offset lies between the first one and the largest counter. -/
theorem Offset.position_moved (h : (o.moved read written).position = some off)
    (hle : written ≤ read) : ∃ start, o.position = some start ∧ off ≤ start + read := by
  cases o with
  | none => cases h
  | input start =>
    cases h
    exact ⟨start, rfl, Nat.le_refl _⟩
  | output start =>
    cases h
    exact ⟨start, rfl, by omega⟩

theorem Offset.offIn_moved (h : (o.moved read written).offIn = some off) :
    ∃ start, o.position = some start ∧ off = start + read := by
  cases o with
  | input start =>
    cases h
    exact ⟨start, rfl, rfl⟩
  | none | output => cases h

theorem Offset.offOut_moved_eq (h : (o.moved read written).offOut = some off) :
    ∃ start, o.position = some start ∧ off = start + written := by
  cases o with
  | output start =>
    cases h
    exact ⟨start, rfl, rfl⟩
  | none | input => cases h

theorem calcSizeToSplice_end {size : UInt64}
    (h : Offset.calcSizeToSplice fLen fOffsetStart fOffsetEnd = .ok size) :
    (fOffsetStart.getD 0).toNat + size.toNat = (fOffsetEnd.getD fLen).toNat := by
  obtain ⟨hstart, -, hsize⟩ := calcSizeToSplice_ok h
  omega

/-- Whatever is accepted ends within a `u64`. -/
theorem Constructed.position_le (h : Constructed ctx) :
    ∀ start, ctx.offset.position = some start → start + ctx.sizeToSplice ≤ usizeMax := by
  induction h with
  | new =>
    intro start hs
    cases hs
  | @inputFile k fLen fOffsetStart fOffsetEnd ctx h =>
    intro start hs
    obtain ⟨pipe, size, -, hsize, rfl⟩ := withInputFile_ok h
    cases hs
    have hend := toNat_le_usizeMax (fOffsetEnd.getD fLen)
    rw [← calcSizeToSplice_end hsize] at hend
    exact hend
  | @outputFile k fLen fOffsetStart fOffsetEnd ctx h =>
    intro start hs
    obtain ⟨pipe, size, -, hsize, rfl⟩ := withOutputFile_ok h
    cases hs
    have hend := toNat_le_usizeMax (fOffsetEnd.getD fLen)
    rw [← calcSizeToSplice_end hsize] at hend
    exact hend
  | targetLen h hoff =>
    intro start hs
    simp [SpliceCtx.withTargetLen, hoff, Offset.position] at hs
  | pipeSize h hp ih =>
    obtain ⟨size, rfl⟩ := withPipeSize_ok hp
    exact ih

/-! ### What a run asks for -/

/-- Where a transfer stands: its counters are in range and its offset has moved with them. -/
structure Placed (start : SpliceCtx) (io : SpliceIo) : Prop where
  counted : Counted io
  size : io.splicer.sizeToSplice = start.sizeToSplice
  offset : io.splicer.offset = start.offset.moved io.splicer.bytesRead io.splicer.bytesWritten

theorem run_placed (hctx : Constructed ctx)
    (h : Runs SpliceIo.loopBody (.of Advancing) Always (.ofCtx ctx) () ts io ()) :
    Placed ctx io := by
  have hfresh := hctx.fresh
  refine ⟨run_counted (fun _ _ _ h => Advancing.bounded h) h hfresh.counted, run_sizeToSplice h, ?_⟩
  apply transfer_invariant (fun u _ => u.splicer.offset =
    ctx.offset.moved u.splicer.bytesRead u.splicer.bytesWritten) h
  · change ctx.offset = ctx.offset.moved ctx.bytesRead ctx.bytesWritten
    rw [hfresh.read, hfresh.written, Offset.moved_zero]
  · intro u _ t u' _ hI hi ha _
    exact hi.offset_moved (Env.accepts_of.mp ha) hI

theorem Placed.unwrapped (hctx : Constructed ctx) (h : Placed ctx io) : Unwrapped io := by
  have hwritten := h.counted.written_le
  have hread := h.counted.read_le
  have htarget := h.counted.target_le
  refine ⟨by omega, by omega, ?_, ?_⟩
  · intro off hoff
    rw [h.offset] at hoff
    obtain ⟨start, hstart, hle⟩ := Offset.position_moved hoff hwritten
    have hend := hctx.position_le start hstart
    rw [← h.size] at hend
    omega
  · intro es why ha hp
    cases panics_iff.mp hp with
    | fillClosed | drainClosed => rfl
    | fillUnderflow | drainUnderflow => omega
    | fillOverflow | drainOverflow =>
      have hn := (ha _ (.tail _ (.tail _ (.head _)))).1
      omega

theorem Placed.representable (h : Placed ctx io) (hfits : Fits ctx) {es : List (Event calls)} {o}
    (hrun : (SpliceIo.loopBody io).Run es o) : ∀ ev ∈ es, Representable ev := by
  have hread := h.counted.read_le
  have hsize := h.size
  rintro ⟨_ | _ | ⟨off, maxLen⟩ | _ | _ | ⟨off, maxLen⟩ | _, answer⟩ he
  case spliceIn =>
    obtain ⟨-, -, rfl, hlt, rfl⟩ := spliceIn_asked hrun he
    obtain hzero | ⟨hle, hpos⟩ := hfits
    · omega
    refine ⟨by omega, ?_⟩
    intro off hoff
    rw [h.offset] at hoff
    obtain ⟨start, hstart, rfl⟩ := Offset.offIn_moved hoff
    have hend := hpos start hstart
    omega
  case spliceOut =>
    obtain ⟨-, -, rfl, hlt, rfl⟩ := spliceOut_asked hrun he
    obtain hzero | ⟨hle, hpos⟩ := hfits
    · omega
    refine ⟨by omega, ?_⟩
    intro off hoff
    rw [h.offset] at hoff
    obtain ⟨start, hstart, rfl⟩ := Offset.offOut_moved_eq hoff
    have hend := hpos start hstart
    omega
  all_goals trivial

/-- The shortest whole transfer asks for everything at once, on both sides. -/
theorem Accepted.fits (hctx : Constructed ctx) (h : Accepted ctx) : Fits ctx := by
  by_cases hzero : ctx.sizeToSplice = 0
  · exact .inl hzero
  have hfresh := hctx.fresh
  obtain ⟨io, hawait⟩ := await_whole hfresh (Nat.pos_of_ne_zero hzero)
  have hadv : ∀ ev ∈ (wholeTurns ctx.sizeToSplice ctx.offset.offIn ctx.offset.offOut).flatMap
      Turn.events, Advancing ev := by
    simp [wholeTurns, fillTurn, drainTurn, Advancing]
  have haccepts : (Env.of Advancing).Accepts () _ () := Env.accepts_of.mpr hadv
  obtain ⟨ts, t, u, _, hr, hs, -, ha, heq⟩ := Machine.await_runs hawait haccepts
  have hrep : ∀ ev ∈ (wholeTurns ctx.sizeToSplice ctx.offset.offIn ctx.offset.offOut).flatMap
      Turn.events, Representable ev := by
    intro ev he
    rw [heq] at he
    obtain ⟨t', ht', he⟩ := List.mem_flatMap.mp he
    obtain ⟨pre, post, u', _, v', _, -, hpre, hstep, -⟩ := (hr.always.snoc hs ha trivial).split ht'
    exact (h _ _ hpre).2 _ _ hstep ev he
  have hin := hrep ⟨.spliceIn ctx.offset.offIn ctx.sizeToSplice,
    ⟨.ok ctx.sizeToSplice, ctx.offset.offIn.map (· + ctx.sizeToSplice)⟩⟩
    (by simp [wholeTurns, fillTurn])
  have hout := hrep ⟨.spliceOut ctx.offset.offOut ctx.sizeToSplice,
    ⟨.ok ctx.sizeToSplice, ctx.offset.offOut.map (· + ctx.sizeToSplice)⟩⟩
    (by simp [wholeTurns, drainTurn])
  refine .inr ⟨hin.1, ?_⟩
  intro start hstart
  cases hoff : ctx.offset with
  | none =>
    rw [hoff] at hstart
    cases hstart
  | input off =>
    rw [hoff] at hstart hin
    exact hin.2 start hstart
  | output off =>
    rw [hoff] at hstart hout
    exact hout.2 start hstart

/-! ### Which arguments fit -/

theorem fits_withTargetLen (hoff : ctx.offset = .none) (n : UInt64) :
    Fits (ctx.withTargetLen n) ↔ n.toNat ≤ isizeMax := by
  constructor
  · rintro (hzero | ⟨hle, -⟩)
    · have hzero : n.toNat = 0 := hzero
      omega
    · exact hle
  · intro hle
    refine .inr ⟨hle, ?_⟩
    intro start hstart
    have hstart : ctx.offset.position = some start := hstart
    rw [hoff] at hstart
    cases hstart

/-- A range fits when it is empty, or ends at a position of the kernel's. -/
theorem fits_range {start stop : UInt64} (hpos : ctx.offset.position = some start.toNat)
    (hstop : start.toNat + ctx.sizeToSplice = stop.toNat) :
    Fits ctx ↔ start = stop ∨ stop.toNat ≤ i64Max := by
  have hempty : start = stop ↔ ctx.sizeToSplice = 0 := by
    rw [← UInt64.toNat_inj]
    omega
  rw [hempty]
  apply or_congr_right
  have hlimits : i64Max = isizeMax := rfl
  constructor
  · rintro ⟨-, hend⟩
    rw [← hstop]
    exact hend _ hpos
  · intro hle
    refine ⟨by omega, ?_⟩
    intro start' hstart'
    cases hpos.symm.trans hstart'
    omega

/-- Every request of a transfer can be represented exactly when the transfer as a whole can: always
with the default target, up to `isize::MAX` with another, and for a range that is empty or ends at
`i64::MAX` at most. -/
theorem requests_accepted_iff (k : PipeKernel) :
    (∀ ctx, Constructed ctx → (Accepted ctx ↔ Fits ctx)) ∧
    (∀ pipe, Pipe.new k = .ok pipe → Accepted (SpliceCtx.new pipe)) ∧
    (∀ ctx n, Constructed ctx → ctx.offset = .none →
      (Accepted (ctx.withTargetLen n) ↔ n.toNat ≤ isizeMax)) ∧
    ∀ fLen fOffsetStart fOffsetEnd ctx,
      SpliceCtx.withInputFile (Pipe.new k) fLen fOffsetStart fOffsetEnd = .ok ctx ∨
        SpliceCtx.withOutputFile (Pipe.new k) fLen fOffsetStart fOffsetEnd = .ok ctx →
      (Accepted ctx ↔ fOffsetStart.getD 0 = fOffsetEnd.getD fLen ∨
        (fOffsetEnd.getD fLen).toNat ≤ i64Max) := by
  have hiff {ctx} (hctx : Constructed ctx) : Accepted ctx ↔ Fits ctx := by
    constructor
    · intro h
      exact h.fits hctx
    · intro hfits ts io h
      have hplaced := run_placed hctx h
      exact ⟨hplaced.unwrapped hctx, fun es o hrun => hplaced.representable hfits hrun⟩
  refine ⟨fun ctx hctx => hiff hctx, ?_, ?_, ?_⟩
  · intro pipe hpipe
    apply (hiff (.new hpipe)).mpr
    exact .inr ⟨Nat.le_refl _, by intro start hstart; cases hstart⟩
  · intro ctx n hctx hoff
    rw [hiff (hctx.targetLen hoff n), fits_withTargetLen hoff]
  · rintro fLen fOffsetStart fOffsetEnd ctx (h | h)
    · rw [hiff (.inputFile h)]
      obtain ⟨pipe, size, -, hsize, rfl⟩ := withInputFile_ok h
      exact fits_range rfl (calcSizeToSplice_end hsize)
    · rw [hiff (.outputFile h)]
      obtain ⟨pipe, size, -, hsize, rfl⟩ := withOutputFile_ok h
      exact fits_range rfl (calcSizeToSplice_end hsize)

/-- A target of one page, and the middle of a file of a hundred bytes. -/
theorem requests_accepted_page :
    Accepted ((SpliceCtx.new .granted).withTargetLen 4096) ∧
      ∃ ctx, SpliceCtx.withInputFile (Pipe.new .granting) 100 (some 10) (some 60) = .ok ctx ∧
        Accepted ctx := by
  obtain ⟨-, -, htarget, hrange⟩ := requests_accepted_iff .granting
  refine ⟨(htarget _ _ (.new Pipe.new_granting) rfl).mpr (by decide), _, rfl, ?_⟩
  exact (hrange 100 (some 10) (some 60) _ (.inl rfl)).mpr (.inr (by decide))

def invalidArgument : IoError := ⟨.invalidInput, "Invalid argument"⟩

/-- The largest target is accepted, asked for at once, and rejected by the kernel: the transfer
fails before its first byte. -/
theorem largest_target_rejected :
    Constructed ((SpliceCtx.new .granted).withTargetLen 18446744073709551615) ∧ ∃ fuel es,
      (SpliceIo.execute fuel (.ofCtx ((SpliceCtx.new .granted).withTargetLen
        18446744073709551615))).Run es (.val (some ⟨0, 0, some invalidArgument⟩)) ∧
      (∀ ev ∈ es, Advancing ev) ∧ ∃ ev ∈ es, ¬ Representable ev := by
  let ctx : SpliceCtx := (SpliceCtx.new .granted).withTargetLen 18446744073709551615
  have hfailed : FillAttempt ctx _ (.error invalidArgument) ctx :=
    @FillAttempt.failed ctx invalidArgument none (by decide) rfl
  have hi : Iteration (.ofCtx ctx) (fillTurn none usizeMax ⟨.error invalidArgument, none⟩)
      ⟨ctx, .faulted invalidArgument⟩ := .fill rfl hfailed rfl
  have hawait : (Machine.await SpliceIo.loopBody 2 (.ofCtx ctx)).Run _ _ :=
    Machine.run_iterate_iff.mpr ⟨_, _, _, .step_of (step_iff.mpr hi) (by simp) rfl (.refl _ _),
      step_iff.mpr (.fault rfl), rfl, Nat.lt_succ_self 1, rfl⟩
  refine ⟨.targetLen (.new Pipe.new_granting) rfl _, 2, _,
    SpliceIo.run_execute.mpr ⟨_, _, hawait, rfl⟩, ?_,
    ⟨.spliceIn none usizeMax, ⟨.error invalidArgument, none⟩⟩, ?_, ?_⟩
  · simp [fillTurn, Advancing]
  · simp [fillTurn]
  · rintro ⟨hle, -⟩
    exact absurd hle (by decide)

end Requests

end Splicer
