import Splicer.Stream
import Splicer.Trace

/-! Transfers from and to a file: the accepted ranges, and the offsets that stay inside them. -/
namespace Splicer

open Interaction Positional

/-! ### Ranges -/

section Ranges

variable {fLen : UInt64} {fOffsetStart fOffsetEnd : Option UInt64}

/-- `start > end || end > f_len`, with the defaults filled in. -/
def BadRange (fLen : UInt64) (fOffsetStart fOffsetEnd : Option UInt64) : Prop :=
  fOffsetStart.getD 0 > fOffsetEnd.getD fLen ∨ fOffsetEnd.getD fLen > fLen

theorem calcSizeToSplice_bad (h : BadRange fLen fOffsetStart fOffsetEnd) :
    Offset.calcSizeToSplice fLen fOffsetStart fOffsetEnd =
      .error ⟨.invalidInput, "invalid offset range"⟩ := by
  rw [Offset.calcSizeToSplice]
  exact if_pos h

theorem calcSizeToSplice_good (h : ¬ BadRange fLen fOffsetStart fOffsetEnd) :
    Offset.calcSizeToSplice fLen fOffsetStart fOffsetEnd =
      .ok (fOffsetEnd.getD fLen - fOffsetStart.getD 0) := by
  rw [Offset.calcSizeToSplice]
  exact if_neg h

/-- An accepted range lies inside the announced length, and its size is that of the request. -/
theorem calcSizeToSplice_ok {size : UInt64}
    (h : Offset.calcSizeToSplice fLen fOffsetStart fOffsetEnd = .ok size) :
    (fOffsetStart.getD 0).toNat ≤ (fOffsetEnd.getD fLen).toNat ∧
      (fOffsetEnd.getD fLen).toNat ≤ fLen.toNat ∧
      size.toNat = (fOffsetEnd.getD fLen).toNat - (fOffsetStart.getD 0).toNat := by
  by_cases hbad : BadRange fLen fOffsetStart fOffsetEnd
  · rw [calcSizeToSplice_bad hbad] at h
    cases h
  · rw [calcSizeToSplice_good hbad] at h
    cases h
    obtain ⟨hstart, hend⟩ := not_or.mp hbad
    have hstart : fOffsetStart.getD 0 ≤ fOffsetEnd.getD fLen := UInt64.not_lt.mp hstart
    exact ⟨hstart, UInt64.not_lt.mp hend, UInt64.toNat_sub_of_le _ _ hstart⟩

theorem withInputFile_rejects_iff {pipe : Pipe} :
    SpliceCtx.withInputFile (.ok pipe) fLen fOffsetStart fOffsetEnd =
        .error ⟨.invalidInput, "invalid offset range"⟩ ↔
      BadRange fLen fOffsetStart fOffsetEnd := by
  by_cases hbad : BadRange fLen fOffsetStart fOffsetEnd
  · simp [SpliceCtx.withInputFile, calcSizeToSplice_bad hbad, hbad, bind, Except.bind]
  · simp [SpliceCtx.withInputFile, calcSizeToSplice_good hbad, hbad, usizeTryFrom_eq, bind,
      Except.bind, Except.map]

theorem withInputFile_accepts {pipe : Pipe} (h : ¬ BadRange fLen fOffsetStart fOffsetEnd) :
    ∃ ctx, SpliceCtx.withInputFile (.ok pipe) fLen fOffsetStart fOffsetEnd = .ok ctx := by
  simp [SpliceCtx.withInputFile, calcSizeToSplice_good h, usizeTryFrom_eq, bind, Except.bind,
    Except.map]

end Ranges

/-! ### Input -/

/-- The three records of the input position agree, and only a fill moves them. -/
structure InputAt (start stop : ℕ) (io : SpliceIo) : Prop where
  offset : io.splicer.offset = .input (start + io.splicer.bytesRead)
  remaining : io.splicer.sizeToSplice - io.splicer.bytesRead =
    stop - (start + io.splicer.bytesRead)
  request : ∀ {t io' off maxLen answer}, Machine.Step SpliceIo.loopBody io t io' →
    ⟨.spliceIn off maxLen, answer⟩ ∈ t.events →
    off = some (start + io.splicer.bytesRead) ∧ maxLen = stop - (start + io.splicer.bytesRead)
  drain : ∀ {t io'}, Machine.Step SpliceIo.loopBody io t io' → io.state = .drain →
    io'.splicer.offset = io.splicer.offset

section Input

variable {ctx ctx' : SpliceCtx} {es : List (Event calls)} {res : IoResult SpliceOutcome}
  {io io' : SpliceIo} {t : Turn calls (IoResult Unit)}

theorem DrainAttempt.input_offset {off : ℕ} (h : DrainAttempt ctx es res ctx')
    (hoff : ctx.offset = .input off) : ctx'.offset = ctx.offset := by
  cases h <;> simp [hoff, Offset.storeOut]

theorem Iteration.drain_input {off : ℕ} (hi : Iteration io t io') (hs : io.state = .drain)
    (hoff : io.splicer.offset = .input off) : io'.splicer.offset = io.splicer.offset := by
  cases hi with
  | drain _ hd => exact hd.input_offset hoff
  | fill hs' => cases hs.symm.trans hs'
  | pending | failed | clean | fault => rfl

variable {k : PipeKernel} {fLen : UInt64} {fOffsetStart fOffsetEnd : Option UInt64} {cap : ℕ}
  {F : List UInt8} {w : World} {ts : List (Turn calls (IoResult Unit))}

theorem launch_inputFile
    (h : SpliceCtx.withInputFile (Pipe.new k) fLen fOffsetStart fOffsetEnd = .ok ctx)
    (F : List UInt8) :
    Launch ctx ⟨.file F, [], .stream []⟩ (F.drop (fOffsetStart.getD 0).toNat) := by
  have hfresh := (Constructed.inputFile h).fresh
  obtain ⟨pipe, size, -, -, rfl⟩ := withInputFile_ok h
  exact ⟨hfresh, rfl, rfl, rfl⟩

theorem run_inputAt
    (h : SpliceCtx.withInputFile (Pipe.new k) fLen fOffsetStart fOffsetEnd = .ok ctx)
    (hr : Runs SpliceIo.loopBody (kernel cap) Always (.ofCtx ctx) ⟨.file F, [], .stream []⟩
      ts io w) :
    InputAt (fOffsetStart.getD 0).toNat (fOffsetEnd.getD fLen).toNat io := by
  obtain ⟨hcount, hcons⟩ := (launch_inputFile h F).run hr
  have htarget : io.splicer.sizeToSplice = ctx.sizeToSplice := run_sizeToSplice hr
  have hoffset := hcons.offset
  obtain ⟨pipe, size, -, hc, rfl⟩ := withInputFile_ok h
  obtain ⟨hstart, -, hsize⟩ := calcSizeToSplice_ok hc
  have hoffset : io.splicer.offset =
    .input ((fOffsetStart.getD 0).toNat + io.splicer.bytesRead) := hoffset
  have hremaining : io.splicer.sizeToSplice - io.splicer.bytesRead =
      (fOffsetEnd.getD fLen).toNat - ((fOffsetStart.getD 0).toNat + io.splicer.bytesRead) := by
    rw [htarget]
    simp only
    omega
  refine ⟨hoffset, hremaining, ?_, ?_⟩
  · intro t io' off maxLen answer hs he
    obtain ⟨-, -, hoff, -, hmax⟩ := spliceIn_asked hs he
    rw [hoffset] at hoff
    exact ⟨hoff, hmax.trans hremaining⟩
  · intro t io' hs hstate
    exact (step_iff.mp hs).drain_input hstate hoffset

/-- A range is rejected exactly when it is bad; an accepted one is read in place, its three
position records agree at every point, and a clean end delivers the slice of the file. -/
theorem inputFile_slice (k : PipeKernel) (fLen : UInt64) (fOffsetStart fOffsetEnd : Option UInt64)
    (F : List UInt8) (cap : ℕ) :
    (∀ pipe, (SpliceCtx.withInputFile (.ok pipe) fLen fOffsetStart fOffsetEnd =
        .error ⟨.invalidInput, "invalid offset range"⟩ ↔ BadRange fLen fOffsetStart fOffsetEnd) ∧
      (¬ BadRange fLen fOffsetStart fOffsetEnd →
        ∃ ctx, SpliceCtx.withInputFile (.ok pipe) fLen fOffsetStart fOffsetEnd = .ok ctx)) ∧
    ∀ ctx, SpliceCtx.withInputFile (Pipe.new k) fLen fOffsetStart fOffsetEnd = .ok ctx →
      (∀ ts io w, Runs SpliceIo.loopBody (kernel cap) Always (.ofCtx ctx)
          ⟨.file F, [], .stream []⟩ ts io w →
        InputAt (fOffsetStart.getD 0).toNat (fOffsetEnd.getD fLen).toNat io) ∧
      ∀ fuel es io w,
        (Machine.await SpliceIo.loopBody fuel (.ofCtx ctx)).Run es (.val (some (io, .ok ()))) →
        (kernel cap).Accepts ⟨.file F, [], .stream []⟩ es w →
        w.sink = .stream ((F.take (min (fOffsetEnd.getD fLen).toNat F.length)).drop
          (fOffsetStart.getD 0).toNat) := by
  refine ⟨?_, ?_⟩
  · intro pipe
    exact ⟨withInputFile_rejects_iff, withInputFile_accepts⟩
  intro ctx h
  refine ⟨fun ts io w hr => run_inputAt h hr, ?_⟩
  intro fuel es io w hawait ha
  obtain ⟨ts, t, u, v, hr, hs, hf, hv, -⟩ := Machine.await_runs hawait ha
  have hl := launch_inputFile h F
  obtain ⟨-, hwritten⟩ := hl.complete hr (step_iff.mp hs) hf
  obtain ⟨-, hcons⟩ := hl.run (hr.always.snoc hs hv trivial)
  have hsink := hcons.sink
  obtain ⟨pipe, size, -, hc, rfl⟩ := withInputFile_ok h
  obtain ⟨hstart, -, hsize⟩ := calcSizeToSplice_ok hc
  have hsink := Option.some.inj hsink
  rw [← hsink, List.drop_take, hwritten, List.length_drop, List.nil_append]
  congr 2
  simp only
  omega

/-- Bytes 4 to 9 of a file of twelve, in one fill and one drain. -/
theorem inputFile_slice_middle :
    ∃ io w, (Machine.await SpliceIo.loopBody 5 (.ofCtx
          { SpliceCtx.new .granted with offset := .input 4, sizeToSplice := 5 })).Run
        ((wholeTurns 5 (some 4) none).flatMap Turn.events) (.val (some (io, .ok ()))) ∧
      (kernel 16).Accepts ⟨.file [0, 1, 2, 3, 4, 5, 6, 7, 8, 9, 10, 11], [], .stream []⟩
        ((wholeTurns 5 (some 4) none).flatMap Turn.events) w ∧
      w.sink = .stream [4, 5, 6, 7, 8] := by
  let ctx : SpliceCtx := { SpliceCtx.new .granted with offset := .input 4, sizeToSplice := 5 }
  have hctx : SpliceCtx.withInputFile (Pipe.new .granting) 12 (some 4) (some 9) = .ok ctx := rfl
  obtain ⟨io, hawait⟩ := await_whole (Constructed.inputFile hctx).fresh (Nat.succ_pos 4)
  have ha : (kernel 16).Accepts ⟨.file [0, 1, 2, 3, 4, 5, 6, 7, 8, 9, 10, 11], [], .stream []⟩
      ((wholeTurns 5 (some 4) none).flatMap Turn.events)
      ⟨.file [0, 1, 2, 3, 4, 5, 6, 7, 8, 9, 10, 11], [], .stream [4, 5, 6, 7, 8]⟩ :=
    ⟨_, rfl, _, rfl, _, ⟨_, rfl, by decide, by decide, by decide, by decide, rfl, rfl⟩,
      _, rfl, _, rfl, _, rfl, _, rfl, _, ⟨by decide, by decide, rfl, _, rfl, rfl⟩,
      _, rfl, _, rfl, _, rfl, rfl⟩
  exact ⟨_, _, hawait, ha, ((inputFile_slice .granting 12 (some 4) (some 9) _ 16).2 ctx hctx).2
    5 _ _ _ hawait ha⟩

end Input

/-! ### Output -/

/-- The first `n` bytes of `src` stand at `start`, and every other byte is the old file's; a gap
before `start` is a hole. -/
structure Overwritten (old : List UInt8) (start n : ℕ) (src content : List UInt8) : Prop where
  inside : ∀ i, i < n → content[start + i]? = src[i]?
  outside : ∀ p, p < start ∧ p < old.length ∨ start + n ≤ p → content[p]? = old[p]?
  gap : ∀ p, old.length ≤ p → p < start → content[p]? = none ∨ content[p]? = some 0

structure OutputAt (start stop fLen : ℕ) (old src : List UInt8) (io : SpliceIo) (w : World) :
    Prop where
  sink : ∃ content, w.sink = .file content ∧
    Overwritten old start io.splicer.bytesWritten src content
  source : w.source = .stream (src.drop io.splicer.bytesRead)
  written_le : start + io.splicer.bytesWritten ≤ stop
  stop_le : stop ≤ fLen
  read_le : io.splicer.bytesRead ≤ stop - start
  fill : ∀ {t io'}, Machine.Step SpliceIo.loopBody io t io' → io.state = .fill →
    io'.splicer.offset = io.splicer.offset

section Output

variable {ctx ctx' : SpliceCtx} {es : List (Event calls)} {res : IoResult SpliceOutcome}
  {io io' : SpliceIo} {t : Turn calls (IoResult Unit)} {k : PipeKernel} {fLen : UInt64}
  {fOffsetStart fOffsetEnd : Option UInt64} {cap : ℕ} {old src : List UInt8} {w : World}
  {ts : List (Turn calls (IoResult Unit))}

theorem FillAttempt.output_offset {off : ℕ} (h : FillAttempt ctx es res ctx')
    (hoff : ctx.offset = .output off) : ctx'.offset = ctx.offset := by
  cases h <;> simp [hoff, Offset.storeIn]

theorem Iteration.fill_output {off : ℕ} (hi : Iteration io t io') (hs : io.state = .fill)
    (hoff : io.splicer.offset = .output off) : io'.splicer.offset = io.splicer.offset := by
  cases hi with
  | fill _ hf _ => exact hf.output_offset hoff
  | drain hs' => cases hs.symm.trans hs'
  | pending | failed | clean | fault => rfl

theorem overwritten_writeAt {start n : ℕ} (hn : n ≤ src.length) :
    Overwritten old start n src (writeAt 0 old start (src.take n)) := by
  have hlen : (src.take n).length = n := by
    rw [List.length_take]
    omega
  refine ⟨?_, ?_, ?_⟩
  · intro i hi
    rw [getElem?_writeAt_inside (by omega), List.getElem?_take_of_lt hi]
  · intro p hp
    apply getElem?_writeAt_outside
    omega
  · intro p hlen hlt
    exact getElem?_writeAt_gap hlen hlt

theorem launch_outputFile
    (h : SpliceCtx.withOutputFile (Pipe.new k) fLen fOffsetStart fOffsetEnd = .ok ctx)
    (old src : List UInt8) : Launch ctx ⟨.stream src, [], .file old⟩ src := by
  have hfresh := (Constructed.outputFile h).fresh
  obtain ⟨pipe, size, -, -, rfl⟩ := withOutputFile_ok h
  refine ⟨hfresh, rfl, rfl, ?_⟩
  simp [Sink.write, Offset.offOut]

theorem run_outputAt
    (h : SpliceCtx.withOutputFile (Pipe.new k) fLen fOffsetStart fOffsetEnd = .ok ctx)
    (hr : Runs SpliceIo.loopBody (kernel cap) Always (.ofCtx ctx) ⟨.stream src, [], .file old⟩
      ts io w) :
    OutputAt (fOffsetStart.getD 0).toNat (fOffsetEnd.getD fLen).toNat fLen.toNat old src io w := by
  obtain ⟨hcount, hcons⟩ := (launch_outputFile h old src).run hr
  have htarget : io.splicer.sizeToSplice = ctx.sizeToSplice := run_sizeToSplice hr
  have hwritten := hcount.written_le
  have hread := hcount.read_le
  have hlen := hcons.read_le
  have hoffset := hcons.offset
  have hsink := hcons.sink
  obtain ⟨pipe, size, -, hc, rfl⟩ := withOutputFile_ok h
  obtain ⟨hstart, hstop, hsize⟩ := calcSizeToSplice_ok hc
  have htarget : io.splicer.sizeToSplice = size.toNat := htarget
  refine ⟨⟨_, (Option.some.inj hsink).symm, overwritten_writeAt (by omega)⟩, hcons.source,
    by omega, hstop, by omega, ?_⟩
  intro t io' hs hstate
  exact (step_iff.mp hs).fill_output hstate hoffset

/-- At every point the file holds the bytes written so far at the start of the range and is
otherwise the old one; a clean end has written all that the source and the range allow. -/
theorem outputFile_frame (k : PipeKernel) (fLen : UInt64) (fOffsetStart fOffsetEnd : Option UInt64)
    (old src : List UInt8) (cap : ℕ) {ctx : SpliceCtx}
    (h : SpliceCtx.withOutputFile (Pipe.new k) fLen fOffsetStart fOffsetEnd = .ok ctx) :
    (∀ ts io w, Runs SpliceIo.loopBody (kernel cap) Always (.ofCtx ctx)
        ⟨.stream src, [], .file old⟩ ts io w →
      OutputAt (fOffsetStart.getD 0).toNat (fOffsetEnd.getD fLen).toNat fLen.toNat old src io w) ∧
    ∀ fuel es io w,
      (Machine.await SpliceIo.loopBody fuel (.ofCtx ctx)).Run es (.val (some (io, .ok ()))) →
      (kernel cap).Accepts ⟨.stream src, [], .file old⟩ es w →
      io.splicer.bytesWritten =
        min ((fOffsetEnd.getD fLen).toNat - (fOffsetStart.getD 0).toNat) src.length := by
  refine ⟨fun ts io w hr => run_outputAt h hr, ?_⟩
  intro fuel es io w hawait ha
  obtain ⟨ts, t, u, v, hr, hs, hf, hv, -⟩ := Machine.await_runs hawait ha
  obtain ⟨-, hwritten⟩ := (launch_outputFile h old src).complete hr (step_iff.mp hs) hf
  obtain ⟨pipe, size, -, hc, rfl⟩ := withOutputFile_ok h
  obtain ⟨-, -, hsize⟩ := calcSizeToSplice_ok hc
  rw [hwritten, ← hsize]

/-- Five bytes over the middle of a file of twelve. -/
theorem outputFile_frame_middle :
    ∃ io w, (Machine.await SpliceIo.loopBody 5 (.ofCtx
          { SpliceCtx.new .granted with offset := .output 4, sizeToSplice := 5 })).Run
        ((wholeTurns 5 none (some 4)).flatMap Turn.events) (.val (some (io, .ok ()))) ∧
      (kernel 16).Accepts ⟨.stream [9, 9, 9, 9, 9, 9], [], .file (List.replicate 12 0)⟩
        ((wholeTurns 5 none (some 4)).flatMap Turn.events) w ∧
      io.splicer.bytesWritten = 5 := by
  let ctx : SpliceCtx := { SpliceCtx.new .granted with offset := .output 4, sizeToSplice := 5 }
  have hctx : SpliceCtx.withOutputFile (Pipe.new .granting) 12 (some 4) (some 9) = .ok ctx := rfl
  obtain ⟨io, hawait⟩ := await_whole (Constructed.outputFile hctx).fresh (Nat.succ_pos 4)
  have ha : (kernel 16).Accepts ⟨.stream [9, 9, 9, 9, 9, 9], [], .file (List.replicate 12 0)⟩
      ((wholeTurns 5 none (some 4)).flatMap Turn.events)
      ⟨.stream [9], [], .file [0, 0, 0, 0, 9, 9, 9, 9, 9, 0, 0, 0]⟩ :=
    ⟨_, rfl, _, rfl, _, ⟨_, rfl, by decide, by decide, by decide, by decide, rfl, rfl⟩,
      _, rfl, _, rfl, _, rfl, _, rfl, _, ⟨by decide, by decide, rfl, _, rfl, rfl⟩,
      _, rfl, _, rfl, _, rfl, rfl⟩
  exact ⟨_, _, hawait, ha, (outputFile_frame .granting 12 (some 4) (some 9) _ _ 16 hctx).2
    5 _ _ _ hawait ha⟩

end Output

end Splicer
