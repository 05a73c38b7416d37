import Splicer.Invariant
import Splicer.Interaction.Positional

/-! The kernel's side of a transfer: a source, a FIFO pipe and a destination. -/
namespace Splicer

open Interaction Positional

inductive Source where
  | stream (unread : List UInt8)
  | file (content : List UInt8)
  deriving DecidableEq, Repr

inductive Sink where
  | stream (received : List UInt8)
  | file (content : List UInt8)
  deriving DecidableEq, Repr

structure World where
  source : Source
  pipe : List UInt8
  sink : Sink
  deriving DecidableEq, Repr

/-- The bytes up to EOF; a stream is read without an offset and a file at one. -/
def Source.ahead : Source → Option ℕ → Option (List UInt8)
  | .stream unread, none => some unread
  | .file content, some off => some (content.drop off)
  | _, _ => none

def Source.skip : Source → ℕ → Source
  | .stream unread, n => .stream (unread.drop n)
  | .file content, _ => .file content

def Sink.write : Sink → Option ℕ → List UInt8 → Option Sink
  | .stream received, none, data => some (.stream (received ++ data))
  | .file content, some off, data => some (.file (writeAt 0 content off data))
  | _, _, _ => none

/-- `splice(2)` through a pipe of capacity `cap`: errors and the other calls move nothing. -/
def kernel (cap : ℕ) : Env calls World := fun w e w' =>
  match e with
  | ⟨.spliceIn offIn maxLen, ⟨.ok n, off⟩⟩ =>
    ∃ ahead, w.source.ahead offIn = some ahead ∧ n ≤ maxLen ∧ n ≤ ahead.length ∧
      (n = 0 → ahead = []) ∧ w.pipe.length + n ≤ cap ∧ off = offIn.map (· + n) ∧
      w' = { w with source := w.source.skip n, pipe := w.pipe ++ ahead.take n }
  | ⟨.spliceOut offOut maxLen, ⟨.ok n, off⟩⟩ =>
    n ≤ maxLen ∧ n ≤ w.pipe.length ∧ off = offOut.map (· + n) ∧
      ∃ sink, w.sink.write offOut (w.pipe.take n) = some sink ∧
        w' = { w with pipe := w.pipe.drop n, sink }
  | ⟨.spliceIn offIn _, ⟨.error _, off⟩⟩ => off = offIn ∧ w' = w
  | ⟨.spliceOut offOut _, ⟨.error _, off⟩⟩ => off = offOut ∧ w' = w
  | _ => w' = w

/-- A splice moves at most what it was asked for, and moves the offset it was lent by as much. -/
def Advancing : Event calls → Prop
  | ⟨.spliceIn offIn maxLen, ⟨.ok n, off⟩⟩ => n ≤ maxLen ∧ off = offIn.map (· + n)
  | ⟨.spliceOut offOut maxLen, ⟨.ok n, off⟩⟩ => n ≤ maxLen ∧ off = offOut.map (· + n)
  | ⟨.spliceIn offIn _, ⟨.error _, off⟩⟩ => off = offIn
  | ⟨.spliceOut offOut _, ⟨.error _, off⟩⟩ => off = offOut
  | _ => True

theorem Advancing.bounded {e : Event calls} (h : Advancing e) : Bounded e := by
  rcases e with ⟨_ | _ | ⟨off, maxLen⟩ | _ | _ | ⟨off, maxLen⟩ | _, a⟩
  case spliceIn | spliceOut =>
    rcases a with ⟨e | n, off'⟩
    · trivial
    · exact h.1
  all_goals trivial

theorem kernel_advancing {cap : ℕ} {w w' : World} {e : Event calls} (h : kernel cap w e w') :
    Advancing e := by
  rcases e with ⟨_ | _ | ⟨off, maxLen⟩ | _ | _ | ⟨off, maxLen⟩ | _, a⟩
  case spliceIn =>
    rcases a with ⟨e | n, off'⟩
    · exact h.1
    · obtain ⟨ahead, -, hn, -, -, -, hoff, -⟩ := h
      exact ⟨hn, hoff⟩
  case spliceOut =>
    rcases a with ⟨e | n, off'⟩
    · exact h.1
    · obtain ⟨hn, -, hoff, -⟩ := h
      exact ⟨hn, hoff⟩
  all_goals trivial

theorem kernel_bounded {cap : ℕ} {w w' : World} {e : Event calls} (h : kernel cap w e w') :
    Bounded e :=
  (kernel_advancing h).bounded

/-! ### Positions -/

/-- The offset that belongs to `read` bytes in and `written` bytes out. -/
def Offset.moved (read written : ℕ) : Offset → Offset
  | .none => .none
  | .input off => .input (off + read)
  | .output off => .output (off + written)

section Positions

variable {o : Offset} {read written n : ℕ} {s : Source} {k : Sink} {src data data' : List UInt8}

theorem Offset.moved_zero : o.moved 0 0 = o := by
  cases o <;> rfl

theorem Offset.storeIn_offIn : o.storeIn o.offIn = o := by
  cases o <;> rfl

theorem Offset.storeOut_offOut : o.storeOut o.offOut = o := by
  cases o <;> rfl

theorem Offset.storeIn_moved : (o.moved read written).storeIn
    ((o.moved read written).offIn.map (· + n)) = o.moved (read + n) written := by
  cases o <;> simp [moved, storeIn, offIn, Nat.add_assoc]

theorem Offset.storeOut_moved : (o.moved read written).storeOut
    ((o.moved read written).offOut.map (· + n)) = o.moved read (written + n) := by
  cases o <;> simp [moved, storeOut, offOut, Nat.add_assoc]

theorem Offset.offOut_moved : (o.moved read written).offOut = o.offOut.map (· + written) := by
  cases o <;> rfl

theorem Source.skip_zero : s.skip 0 = s := by
  cases s <;> rfl

theorem Source.skip_skip : (s.skip read).skip n = s.skip (read + n) := by
  cases s <;> simp [skip]

theorem Source.ahead_skip (h : s.ahead o.offIn = some src) :
    (s.skip read).ahead (o.moved read written).offIn = some (src.drop read) := by
  cases s <;> cases o <;> simp_all [ahead, skip, Offset.moved, Offset.offIn]
  rw [← h, List.drop_drop]

theorem Sink.write_write {k' : Sink} {off : Option ℕ} (h : k.write off data = some k') :
    k'.write (off.map (· + data.length)) data' = k.write off (data ++ data') := by
  cases k <;> cases off <;> simp_all [write]
  all_goals
    subst h
    simp [writeAt_writeAt]

end Positions

/-! ### The offset of a transfer -/

section Offsets

variable {start : Offset} {ctx ctx' : SpliceCtx} {es : List (Event calls)}
  {res : IoResult SpliceOutcome} {io io' : SpliceIo} {t : Turn calls (IoResult Unit)}

/-- The offset keeps up with the counters. -/
theorem FillAttempt.offset_moved (h : FillAttempt ctx es res ctx') (ha : ∀ e ∈ es, Advancing e)
    (ho : ctx.offset = start.moved ctx.bytesRead ctx.bytesWritten) :
    ctx'.offset = start.moved ctx'.bytesRead ctx'.bytesWritten := by
  cases h with
  | gate => exact ho
  | target => exact ho
  | failed =>
    have hoff : _ = ctx.offset.offIn := ha _ (List.mem_cons_of_mem _ (List.mem_singleton_self _))
    rw [hoff, SpliceCtx.storeIn_offset, Offset.storeIn_offIn]
    exact ho
  | eof =>
    obtain ⟨-, hoff⟩ := ha _ (List.mem_cons_of_mem _ (List.mem_singleton_self _))
    rw [hoff, SpliceCtx.setFillDone_offset, SpliceCtx.storeIn_offset, ho, Offset.storeIn_moved]
    rfl
  | moved =>
    obtain ⟨-, hoff⟩ := ha _ (List.mem_cons_of_mem _ (List.mem_singleton_self _))
    rw [hoff, SpliceCtx.storeIn_offset, ho, Offset.storeIn_moved]
    rfl

theorem DrainAttempt.offset_moved (h : DrainAttempt ctx es res ctx') (ha : ∀ e ∈ es, Advancing e)
    (ho : ctx.offset = start.moved ctx.bytesRead ctx.bytesWritten) :
    ctx'.offset = start.moved ctx'.bytesRead ctx'.bytesWritten := by
  cases h with
  | gate => exact ho
  | closed => exact ho
  | empty => exact ho
  | failed =>
    have hoff : _ = ctx.offset.offOut := ha _ (List.mem_cons_of_mem _ (List.mem_singleton_self _))
    rw [hoff, SpliceCtx.storeOut_offset, Offset.storeOut_offOut]
    exact ho
  | stuck | moved =>
    obtain ⟨-, hoff⟩ := ha _ (List.mem_cons_of_mem _ (List.mem_singleton_self _))
    rw [hoff, SpliceCtx.storeOut_offset, ho, Offset.storeOut_moved]
    rfl

theorem Iteration.offset_moved (hi : Iteration io t io') (ha : ∀ e ∈ t.events, Advancing e)
    (ho : io.splicer.offset = start.moved io.splicer.bytesRead io.splicer.bytesWritten) :
    io'.splicer.offset = start.moved io'.splicer.bytesRead io'.splicer.bytesWritten := by
  cases hi with
  | pending | failed | clean | fault => exact ho
  | fill _ hf _ => exact hf.offset_moved (fun e he => ha e (List.mem_cons_of_mem _ he)) ho
  | drain _ hd => exact hd.offset_moved (fun e he => ha e (List.mem_cons_of_mem _ he)) ho

end Offsets

/-! ### Conservation -/

/-- Every byte of the source is ahead, in the pipe or at the destination, once and in order.
`start` and `w₀` are the context and the world the transfer began with. -/
structure Conserved (start : SpliceCtx) (w₀ : World) (src : List UInt8) (ctx : SpliceCtx)
    (w : World) : Prop where
  offset : ctx.offset = start.offset.moved ctx.bytesRead ctx.bytesWritten
  source : w.source = w₀.source.skip ctx.bytesRead
  pipe : w.pipe = (src.take ctx.bytesRead).drop ctx.bytesWritten
  sink : w₀.sink.write start.offset.offOut (src.take ctx.bytesWritten) = some w.sink
  read_le : ctx.bytesRead ≤ src.length
  ended : ctx.isSourceDone = true →
    ctx.bytesRead = ctx.sizeToSplice ∨ ctx.bytesRead = src.length

section Conservation

variable {cap : ℕ} {start ctx ctx' : SpliceCtx} {w₀ w w' : World} {src : List UInt8}
  {es : List (Event calls)} {res : IoResult SpliceOutcome}

theorem Fresh.conserved (h : Fresh start) (hpipe : w₀.pipe = [])
    (hsink : w₀.sink.write start.offset.offOut [] = some w₀.sink) :
    Conserved start w₀ src start w₀ where
  offset := by rw [h.read, h.written, Offset.moved_zero]
  source := by rw [h.read, Source.skip_zero]
  pipe := by simp [hpipe, h.read]
  sink := by simpa [h.written] using hsink
  read_le := by simp [h.read]
  ended := by simp [h.fill]

theorem Conserved.fill (hc : Conserved start w₀ src ctx w)
    (hsrc : w₀.source.ahead start.offset.offIn = some src)
    (hle : ctx.bytesWritten ≤ ctx.bytesRead) (h : FillAttempt ctx es res ctx')
    (ha : (kernel cap).Accepts w es w') : Conserved start w₀ src ctx' w' := by
  have hahead : w.source.ahead ctx.offset.offIn = some (src.drop ctx.bytesRead) := by
    rw [hc.source, hc.offset]
    exact Source.ahead_skip hsrc
  have hoffset := h.offset_moved (ha.forall fun _ _ _ => kernel_advancing) hc.offset
  cases h with
  | gate e =>
    obtain ⟨w₁, rfl, rfl⟩ := ha
    exact hc
  | target heq =>
    obtain ⟨w₁, rfl, rfl⟩ := ha
    exact ⟨hoffset, hc.source, hc.pipe, hc.sink, hc.read_le, fun _ => .inl heq⟩
  | @failed e off hlt hopen =>
    obtain ⟨w₁, rfl, w₂, ⟨rfl, rfl⟩, rfl⟩ := ha
    exact ⟨hoffset, hc.source, hc.pipe, hc.sink, hc.read_le, hc.ended⟩
  | @eof off hlt hopen =>
    obtain ⟨w₁, rfl, w₂, ⟨ahead, hah, -, -, hend, -, rfl, rfl⟩, rfl⟩ := ha
    cases hahead.symm.trans hah
    have hlen : src.length ≤ ctx.bytesRead := List.drop_eq_nil_iff.mp (hend rfl)
    have hread := hc.read_le
    refine ⟨hoffset, ?_, ?_, hc.sink, hc.read_le, fun _ => .inr (Nat.le_antisymm hread hlen)⟩
    · simpa [Source.skip_zero] using hc.source
    · simpa using hc.pipe
  | @moved n off hlt hopen hn hmax =>
    obtain ⟨w₁, rfl, w₂, ⟨ahead, hah, -, hlen, -, -, rfl, rfl⟩, rfl⟩ := ha
    cases hahead.symm.trans hah
    have hread := hc.read_le
    have hroom : ctx.bytesRead + n ≤ src.length := by
      rw [List.length_drop] at hlen
      omega
    have htake : (src.take ctx.bytesRead).length = ctx.bytesRead := by simp [hread]
    refine ⟨hoffset, ?_, ?_, hc.sink, hroom, fun hfd => absurd (hfd.symm.trans hopen) (by decide)⟩
    · rw [hc.source]
      exact Source.skip_skip
    · simp only [SpliceCtx.storeIn_bytesWritten]
      rw [hc.pipe, List.take_add, List.drop_append_of_le_length (by omega)]

/-- The first bytes of the pipe follow, at the destination, the bytes already there. -/
theorem Conserved.splice_out (hc : Conserved start w₀ src ctx w)
    (hle : ctx.bytesWritten ≤ ctx.bytesRead) {n : ℕ} {sink : Sink}
    (hn : n ≤ ctx.bytesRead - ctx.bytesWritten)
    (h : w.sink.write ctx.offset.offOut (w.pipe.take n) = some sink) :
    Conserved start w₀ src
      { ctx.storeOut (ctx.offset.offOut.map (· + n)) with bytesWritten := ctx.bytesWritten + n }
      { w with pipe := w.pipe.drop n, sink } := by
  have hread := hc.read_le
  have hlen : (src.take ctx.bytesWritten).length = ctx.bytesWritten := by
    rw [List.length_take]
    omega
  have hmoved : src.take ctx.bytesWritten ++ w.pipe.take n = src.take (ctx.bytesWritten + n) := by
    rw [hc.pipe, List.take_add, List.drop_take, List.take_take, Nat.min_eq_left hn]
  refine ⟨?_, hc.source, ?_, ?_, hc.read_le, hc.ended⟩
  · rw [SpliceCtx.storeOut_offset, hc.offset]
    exact Offset.storeOut_moved
  · simp only [SpliceCtx.storeOut_bytesRead]
    rw [hc.pipe, List.drop_drop]
  · have hoff : ctx.offset.offOut =
        start.offset.offOut.map (· + (src.take ctx.bytesWritten).length) := by
      rw [hlen, hc.offset, Offset.offOut_moved]
    rw [hoff, Sink.write_write hc.sink, hmoved] at h
    exact h

theorem Conserved.drain (hc : Conserved start w₀ src ctx w)
    (hle : ctx.bytesWritten ≤ ctx.bytesRead) (h : DrainAttempt ctx es res ctx')
    (ha : (kernel cap).Accepts w es w') : Conserved start w₀ src ctx' w' := by
  have hoffset := h.offset_moved (ha.forall fun _ _ _ => kernel_advancing) hc.offset
  cases h with
  | gate e =>
    obtain ⟨w₁, rfl, rfl⟩ := ha
    exact hc
  | closed heq hfd =>
    obtain ⟨w₁, rfl, rfl⟩ := ha
    exact ⟨hoffset, hc.source, hc.pipe, hc.sink, hc.read_le, hc.ended⟩
  | empty heq hfd =>
    obtain ⟨w₁, rfl, rfl⟩ := ha
    exact hc
  | @failed e off hlt hopen =>
    obtain ⟨w₁, rfl, w₂, ⟨rfl, rfl⟩, rfl⟩ := ha
    exact ⟨hoffset, hc.source, hc.pipe, hc.sink, hc.read_le, hc.ended⟩
  | @stuck off hlt hopen =>
    obtain ⟨w₁, rfl, w₂, ⟨-, -, rfl, sink, hsink, rfl⟩, rfl⟩ := ha
    exact hc.splice_out hle (Nat.zero_le _) hsink
  | @moved n off hlt hopen hn hmax =>
    obtain ⟨w₁, rfl, w₂, ⟨hmaxLen, -, rfl, sink, hsink, rfl⟩, rfl⟩ := ha
    exact hc.splice_out hle hmaxLen hsink

theorem kernel_checked {s : TransferState} {a : Poll (IoResult Unit)}
    (h : kernel cap w (checked s a) w') : w' = w := by
  cases s <;> exact h

theorem Conserved.step {io io' : SpliceIo} {t : Turn calls (IoResult Unit)}
    (hc : Conserved start w₀ src io.splicer w)
    (hsrc : w₀.source.ahead start.offset.offIn = some src) (hcount : Counted io)
    (hi : Iteration io t io') (ha : (kernel cap).Accepts w t.events w') :
    Conserved start w₀ src io'.splicer w' := by
  cases hi with
  | pending =>
    obtain ⟨w₁, hw, rfl⟩ := ha
    rw [kernel_checked hw]
    exact hc
  | failed =>
    obtain ⟨w₁, hw, rfl⟩ := ha
    rw [kernel_checked hw]
    exact hc
  | clean =>
    obtain ⟨w₁, rfl, rfl⟩ := ha
    exact hc
  | fault =>
    obtain ⟨w₁, rfl, rfl⟩ := ha
    exact hc
  | fill hs hf hn =>
    obtain ⟨w₁, rfl, ha⟩ := ha
    exact hc.fill hsrc hcount.written_le hf ha
  | drain hs hd =>
    obtain ⟨w₁, rfl, ha⟩ := ha
    exact hc.drain hcount.written_le hd ha

/-- A transfer of `src` about to start: the offset fits the source and the destination. -/
structure Launch (start : SpliceCtx) (w₀ : World) (src : List UInt8) : Prop where
  fresh : Fresh start
  pipe : w₀.pipe = []
  source : w₀.source.ahead start.offset.offIn = some src
  sink : w₀.sink.write start.offset.offOut [] = some w₀.sink

variable {C : SpliceIo → World → Turn calls (IoResult Unit) → Prop}
  {ts : List (Turn calls (IoResult Unit))} {t : Turn calls (IoResult Unit)} {io io' : SpliceIo}

theorem Launch.run (hl : Launch start w₀ src)
    (h : Runs SpliceIo.loopBody (kernel cap) C (.ofCtx start) w₀ ts io w) :
    Counted io ∧ Conserved start w₀ src io.splicer w := by
  have init : Conserved start w₀ src start w₀ := hl.fresh.conserved hl.pipe hl.sink
  apply transfer_invariant (fun io w => Counted io ∧ Conserved start w₀ src io.splicer w) h
    ⟨hl.fresh.counted, init⟩
  intro io w t io' w' hI hi ha _
  obtain ⟨hcount, hcons⟩ := hI
  have hb := ha.forall fun _ _ _ => kernel_bounded
  exact ⟨hcount.step hi hb, hcons.step hl.source hcount hi ha⟩

/-- When the first `Ready` is `Ok(())`, everything up to the target or to EOF has arrived. -/
theorem Launch.complete (hl : Launch start w₀ src)
    (h : Runs SpliceIo.loopBody (kernel cap) Unready (.ofCtx start) w₀ ts io w)
    (hi : Iteration io t io') (ht : t.flow = .done (.ready (.ok ()))) :
    io'.splicer.bytesRead = min start.sizeToSplice src.length ∧
      io'.splicer.bytesWritten = min start.sizeToSplice src.length := by
  obtain ⟨hcount, hcons⟩ := hl.run h
  have htarget : io.splicer.sizeToSplice = start.sizeToSplice := run_sizeToSplice h
  have hclean : Clean io := run_clean h (by intro hs; cases hs)
  cases hi with
  | clean hs =>
    obtain ⟨hdone, heq⟩ := hclean hs
    have hread := hcons.read_le
    have hle := hcount.read_le
    rcases hcons.ended hdone with hend | hend <;> omega
  | pending | failed | fill | drain | fault => cases ht

end Conservation

end Splicer
