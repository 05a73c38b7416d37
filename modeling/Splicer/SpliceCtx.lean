import Splicer.Pipe

/-! `SpliceCtx`: the pipe, the byte counters and the file offset of one transfer. -/
namespace Splicer

open Interaction

inductive Offset where
  | none
  | input (off : ℕ)
  | output (off : ℕ)
  deriving DecidableEq, Repr

namespace Offset

def offIn : Offset → Option ℕ
  | .input off => some off
  | _ => Option.none

def offOut : Offset → Option ℕ
  | .output off => some off
  | _ => Option.none

/-- The offset after a `Splicer` was lent `off_in` and left `off` in it. -/
def storeIn : Offset → Option ℕ → Offset
  | .input _, some off => .input off
  | o, _ => o

def storeOut : Offset → Option ℕ → Offset
  | .output _, some off => .output off
  | o, _ => o

def calcSizeToSplice (fLen : UInt64) (fOffsetStart fOffsetEnd : Option UInt64) :
    IoResult UInt64 :=
  let start := fOffsetStart.getD 0
  let «end» := fOffsetEnd.getD fLen
  if start > «end» ∨ «end» > fLen then
    .error ⟨.invalidInput, "invalid offset range"⟩
  else
    .ok («end» - start)

end Offset

structure SpliceCtx where
  offset : Offset
  sizeToSplice : ℕ
  pipe : Pipe
  bytesRead : ℕ
  bytesWritten : ℕ
  deriving DecidableEq, Repr

inductive SpliceOutcome where
  | closed
  | noProgress
  | bytesWritten (n : ℕ)
  deriving DecidableEq, Repr

namespace SpliceCtx

/-! ### Construction -/

def new (pipe : Pipe) : SpliceCtx where
  offset := .none
  sizeToSplice := isizeMax
  pipe := pipe
  bytesRead := 0
  bytesWritten := 0

def withInputFile (pipe : IoResult Pipe) (fLen : UInt64) (fOffsetStart fOffsetEnd : Option UInt64) :
    IoResult SpliceCtx := do
  let size ← Offset.calcSizeToSplice fLen fOffsetStart fOffsetEnd
  match usizeTryFrom size with
  | none => .error ⟨.invalidInput, "file size too large"⟩
  | some sizeToSplice =>
    let offset := Offset.input (fOffsetStart.getD 0).toNat
    pipe.map fun pipe => { new pipe with offset, sizeToSplice }

def withOutputFile (pipe : IoResult Pipe) (fLen : UInt64)
    (fOffsetStart fOffsetEnd : Option UInt64) : IoResult SpliceCtx := do
  let size ← Offset.calcSizeToSplice fLen fOffsetStart fOffsetEnd
  match usizeTryFrom size with
  | none => .error ⟨.invalidInput, "splice range too large"⟩
  | some sizeToSplice =>
    let offset := Offset.output (fOffsetStart.getD 0).toNat
    pipe.map fun pipe => { new pipe with offset, sizeToSplice }

def withTargetLen (ctx : SpliceCtx) (sizeToSplice : UInt64) : SpliceCtx :=
  { ctx with sizeToSplice := sizeToSplice.toNat }

def withPipeSize (ctx : SpliceCtx) (k : PipeKernel) (pipeSize : ℕ) : IoResult SpliceCtx :=
  (ctx.pipe.withPipeSize k pipeSize).map fun pipe => { ctx with pipe }

/-! ### Queries -/

def pipeHasData (ctx : SpliceCtx) : Bool := decide (ctx.bytesRead > ctx.bytesWritten)

def isSourceDone (ctx : SpliceCtx) : Bool := ctx.pipe.isFillDone

/-! ### One splice attempt -/

def setFillDone (ctx : SpliceCtx) : SpliceCtx := { ctx with pipe := ctx.pipe.setFillDone }

def setDrainDone (ctx : SpliceCtx) : SpliceCtx := { ctx with pipe := ctx.pipe.setDrainDone }

def storeIn (ctx : SpliceCtx) (off : Option ℕ) : SpliceCtx :=
  { ctx with offset := ctx.offset.storeIn off }

def storeOut (ctx : SpliceCtx) (off : Option ℕ) : SpliceCtx :=
  { ctx with offset := ctx.offset.storeOut off }

section Fields

variable (ctx : SpliceCtx) (off : Option ℕ)

@[simp] theorem isSourceDone_eq : ctx.isSourceDone = ctx.pipe.isFillDone := rfl

@[simp] theorem pipeHasData_iff : ctx.pipeHasData = true ↔ ctx.bytesWritten < ctx.bytesRead := by
  simp [pipeHasData]

@[simp] theorem setFillDone_offset : ctx.setFillDone.offset = ctx.offset := rfl

@[simp] theorem setFillDone_sizeToSplice : ctx.setFillDone.sizeToSplice = ctx.sizeToSplice := rfl

@[simp] theorem setFillDone_pipe : ctx.setFillDone.pipe = ctx.pipe.setFillDone := rfl

@[simp] theorem setFillDone_bytesRead : ctx.setFillDone.bytesRead = ctx.bytesRead := rfl

@[simp] theorem setFillDone_bytesWritten : ctx.setFillDone.bytesWritten = ctx.bytesWritten := rfl

@[simp] theorem setDrainDone_offset : ctx.setDrainDone.offset = ctx.offset := rfl

@[simp] theorem setDrainDone_sizeToSplice : ctx.setDrainDone.sizeToSplice = ctx.sizeToSplice := rfl

@[simp] theorem setDrainDone_pipe : ctx.setDrainDone.pipe = ctx.pipe.setDrainDone := rfl

@[simp] theorem setDrainDone_bytesRead : ctx.setDrainDone.bytesRead = ctx.bytesRead := rfl

@[simp] theorem setDrainDone_bytesWritten : ctx.setDrainDone.bytesWritten = ctx.bytesWritten := rfl

@[simp] theorem storeIn_offset : (ctx.storeIn off).offset = ctx.offset.storeIn off := rfl

@[simp] theorem storeIn_sizeToSplice : (ctx.storeIn off).sizeToSplice = ctx.sizeToSplice := rfl

@[simp] theorem storeIn_pipe : (ctx.storeIn off).pipe = ctx.pipe := rfl

@[simp] theorem storeIn_bytesRead : (ctx.storeIn off).bytesRead = ctx.bytesRead := rfl

@[simp] theorem storeIn_bytesWritten : (ctx.storeIn off).bytesWritten = ctx.bytesWritten := rfl

@[simp] theorem storeOut_offset : (ctx.storeOut off).offset = ctx.offset.storeOut off := rfl

@[simp] theorem storeOut_sizeToSplice : (ctx.storeOut off).sizeToSplice = ctx.sizeToSplice := rfl

@[simp] theorem storeOut_pipe : (ctx.storeOut off).pipe = ctx.pipe := rfl

@[simp] theorem storeOut_bytesRead : (ctx.storeOut off).bytesRead = ctx.bytesRead := rfl

@[simp] theorem storeOut_bytesWritten : (ctx.storeOut off).bytesWritten = ctx.bytesWritten := rfl

end Fields

def trySpliceFromSource (ctx : SpliceCtx) : Comp (IoResult SpliceOutcome × SpliceCtx) := do
  let bytesRemaining ← usizeSub ctx.sizeToSplice ctx.bytesRead
  if bytesRemaining = 0 then
    return (.ok .closed, ctx.setFillDone)
  else
    let _pipeW ← expectFd ctx.pipe.fillFd
    let answer ← call (.spliceIn ctx.offset.offIn bytesRemaining)
    let ctx := ctx.storeIn answer.off
    match answer.ret with
    | .error e => return (.error e, ctx)
    | .ok n =>
      if n > 0 then
        let bytesRead ← usizeAdd ctx.bytesRead n
        return (.ok (.bytesWritten n), { ctx with bytesRead })
      else
        return (.ok .closed, ctx.setFillDone)

def trySpliceToDest (ctx : SpliceCtx) : Comp (IoResult SpliceOutcome × SpliceCtx) := do
  let bytesRemaining ← usizeSub ctx.bytesRead ctx.bytesWritten
  if bytesRemaining = 0 then
    if ctx.isSourceDone then
      return (.ok .closed, ctx.setDrainDone)
    else
      return (.ok .noProgress, ctx)
  else
    let _pipeR ← expectFd ctx.pipe.drainFd
    let answer ← call (.spliceOut ctx.offset.offOut bytesRemaining)
    let ctx := ctx.storeOut answer.off
    match answer.ret with
    | .error e => return (.error e, ctx)
    | .ok n =>
      if n > 0 then
        let bytesWritten ← usizeAdd ctx.bytesWritten n
        return (.ok (.bytesWritten n), { ctx with bytesWritten })
      else
        return (.ok .noProgress, ctx)

end SpliceCtx

end Splicer
