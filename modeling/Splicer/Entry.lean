import Splicer.Bidi
import Splicer.Live

/-! The entry points of the crate: building a context, awaiting the transfer, dropping it. -/
namespace Splicer

open Interaction

/-! ### Construction -/

namespace SpliceCtx

/-- `new_inner`. -/
def create : Prog sys (IoResult SpliceCtx) := do
  let pipe ← Pipe.create
  return pipe.map new

/-- `with_input_file` asks for its pipe after it has accepted the range. -/
def createInputFile (fLen : UInt64) (fOffsetStart fOffsetEnd : Option UInt64) :
    Prog sys (IoResult SpliceCtx) :=
  match Offset.calcSizeToSplice fLen fOffsetStart fOffsetEnd with
  | .error e => .ret (.error e)
  | .ok size =>
    match usizeTryFrom size with
    | none => .ret (.error ⟨.invalidInput, "file size too large"⟩)
    | some sizeToSplice => do
      let pipe ← Pipe.create
      return pipe.map fun pipe =>
        { new pipe with offset := .input (fOffsetStart.getD 0).toNat, sizeToSplice }

def createOutputFile (fLen : UInt64) (fOffsetStart fOffsetEnd : Option UInt64) :
    Prog sys (IoResult SpliceCtx) :=
  match Offset.calcSizeToSplice fLen fOffsetStart fOffsetEnd with
  | .error e => .ret (.error e)
  | .ok size =>
    match usizeTryFrom size with
    | none => .ret (.error ⟨.invalidInput, "splice range too large"⟩)
    | some sizeToSplice => do
      let pipe ← Pipe.create
      return pipe.map fun pipe =>
        { new pipe with offset := .output (fOffsetStart.getD 0).toNat, sizeToSplice }

def resize (ctx : SpliceCtx) (pipeSize : ℕ) : Prog sys (IoResult SpliceCtx) := do
  let pipe ← ctx.pipe.resize pipeSize
  return pipe.map fun pipe => { ctx with pipe }

end SpliceCtx

/-- A chain of constructor and builder calls. -/
inductive Builder where
  | new
  | inputFile (fLen : UInt64) (fOffsetStart fOffsetEnd : Option UInt64)
  | outputFile (fLen : UInt64) (fOffsetStart fOffsetEnd : Option UInt64)
  | targetLen (b : Builder) (sizeToSplice : UInt64)
  | pipeSize (b : Builder) (pipeSize : ℕ)
  deriving DecidableEq, Repr

def Builder.build : Builder → Prog sys (IoResult SpliceCtx)
  | .new => SpliceCtx.create
  | .inputFile fLen fOffsetStart fOffsetEnd =>
    SpliceCtx.createInputFile fLen fOffsetStart fOffsetEnd
  | .outputFile fLen fOffsetStart fOffsetEnd =>
    SpliceCtx.createOutputFile fLen fOffsetStart fOffsetEnd
  | .targetLen b sizeToSplice => do
    let ctx ← b.build
    return ctx.map fun ctx => ctx.withTargetLen sizeToSplice
  | .pipeSize b size => do
    match ← b.build with
    | .error e => return .error e
    | .ok ctx => ctx.resize size

/-! ### One direction -/

/-- `SpliceIo::execute` as the executor sees it: polled, and polled again or dropped after each
`Pending`. It owns the transfer, so that every way out drops the pipe. -/
def SpliceIo.executeLive (fuel : ℕ) (r w : AsyncFd) (io : SpliceIo) :
    Prog sys (Option (Completion TransferReport)) := do
  let body := liveBody r w fun io => io.splicer.pipe.drop
  match ← (body.future (sysCall .suspend)).await fuel io with
  | none => return none
  | some (io, done) =>
    io.splicer.pipe.drop
    return some (done.map io.report)

/-- Build a context and execute it; `?` returns a construction error. -/
def transfer (fuel : ℕ) (b : Builder) (r w : AsyncFd) :
    Prog sys (Option (Completion (IoResult TransferReport))) := do
  match ← b.build with
  | .error e => return some (.returned (.error e))
  | .ok ctx =>
    let report ← SpliceIo.executeLive fuel r w (.ofCtx ctx)
    return report.map (Completion.map .ok)

/-- `copy`: only sockets are `IsNotFile`. -/
def copy (fuel : ℕ) (r w : BorrowedFd) :
    Prog sys (Option (Completion (IoResult TransferReport))) :=
  transfer fuel .new (.socket r) (.socket w)

def sendfile (fuel : ℕ) (r w : BorrowedFd) (fLen : UInt64)
    (fOffsetStart fOffsetEnd : Option UInt64) :
    Prog sys (Option (Completion (IoResult TransferReport))) :=
  transfer fuel (.inputFile fLen fOffsetStart fOffsetEnd) (.file r) (.socket w)

/-! ### Two directions -/

namespace SpliceBidiIo

def drop (io : SpliceBidiIo) : Prog sys Unit := do
  io.ioSl2sr.splicer.pipe.drop
  io.ioSr2sl.splicer.pipe.drop

def pollLive (fuel : ℕ) (sl sr : AsyncFd) (io : SpliceBidiIo) :
    Prog sys (Option (SpliceBidiIo × Poll (IoResult Unit))) := do
  let sl2sr := SpliceIo.liveBody sl sr fun ioSl2sr => drop ⟨ioSl2sr, io.ioSr2sl⟩
  match ← sl2sr.poll fuel io.ioSl2sr with
  | none => return none
  | some (ioSl2sr, ioSl2srRet) =>
    let sr2sl := SpliceIo.liveBody sr sl fun ioSr2sl => drop ⟨ioSl2sr, ioSr2sl⟩
    match ← sr2sl.poll fuel io.ioSr2sl with
    | none => return none
    | some (ioSr2sl, ioSr2slRet) =>
      return some (⟨ioSl2sr, ioSr2sl⟩, combine ioSl2srRet ioSr2slRet)

def awaitLive (fuel : ℕ) (sl sr : AsyncFd) :
    ℕ → SpliceBidiIo → Prog sys (Option (SpliceBidiIo × Completion (IoResult Unit)))
  | 0, _ => .ret none
  | calls + 1, io => do
    match ← io.pollLive fuel sl sr with
    | none => return none
    | some (io, .ready res) => return some (io, .returned res)
    | some (io, .pending) =>
      match ← sysCall .suspend with
      | .poll => awaitLive fuel sl sr calls io
      | .drop => return some (io, .dropped)

def executeLive (fuel : ℕ) (sl sr : AsyncFd) (io : SpliceBidiIo) :
    Prog sys (Option (Completion TransferReport)) := do
  match ← awaitLive fuel sl sr fuel io with
  | none => return none
  | some (io, done) =>
    io.drop
    return some (done.map io.report)

end SpliceBidiIo

/-- `copy_bidirectional`; the first context is dropped when the second cannot be made. -/
def copyBidirectional (fuel : ℕ) (sl sr : BorrowedFd) :
    Prog sys (Option (Completion (IoResult TransferReport))) := do
  match ← SpliceCtx.create with
  | .error e => return some (.returned (.error e))
  | .ok sl2sr =>
    match ← SpliceCtx.create with
    | .error e =>
      sl2sr.pipe.drop
      return some (.returned (.error e))
    | .ok sr2sl =>
      let report ← SpliceBidiIo.executeLive fuel (.socket sl) (.socket sr)
        ⟨.ofCtx sl2sr, .ofCtx sr2sl⟩
      return report.map (Completion.map .ok)

end Splicer
