import Splicer.Kernel

/-! Transfers between streams: integrity, completeness, and the plain copy loop they refine. -/
namespace Splicer

open Interaction

/-- Unread bytes at the source, an empty pipe, and nothing received. -/
def World.streams (src : List UInt8) : World := ⟨.stream src, [], .stream []⟩

def Sink.bytes : Sink → List UInt8
  | .stream received => received
  | .file content => content

section Streams

variable {cap : ℕ} {ctx : SpliceCtx} {src : List UInt8} {w : World} {io io' : SpliceIo}
  {t : Turn calls (IoResult Unit)} {ts : List (Turn calls (IoResult Unit))}
  {C : SpliceIo → World → Turn calls (IoResult Unit) → Prop}

theorem launch_streams (hctx : Constructed ctx) (hoff : ctx.offset = .none) (src : List UInt8) :
    Launch ctx (.streams src) src where
  fresh := hctx.fresh
  pipe := rfl
  source := by rw [hoff]; rfl
  sink := by rw [hoff]; rfl

/-- Where the bytes of the source are at any point of a run. -/
structure Split (target : ℕ) (src : List UInt8) (ctx : SpliceCtx) (w : World) : Prop where
  source : w.source = .stream (src.drop ctx.bytesRead)
  pipe : w.pipe = (src.take ctx.bytesRead).drop ctx.bytesWritten
  sink : w.sink = .stream (src.take ctx.bytesWritten)
  written_le : ctx.bytesWritten ≤ ctx.bytesRead
  target : ctx.bytesRead ≤ target
  read_le : ctx.bytesRead ≤ src.length

theorem run_split (hctx : Constructed ctx) (hoff : ctx.offset = .none)
    (h : Runs SpliceIo.loopBody (kernel cap) C (.ofCtx ctx) (.streams src) ts io w) :
    Split ctx.sizeToSplice src io.splicer w := by
  obtain ⟨hcount, hcons⟩ := (launch_streams hctx hoff src).run h
  have htarget : io.splicer.sizeToSplice = ctx.sizeToSplice := run_sizeToSplice h
  have hsink : w.sink = .stream (src.take io.splicer.bytesWritten) := by
    have hwrite := hcons.sink
    rw [hoff] at hwrite
    exact (Option.some.inj hwrite).symm
  exact ⟨hcons.source, hcons.pipe, hsink, hcount.written_le, htarget ▸ hcount.read_le,
    hcons.read_le⟩

end Streams

end Splicer
