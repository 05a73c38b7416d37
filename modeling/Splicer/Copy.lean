import Splicer.Stream
import Splicer.Trace

/-! The plain copy loop, and what a transfer delivers compared with it. -/
namespace Splicer

open Interaction

/-! ### The plain loop -/

structure Copy where
  unread : List UInt8
  delivered : List UInt8
  ended : Option (IoResult Unit)
  deriving Repr

def Copy.start (target : ℕ) (src : List UInt8) : Copy :=
  ⟨src, [], if target = 0 then some (.ok ()) else none⟩

/-- One read of the loop; its chunk is written before the next read. -/
def Copy.read (target : ℕ) (c : Copy) (answer : IoResult ℕ) : Copy :=
  match c.ended, answer with
  | some _, _ => c
  | none, .ok n =>
    if n = 0 then { c with ended := some (.ok ()) }
    else
      { unread := c.unread.drop n
        delivered := c.delivered ++ c.unread.take n
        ended := if c.delivered.length + n = target then some (.ok ()) else none }
  | none, .error e => if e.kind = .wouldBlock then c else { c with ended := some (.error e) }

def plainCopy (target : ℕ) (src : List UInt8) (reads : List (IoResult ℕ)) : Copy :=
  reads.foldl (Copy.read target) (.start target src)

/-! ### The source's part of a trace -/

def readAnswer : Event calls → Option (IoResult ℕ)
  | ⟨.spliceIn _ _, answer⟩ => some answer.ret
  | _ => none

def sourceTrace (es : List (Event calls)) : List (IoResult ℕ) := es.filterMap readAnswer

def Copy.watch (target : ℕ) (c : Copy) (e : Event calls) : Copy :=
  match readAnswer e with
  | some answer => c.read target answer
  | none => c

theorem plainCopy_sourceTrace {target : ℕ} {src : List UInt8} {es : List (Event calls)} :
    plainCopy target src (sourceTrace es) = es.foldl (Copy.watch target) (.start target src) := by
  rw [plainCopy, sourceTrace, List.foldl_filterMap]
  congr 1
  funext c e
  rw [Copy.watch]
  cases readAnswer e <;> rfl

/-- Nothing fails for good except `splice_in`: the writer may be slow, never broken. -/
def OnlySourceFails : Event calls → Prop
  | ⟨.pollReadReady, .ready (.error _)⟩ => False
  | ⟨.pollWriteReady, .ready (.error _)⟩ => False
  | ⟨.pollShutdown, .ready (.error _)⟩ => False
  | ⟨.tryIoRead, .err e⟩ => e.kind = .wouldBlock
  | ⟨.tryIoWrite, .err e⟩ => e.kind = .wouldBlock
  | ⟨.spliceOut _ _, ⟨.error e, _⟩⟩ => e.kind = .wouldBlock
  | _ => True

theorem not_onlySourceFails_checked {s : TransferState} {e : IoError} :
    ¬ OnlySourceFails (checked s (.ready (.error e))) := by
  cases s <;> exact id

/-! ### Faults -/

section Faults

variable {ctx ctx' : SpliceCtx} {es : List (Event calls)} {res : IoResult SpliceOutcome}

theorem DrainAttempt.fault?_eq_none (h : DrainAttempt ctx es res ctx')
    (hp : ∀ e ∈ es, OnlySourceFails e) : fault? res = none := by
  cases h with
  | gate e =>
    have hk : e.kind = .wouldBlock := hp _ (List.mem_singleton_self _)
    simp [fault?, hk]
  | @failed e off =>
    have hk : e.kind = .wouldBlock := hp _ (List.mem_cons_of_mem _ (List.mem_singleton_self _))
    simp [fault?, hk]
  | closed | empty | stuck | moved => rfl

theorem DrainAttempt.watch_eq (h : DrainAttempt ctx es res ctx') (target : ℕ) (c : Copy) :
    es.foldl (Copy.watch target) c = c := by
  cases h <;> rfl

end Faults

/-! ### The comparison -/

/-- How the source has ended so far, as the machine knows it. -/
def SpliceIo.ended (io : SpliceIo) : Option (IoResult Unit) :=
  match io.state.fault? with
  | some e => some (.error e)
  | none =>
    if io.splicer.isSourceDone = true ∨ io.splicer.bytesRead = io.splicer.sizeToSplice then
      some (.ok ())
    else none

/-- The plain loop has read what the machine has read, and delivered all of it. -/
def copied (src : List UInt8) (io : SpliceIo) : Copy :=
  ⟨src.drop io.splicer.bytesRead, src.take io.splicer.bytesRead, io.ended⟩

section Comparison

variable {cap : ℕ} {ctx ctx' : SpliceCtx} {src : List UInt8} {w w' : World} {io io' : SpliceIo}
  {t : Turn calls (IoResult Unit)} {es : List (Event calls)} {res : IoResult SpliceOutcome}

theorem watch_checked {target : ℕ} {c : Copy} {s : TransferState} {a : Poll (IoResult Unit)} :
    Copy.watch target c (checked s a) = c := by
  cases s <;> rfl

theorem copied_fill (src : List UInt8) {next : TransferState} (hle : ctx.bytesRead ≤ src.length)
    (h : FillAttempt ctx es res ctx') (hn : afterFill ctx'.pipeHasData res = some next)
    (hp : ∀ e ∈ es, OnlySourceFails e) :
    es.foldl (Copy.watch ctx.sizeToSplice) (copied src ⟨ctx, .fill⟩) = copied src ⟨ctx', next⟩ := by
  have hfault := afterFill_fault? hn
  have hlen : (src.take ctx.bytesRead).length = ctx.bytesRead := by simp [hle]
  cases h with
  | gate e =>
    have hk : e.kind = .wouldBlock := hp _ (List.mem_singleton_self _)
    have hnone : next.fault? = none := by rw [hfault]; simp [fault?, hk]
    simp [copied, SpliceIo.ended, hnone, Copy.watch, readAnswer]
  | target heq =>
    have hnone : next.fault? = none := hfault
    simp [copied, SpliceIo.ended, hnone, Copy.watch, readAnswer, heq]
  | @failed e off hlt hopen =>
    have hopen : ctx.pipe.isFillDone = false := hopen
    have hne : ctx.bytesRead ≠ ctx.sizeToSplice := by omega
    by_cases hk : e.kind = .wouldBlock
    · have hnone : next.fault? = none := by rw [hfault]; simp [fault?, hk]
      simp [copied, SpliceIo.ended, hnone, Copy.watch, readAnswer, Copy.read,
        hopen, hne, hk]
    · have hsome : next.fault? = some e := by rw [hfault]; simp [fault?, hk]
      simp [copied, SpliceIo.ended, hsome, Copy.watch, readAnswer, Copy.read,
        hopen, hne, hk]
  | eof hlt hopen =>
    have hopen : ctx.pipe.isFillDone = false := hopen
    have hne : ctx.bytesRead ≠ ctx.sizeToSplice := by omega
    have hnone : next.fault? = none := hfault
    simp [copied, SpliceIo.ended, hnone, Copy.watch, readAnswer, Copy.read,
      hopen, hne]
  | @moved n off hlt hopen hn hmax =>
    have hopen : ctx.pipe.isFillDone = false := hopen
    have hne : ctx.bytesRead ≠ ctx.sizeToSplice := by omega
    have hpos : n ≠ 0 := by omega
    have hnone : next.fault? = none := hfault
    simp [copied, SpliceIo.ended, hnone, Copy.watch, readAnswer, Copy.read,
      hopen, hne, hpos, hle, List.take_add]

theorem copied_drain (src : List UInt8) (h : DrainAttempt ctx es res ctx')
    (hp : ∀ e ∈ es, OnlySourceFails e) :
    es.foldl (Copy.watch ctx.sizeToSplice) (copied src ⟨ctx, .drain⟩) =
      copied src ⟨ctx', afterDrain ctx'.pipeHasData res⟩ := by
  obtain ⟨htarget, hread, hdone⟩ := h.frame
  have hnone : (afterDrain ctx'.pipeHasData res).fault? = none := by
    rw [afterDrain_fault?, h.fault?_eq_none hp]
  simp only [h.watch_eq, copied, SpliceIo.ended, hnone, fault?_drain, htarget, hread, hdone]

theorem copied_step (hle : io.splicer.bytesRead ≤ src.length) (hi : Iteration io t io')
    (hp : ∀ e ∈ t.events, OnlySourceFails e) (ht : t.flow.ready? = none) :
    t.events.foldl (Copy.watch io.splicer.sizeToSplice) (copied src io) = copied src io' := by
  obtain ⟨ctx, state⟩ := io
  cases hi with
  | pending =>
    rw [List.foldl_cons, watch_checked]
    rfl
  | failed => cases ht
  | clean => cases ht
  | fault => cases ht
  | @fill es res ctx' next hs hf hn =>
    cases hs
    have hfill := copied_fill src hle hf hn fun e he => hp e (List.mem_cons_of_mem _ he)
    exact hfill
  | @drain es res ctx' hs hd =>
    cases hs
    have hdrain := copied_drain src hd fun e he => hp e (List.mem_cons_of_mem _ he)
    exact hdrain

/-- Before its first `Ready` the machine is one plain loop behind: what it has read, that
loop has delivered. -/
theorem run_copied {ts : List (Turn calls (IoResult Unit))} (hctx : Constructed ctx)
    (hoff : ctx.offset = .none)
    (h : Runs SpliceIo.loopBody ((kernel cap).only OnlySourceFails) Unready (.ofCtx ctx)
      (.streams src) ts io w) :
    plainCopy ctx.sizeToSplice src (sourceTrace (ts.flatMap Turn.events)) = copied src io := by
  have hl := launch_streams hctx hoff src
  have hstart : Copy.start ctx.sizeToSplice src = copied src (.ofCtx ctx) := by
    have hf := hctx.fresh
    simp [Copy.start, copied, SpliceIo.ended, SpliceIo.ofCtx, hf.read, hf.fill, eq_comm]
  rw [plainCopy_sourceTrace]
  have hinv := transfer_invariant
    (fun io wc => Counted io ∧ Conserved ctx (.streams src) src io.splicer wc.1 ∧
      io.splicer.sizeToSplice = ctx.sizeToSplice ∧ wc.2 = copied src io)
    (h.ghost (Copy.watch ctx.sizeToSplice) (.start ctx.sizeToSplice src))
    ⟨hl.fresh.counted, hl.fresh.conserved hl.pipe hl.sink, rfl, hstart⟩ ?_
  · exact hinv.2.2.2
  · rintro io ⟨w, c⟩ t io' ⟨w', c'⟩ ⟨hcount, hcons, htarget, rfl⟩ hi ha hc
    obtain ⟨honly, rfl⟩ := Env.accepts_ghost.mp ha
    obtain ⟨hk, hp⟩ := Env.accepts_only.mp honly
    refine ⟨hcount.step hi (hk.forall fun _ _ _ => kernel_bounded),
      hcons.step hl.source hcount hi hk, hi.sizeToSplice_eq.trans htarget, ?_⟩
    rw [← htarget]
    exact copied_step hcons.read_le hi hp hc

/-- A `splice_in` failed with `e` when source, pipe and destination were as they are at the end,
and after it nothing was called but the shutdown. -/
def BrokeOff (cap : ℕ) (src : List UInt8) (es : List (Event calls)) (e : IoError) (w : World) :
    Prop :=
  ∃ pre off maxLen stored post, es = pre ++ ⟨.spliceIn off maxLen, ⟨.error e, stored⟩⟩ :: post ∧
    (kernel cap).Accepts (.streams src) pre w ∧ e.kind ≠ .wouldBlock ∧
      ∀ ev ∈ post, ev.call = .pollShutdown

theorem BrokeOff.snoc {e : IoError} {a : Poll (IoResult Unit)} (h : BrokeOff cap src es e w) :
    BrokeOff cap src (es ++ [⟨.pollShutdown, a⟩]) e w := by
  obtain ⟨pre, off, maxLen, stored, post, rfl, hpre, hk, hpost⟩ := h
  refine ⟨pre, off, maxLen, stored, post ++ [⟨.pollShutdown, a⟩], by simp, hpre, hk, ?_⟩
  intro ev hev
  rcases List.mem_append.mp hev with hev | hev
  · exact hpost ev hev
  · rw [List.mem_singleton.mp hev]

/-- Only a failed `splice_in` faults a fill, and it moves nothing. -/
theorem FillAttempt.brokeOff {pre : List (Event calls)} {next : TransferState} {e : IoError}
    (h : FillAttempt ctx es res ctx') (hn : afterFill ctx'.pipeHasData res = some next)
    (hnext : next = .finished (some e)) (hpre : (kernel cap).Accepts (.streams src) pre w)
    (ha : (kernel cap).Accepts w es w') (hp : ∀ e ∈ es, OnlySourceFails e) :
    BrokeOff cap src (pre ++ es) e w' := by
  subst hnext
  have hfault : some e = fault? res := afterFill_fault? hn
  cases h with
  | gate err =>
    have hk : err.kind = .wouldBlock := hp _ (List.mem_singleton_self _)
    simp [fault?, hk] at hfault
  | target | eof | moved => cases hfault
  | @failed err off hlt hopen =>
    by_cases hk : err.kind = .wouldBlock
    · simp [fault?, hk] at hfault
    · simp only [fault?, hk, if_false, Option.some.injEq] at hfault
      subst hfault
      obtain ⟨w₁, rfl, w₂, ⟨-, rfl⟩, rfl⟩ := ha
      have hgate : (kernel cap).Accepts (.streams src) (pre ++ [⟨.tryIoRead, .callInner⟩]) w' :=
        Env.accepts_append.mpr ⟨w', hpre, w', rfl, rfl⟩
      exact ⟨_, ctx.offset.offIn, ctx.sizeToSplice - ctx.bytesRead, off, [], by simp, hgate, hk,
        by simp⟩

/-- A transfer that is finished with an error has broken off, and waits for the shutdown since. -/
theorem run_brokeOff {ts : List (Turn calls (IoResult Unit))} {e : IoError}
    (h : Runs SpliceIo.loopBody ((kernel cap).only OnlySourceFails) Unready (.ofCtx ctx)
      (.streams src) ts io w) (hs : io.state = .finished (some e)) :
    BrokeOff cap src (ts.flatMap Turn.events) e w := by
  have hinv := h.history (fun ts io w =>
    (kernel cap).Accepts (.streams src) (ts.flatMap Turn.events) w ∧
      ∀ e, io.state = .finished (some e) → BrokeOff cap src (ts.flatMap Turn.events) e w)
    ⟨rfl, by rintro e ⟨⟩⟩ ?_
  · exact hinv.2 e hs
  · rintro ts io w t io' w' ⟨hbefore, hbroke⟩ hstep ha ht
    obtain ⟨hk, hp⟩ := Env.accepts_only.mp ha
    rw [List.flatMap_append, List.flatMap_singleton]
    refine ⟨Env.accepts_append.mpr ⟨w, hbefore, hk⟩, ?_⟩
    intro e hs
    cases step_iff.mp hstep with
    | pending =>
      rw [hs] at hk ⊢
      obtain ⟨w₁, rfl, rfl⟩ := hk
      exact (hbroke e hs).snoc
    | failed | clean | fault => cases ht
    | fill _ hf hn =>
      obtain ⟨w₁, rfl, hk⟩ := hk
      rw [List.append_cons]
      refine hf.brokeOff hn hs (Env.accepts_append.mpr ⟨_, hbefore, _, rfl, rfl⟩) hk ?_
      exact fun e he => hp e (List.mem_cons_of_mem _ he)
    | @drain es res ctx' _ hd =>
      have hnone : (afterDrain ctx'.pipeHasData res).fault? = none := by
        rw [afterDrain_fault?, hd.fault?_eq_none fun e he => hp e (List.mem_cons_of_mem _ he)]
      rw [show afterDrain ctx'.pipeHasData res = .finished (some e) from hs] at hnone
      cases hnone

/-- The transfer ends as the plain loop does, and has delivered the same bytes up to those that
a failed source left in the pipe: there it ends at once, and they are not written any more. -/
theorem transfer_refines_plainCopy (hctx : Constructed ctx) (hoff : ctx.offset = .none)
    (src : List UInt8) (cap : ℕ) {fuel : ℕ} {es : List (Event calls)} {res : IoResult Unit}
    (h : (Machine.await SpliceIo.loopBody fuel (.ofCtx ctx)).Run es (.val (some (io, res))))
    (ha : (kernel cap).Accepts (.streams src) es w) (hp : ∀ e ∈ es, OnlySourceFails e) :
    (plainCopy ctx.sizeToSplice src (sourceTrace es)).ended = some res ∧
    (plainCopy ctx.sizeToSplice src (sourceTrace es)).delivered = w.sink.bytes ++ w.pipe ∧
    (res = .ok () → w.pipe = []) ∧ ∀ e, res = .error e → BrokeOff cap src es e w := by
  obtain ⟨ts, t, u, v, hr, hs, hf, hv, rfl⟩ :=
    Machine.await_runs h (Env.accepts_only.mpr ⟨ha, hp⟩)
  obtain ⟨hk, hpt⟩ := Env.accepts_only.mp hv
  have hrun : Runs SpliceIo.loopBody (kernel cap) Unready (.ofCtx ctx) (.streams src) ts u v :=
    hr.mono (fun _ _ _ he => he.1) (fun _ _ _ hc => hc)
  have hsplit := run_split hctx hoff hrun
  have hclean : Clean u := run_clean hrun (by intro hs; cases hs)
  have hbytes : src.take u.splicer.bytesRead = v.sink.bytes ++ v.pipe := by
    have htake : src.take u.splicer.bytesWritten =
        (src.take u.splicer.bytesRead).take u.splicer.bytesWritten := by
      rw [List.take_take, Nat.min_eq_left hsplit.written_le]
    rw [hsplit.sink, hsplit.pipe, Sink.bytes, htake, List.take_append_drop]
  rw [plainCopy_sourceTrace, List.flatMap_append, List.foldl_append, ← plainCopy_sourceTrace,
    run_copied hctx hoff hr, List.flatMap_singleton]
  cases step_iff.mp hs with
  | pending | fill | drain => cases hf
  | failed e => exact absurd (hpt _ (List.mem_singleton_self _)) not_onlySourceFails_checked
  | clean hstate =>
    cases hf
    obtain ⟨w₁, rfl, rfl⟩ := hk
    obtain ⟨hdone, heq⟩ := hclean hstate
    refine ⟨?_, hbytes, fun _ => ?_, by rintro e ⟨⟩⟩
    · rw [SpliceCtx.isSourceDone_eq] at hdone
      simp [Copy.watch, readAnswer, copied, SpliceIo.ended, hstate, hdone]
    · rw [hsplit.pipe, heq]
      simp
  | fault hstate =>
    cases hf
    obtain ⟨w₁, rfl, rfl⟩ := hk
    refine ⟨?_, hbytes, by rintro ⟨⟩, ?_⟩
    · simp [Copy.watch, readAnswer, copied, SpliceIo.ended, hstate]
    · rintro e ⟨⟩
      exact (run_brokeOff hr hstate).snoc

end Comparison

/-! ### A source that breaks off -/

def connectionReset : IoError := ⟨.os 104, "Connection reset by peer"⟩

/-- Three bytes read, then the source fails, then the writer shuts down. -/
def resetTurns : List (Turn calls (IoResult Unit)) :=
  [fillTurn none isizeMax ⟨.ok 3, none⟩,
    fillTurn none (isizeMax - 3) ⟨.error connectionReset, none⟩,
    ⟨[⟨.pollShutdown, .ready (.ok ())⟩], .done (.ready (.error connectionReset))⟩]

theorem await_reset :
    (Machine.await SpliceIo.loopBody 3 (.ofCtx (.new .granted))).Run
      (resetTurns.flatMap Turn.events)
      (.val (some (⟨{ SpliceCtx.new .granted with bytesRead := 3 }, .finished none⟩,
        .error connectionReset))) := by
  let ctx : SpliceCtx := { SpliceCtx.new .granted with bytesRead := 3 }
  have h₁ : Iteration (.ofCtx (.new .granted)) (fillTurn none isizeMax ⟨.ok 3, none⟩)
      ⟨ctx, .fill⟩ := granted_fills (by decide) (by decide)
  have h₂ : Iteration ⟨ctx, .fill⟩ (fillTurn none (isizeMax - 3) ⟨.error connectionReset, none⟩)
      ⟨ctx, .faulted connectionReset⟩ := granted_fails (by decide) (by decide)
  exact Machine.run_iterate_iff.mpr ⟨_, _, _,
    .step_of (step_iff.mpr h₁) (by simp) rfl
      (.step_of (step_iff.mpr h₂) (by simp) rfl (.refl _ _)),
    step_iff.mpr (.fault rfl), rfl, by decide, rfl⟩

theorem accepts_reset : (kernel 65536).Accepts (.streams [1, 2, 3])
    (resetTurns.flatMap Turn.events) ⟨.stream [], [1, 2, 3], .stream []⟩ :=
  ⟨_, rfl, _, rfl, _, ⟨_, rfl, by decide, by decide, by decide, by decide, rfl, rfl⟩,
    _, rfl, _, rfl, _, ⟨rfl, rfl⟩, _, rfl, rfl⟩

theorem onlySourceFails_reset : ∀ e ∈ resetTurns.flatMap Turn.events, OnlySourceFails e := by
  simp [resetTurns, fillTurn, OnlySourceFails]

/-- The comparison at the broken source: all three bytes are the pipe's, and stay there. -/
theorem transfer_refines_plainCopy_reset :
    (plainCopy isizeMax [1, 2, 3] (sourceTrace (resetTurns.flatMap Turn.events))).ended =
      some (.error connectionReset) ∧
    (plainCopy isizeMax [1, 2, 3] (sourceTrace (resetTurns.flatMap Turn.events))).delivered =
      [] ++ [1, 2, 3] ∧
    BrokeOff 65536 [1, 2, 3] (resetTurns.flatMap Turn.events) connectionReset
      ⟨.stream [], [1, 2, 3], .stream []⟩ := by
  obtain ⟨hended, hdelivered, -, hbroke⟩ :=
    transfer_refines_plainCopy (.new Pipe.new_granting) rfl [1, 2, 3] 65536 await_reset
      accepts_reset onlySourceFails_reset
  exact ⟨hended, hdelivered, hbroke _ rfl⟩

/-- The plain loop delivers three bytes where the transfer delivers none. -/
theorem transfer_drops_buffered :
    Constructed (.new .granted) ∧ ∃ fuel es io w,
      (Machine.await SpliceIo.loopBody fuel (.ofCtx (.new .granted))).Run es
        (.val (some (io, .error connectionReset))) ∧
      (kernel 65536).Accepts (.streams [1, 2, 3]) es w ∧ (∀ e ∈ es, OnlySourceFails e) ∧
      (plainCopy isizeMax [1, 2, 3] (sourceTrace es)).delivered = [1, 2, 3] ∧
      w.sink = .stream [] :=
  ⟨.new Pipe.new_granting, _, _, _, _, await_reset, accepts_reset, onlySourceFails_reset, rfl, rfl⟩

end Splicer
