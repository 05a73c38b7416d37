import Splicer.Duplex

/-! What a transfer delivers, from its builders to the drop of its pipe, on the kernel of many. -/
namespace Splicer

open Interaction Function

/-- From `o` to `o'` exactly `read` bytes of `src` have left the reader and the first `written` of
them have reached the writer, as far as the target allows. -/
structure Delivered (offset : Offset) (target : ℕ) (src : List UInt8) (r w : BorrowedFd)
    (o o' : Os) (read written : ℕ) : Prop where
  source : o'.source r = (o.source r).skip read
  sink : (o.sink w).write offset.offOut (src.take written) = some (o'.sink w)
  written_le : written ≤ read
  read_le : read ≤ min target src.length

section Delivery

variable {o o' : Os} {r w : AsyncFd} {p cap fuel : ℕ} {b : Builder} {ctx : SpliceCtx}
  {src : List UInt8} {io : SpliceIo} {ts : List (Turn calls (IoResult Unit))} {v : World}
  {es : List (Event sys)} {out : Outcome sys (Option (Completion (IoResult TransferReport)))}

theorem Kept.delivered {offset : Offset} {target : ℕ} {r w : BorrowedFd} (h : Kept o o')
    (hsink : (o.sink w).write offset.offOut [] = some (o.sink w)) :
    Delivered offset target src r w o o' 0 0 := by
  refine ⟨?_, ?_, Nat.le_refl 0, Nat.zero_le _⟩
  · rw [h.source, Source.skip_zero]
  · rw [h.sink]
    exact hsink

theorem Launch.delivered {r w : BorrowedFd}
    (hl : Launch ctx ⟨o.source r, [], o.sink w⟩ src)
    (h : Runs SpliceIo.loopBody (kernel cap) Always (.ofCtx ctx) ⟨o.source r, [], o.sink w⟩ ts io
      (o'.world r w p)) :
    Delivered ctx.offset ctx.sizeToSplice src r w o o' io.splicer.bytesRead
      io.splicer.bytesWritten := by
  obtain ⟨hcount, hcons⟩ := hl.run h
  have htarget : io.splicer.sizeToSplice = ctx.sizeToSplice := run_sizeToSplice h
  exact ⟨hcons.source, hcons.sink, hcount.written_le,
    Nat.le_min.mpr ⟨htarget ▸ hcount.read_le, hcons.read_le⟩⟩

/-- `execute` reports what it has delivered; without an error, all that it should. -/
theorem Launch.reported {r w : BorrowedFd} {fuel : ℕ} {es : List (Event calls)}
    {report : TransferReport} (hl : Launch ctx ⟨o.source r, [], o.sink w⟩ src)
    (h : (SpliceIo.execute fuel (.ofCtx ctx)).Run es (.val (some report)))
    (ha : (kernel cap).Accepts ⟨o.source r, [], o.sink w⟩ es (o'.world r w p)) :
    ∃ read, Delivered ctx.offset ctx.sizeToSplice src r w o o' read report.tx ∧ report.rx = 0 ∧
      (report.error = none → read = min ctx.sizeToSplice src.length ∧ report.tx = read) := by
  obtain ⟨io, res, hawait, rfl⟩ := SpliceIo.run_execute.mp h
  obtain ⟨ts, t, u, v, hr, hs, hf, hv, -⟩ := Machine.await_runs hawait ha
  refine ⟨_, hl.delivered (hr.always.snoc hs hv trivial), rfl, ?_⟩
  intro herror
  cases res with
  | error e => cases herror
  | ok =>
    obtain ⟨hread, hwritten⟩ := hl.complete hr (step_iff.mp hs) hf
    exact ⟨hread, hwritten.trans hread.symm⟩

/-- The outcome of an execution is handed on as the result of the transfer. -/
theorem ok_eq {exec : Outcome sys (Option (Completion TransferReport))} {report : TransferReport} :
    exec.map (Option.map (Completion.map .ok)) =
      .val (some (.returned (.ok report : IoResult TransferReport))) ↔
      exec = .val (some (.returned report)) := by
  rcases exec with (_ | _ | _) | _ <;> simp [Outcome.map, Completion.map]

theorem ok_ne_error {exec : Outcome sys (Option (Completion TransferReport))} {e : IoError} :
    exec.map (Option.map (Completion.map .ok)) ≠
      .val (some (.returned (.error e : IoResult TransferReport))) := by
  rcases exec with (_ | _ | _) | _ <;> simp [Outcome.map, Completion.map]

/-- A transfer that returns an error of its own has been refused. -/
theorem Transfers.refused {K : ℕ → Env calls World} {r w : BorrowedFd} {e : IoError}
    (h : Transfers K fuel b r w o (.val (some (.returned (.error e)))) o') : Kept o o' := by
  rcases h with ⟨-, hkept⟩ | ⟨exec, ctx, p, hout, -⟩
  · exact hkept
  · exact absurd hout.symm ok_ne_error

/-- What a transfer comes to: a prefix of the source has arrived, and a report tells its length. -/
theorem Transfers.delivers {r w : BorrowedFd} (h : Transfers kernel fuel b r w o out o')
    (hsrc : (o.source r).ahead b.offset.offIn = some src)
    (hsink : (o.sink w).write b.offset.offOut [] = some (o.sink w)) :
    Spares [r] [w] o o' ∧
      ∃ read written, Delivered b.offset b.target src r w o o' read written ∧
        (∀ e, out = .val (some (.returned (.error e))) → read = 0) ∧
        ∀ report, out = .val (some (.returned (.ok report))) →
          report.tx = written ∧ report.rx = 0 ∧
            (report.error = none → read = min b.target src.length ∧ written = read) := by
  rcases h with ⟨⟨e, rfl⟩, hkept⟩ | ⟨exec, ctx, p, rfl, hspares, -, hfresh, -, hoff, htarget,
    ⟨ts, io, hrun⟩, hsim⟩
  · exact ⟨hkept.spares, 0, 0, hkept.delivered hsink, fun _ _ => rfl, by rintro _ ⟨⟩⟩
  · rw [← hoff] at hsrc hsink
    have hl : Launch ctx ⟨o.source r, [], o.sink w⟩ src := ⟨hfresh, rfl, hsrc, hsink⟩
    refine ⟨hspares, ?_⟩
    rw [← hoff, ← htarget]
    by_cases hout : ∃ report, exec = .val (some (.returned report))
    · obtain ⟨report, rfl⟩ := hout
      obtain ⟨es, hexec, hk⟩ := hsim.returned report rfl
      obtain ⟨read, hd, hrx, hcomplete⟩ := hl.reported hexec hk
      refine ⟨read, report.tx, hd, fun e he => absurd he ok_ne_error, ?_⟩
      rintro _ ⟨⟩
      exact ⟨rfl, hrx, hcomplete⟩
    · exact ⟨_, _, hl.delivered hrun, fun e he => absurd he ok_ne_error,
        fun report hr => absurd ⟨report, ok_eq.mp hr⟩ hout⟩

/-- Whatever stops a transfer, a prefix of the source has arrived, the rest of the world is as it
was, and a report tells the length; without an error, all that the target allows has arrived. -/
theorem transfer_delivers (hends : Ends o r.asFd w.asFd)
    (hsrc : (o.source r.asFd).ahead b.offset.offIn = some src)
    (hsink : (o.sink w.asFd).write b.offset.offOut [] = some (o.sink w.asFd))
    (h : (transfer fuel b r w).Run es out) (ha : os.Accepts o es o') :
    Spares [r.asFd] [w.asFd] o o' ∧
      ∃ read written, Delivered b.offset b.target src r.asFd w.asFd o o' read written ∧
        (∀ e, out = .val (some (.returned (.error e))) → read = 0) ∧
        ∀ report, out = .val (some (.returned (.ok report))) →
          report.tx = written ∧ report.rx = 0 ∧
            (report.error = none → read = min b.target src.length ∧ written = read) :=
  (Prog.wp_post (wp_transfer_os shows_os hends) h ha).delivers hsrc hsink

theorem transfer_delivers_slice :
    ∃ o', os.Accepts .slicing slices o' ∧ o'.sink 6 = .stream [7] := by
  obtain ⟨o', ha⟩ := slices_accepted
  have hsrc : (Os.slicing.source 5).ahead (some 1) = some [7, 9] := rfl
  obtain ⟨-, read, written, hd, -, hreport⟩ := transfer_delivers (r := .file 5) (w := .socket 6)
    ⟨rfl, rfl⟩ hsrc rfl slices_run ha
  obtain ⟨rfl, -⟩ := hreport _ rfl
  exact ⟨o', ha, (Option.some.inj hd.sink).symm⟩

end Delivery

/-! ### Two directions -/

/-- No answer is an error, but for the `WouldBlock` of a splice. -/
def Unfailing : Event calls → Prop
  | ⟨.pollReadReady, .ready (.error _)⟩ => False
  | ⟨.pollWriteReady, .ready (.error _)⟩ => False
  | ⟨.pollShutdown, .ready (.error _)⟩ => False
  | e => faultOf e = none

/-- The same of the calls that move bytes or wait for them. -/
def SysUnfailing : Event sys → Prop
  | ⟨.pollReadReady _, .ready (.error _)⟩ => False
  | ⟨.pollWriteReady _, .ready (.error _)⟩ => False
  | ⟨.pollShutdown _, .ready (.error _)⟩ => False
  | ⟨.tryIo _ _, .err e⟩ => e.kind = .wouldBlock
  | ⟨.splice _ _ _ _ _ _, ⟨.error e, _, _⟩⟩ => e.kind = .wouldBlock
  | _ => True

/-- No error is waiting to be reported, and a finished transfer is complete. -/
def Unfaulted (io : SpliceIo) : Prop := Clean io ∧ ∀ e, io.state ≠ .finished (some e)

section Unfailing

variable {ctx : SpliceCtx} {io io' : SpliceIo} {t : Turn calls (IoResult Unit)} {e : Event calls}
  {r w : AsyncFd} {pipe : Pipe} {c : Call}

theorem Unfailing.faultOf_eq (h : Unfailing e) : faultOf e = none := by
  rcases e with ⟨_ | _ | _ | _ | _ | _ | _, a⟩
  case pollReadReady | pollWriteReady | pollShutdown => rfl
  all_goals exact h

theorem not_unfailing_checked (s : TransferState) (e : IoError) :
    ¬ Unfailing (checked s (.ready (.error e))) := by
  cases s <;> exact id

theorem Unfaulted.step (h : Unfaulted io) (hi : Iteration io t io')
    (hev : ∀ e ∈ t.events, Unfailing e) : Unfaulted io' := by
  have unfinished (hs : ∀ error, io.state ≠ .finished error) :
      ∀ e, io'.state ≠ .finished (some e) := by
    intro e he
    obtain ⟨ev, hmem, hfault⟩ := (hi.faultIn_iff (e := e) hs).mpr (by rw [he]; rfl)
    rw [(hev ev hmem).faultOf_eq] at hfault
    cases hfault
  cases hi with
  | pending => exact h
  | failed e => exact absurd (hev _ (List.mem_singleton_self _)) (not_unfailing_checked _ e)
  | clean => exact h
  | fault hs => exact absurd hs (h.2 _)
  | fill hs hf hn =>
    exact ⟨fun hc => absurd hc (afterFill_ne_clean hn), unfinished (by simp [hs])⟩
  | drain hs hd =>
    exact ⟨h.1.step (.drain hs hd) rfl, unfinished (by simp [hs])⟩

/-- Without a failing answer the result is `Ok`, of a transfer that is complete. -/
theorem Unfaulted.returned {es : List (Event calls)} {res : IoResult Unit} (h : Unfaulted io)
    (hi : Iteration io ⟨es, .done (.ready res)⟩ io') (hev : ∀ e ∈ es, Unfailing e) :
    res = .ok () ∧ io'.splicer.isSourceDone = true ∧
      io'.splicer.bytesRead = io'.splicer.bytesWritten := by
  cases hi with
  | failed e => exact absurd (hev _ (List.mem_singleton_self _)) (not_unfailing_checked _ e)
  | clean hs => exact ⟨rfl, h.1 hs⟩
  | fault hs => exact absurd hs (h.2 _)

theorem fault?_wouldBlock {e : IoError} (h : e.kind = .wouldBlock) : fault? (.error e) = none :=
  if_pos h

theorem implement_unfailing (r w : AsyncFd) (pipe : Pipe) (c : Call) :
    (implement r w pipe c).wp (.of SysUnfailing) (fun _ _ => True)
      (fun out _ => ∀ a, out = .val a → Unfailing ⟨c, a⟩) () := by
  have tryIo {a : TryIo} {fd : BorrowedFd} {interest : Interest}
      (h : SysUnfailing ⟨.tryIo fd interest, a⟩) :
      Unfailing ⟨.tryIoRead, a⟩ ∧ Unfailing ⟨.tryIoWrite, a⟩ := by
    cases a with
    | callInner => exact ⟨rfl, rfl⟩
    | err e => exact ⟨fault?_wouldBlock h, fault?_wouldBlock h⟩
  cases c with
  | pollReadReady =>
    cases r with
    | socket fd =>
      refine ⟨trivial, ?_⟩
      rintro (_ | _ | _) _ h _ ⟨⟩
      · rfl
      · exact h
      · rfl
    | file fd =>
      rintro _ ⟨⟩
      rfl
  | tryIoRead =>
    cases r with
    | socket fd =>
      refine ⟨trivial, ?_⟩
      rintro a _ h _ ⟨⟩
      exact (tryIo h).1
    | file fd =>
      rintro _ ⟨⟩
      rfl
  | spliceIn offIn maxLen =>
    cases hf : pipe.fillFd with
    | none =>
      simp only [implement, hf]
      rintro a ⟨⟩
    | some fd =>
      simp only [implement, hf]
      refine ⟨trivial, ?_⟩
      rintro ⟨e | n, offIn', offOut'⟩ _ h _ ⟨⟩
      · exact fault?_wouldBlock h
      · rfl
  | pollWriteReady =>
    cases w with
    | socket fd =>
      refine ⟨trivial, ?_⟩
      rintro (_ | _ | _) _ h _ ⟨⟩
      · rfl
      · exact h
      · rfl
    | file fd =>
      rintro _ ⟨⟩
      rfl
  | tryIoWrite =>
    cases w with
    | socket fd =>
      refine ⟨trivial, ?_⟩
      rintro a _ h _ ⟨⟩
      exact (tryIo h).2
    | file fd =>
      rintro _ ⟨⟩
      rfl
  | spliceOut offOut maxLen =>
    cases hd : pipe.drainFd with
    | none =>
      simp only [implement, hd]
      rintro a ⟨⟩
    | some fd =>
      simp only [implement, hd]
      refine ⟨trivial, ?_⟩
      rintro ⟨e | n, offIn', offOut'⟩ _ h _ ⟨⟩
      · exact fault?_wouldBlock h
      · rfl
  | pollShutdown =>
    refine ⟨trivial, ?_⟩
    rintro (_ | _ | _) _ h _ ⟨⟩
    · rfl
    · exact h
    · rfl

theorem shows_unfailing :
    Shows (os.only SysUnfailing) fun cap => (kernel cap).only Unfailing := by
  refine ⟨fun _ _ _ he => he.1, fun _ _ _ _ he => he.1, ?_⟩
  rintro o r w p pipe e o' hrig ⟨es, hr, ha⟩
  obtain ⟨ha, hes⟩ := Env.accepts_only.mp ha
  refine ⟨(through_os hrig ⟨es, hr, ha⟩).1, ?_⟩
  exact Prog.wp_post (implement_unfailing r w pipe e.call) hr (Env.accepts_of (v := ()).mpr hes)
    e.answer rfl

end Unfailing

section Both

variable {E : Env sys Os} {K : ℕ → Env calls World} {F : Side → Env calls World}
  {ctx : Side → SpliceCtx} {w₀ w' : Side → World} {src : Side → List UInt8} {o o' : Os}
  {sl sr : BorrowedFd} {fuel : ℕ} {es : List (Event sys)}
  {out : Outcome sys (Option (Completion (IoResult TransferReport)))}

/-- `execute` reports on the iterations in which its two halves returned. -/
theorem execute_halves {es : List (Event bidiCalls)} {report : TransferReport}
    (h : ((SpliceBidiIo.ofCtx ctx).execute fuel).Run es (.val (some report)))
    (ha : (Env.shared F).Accepts w₀ es w') :
    ∃ (io : SpliceBidiIo) (res : Side → IoResult Unit),
      report = io.report ((res .sl2sr).bind fun _ => res .sr2sl) ∧
      ∀ d, ∃ ts u v es, Runs SpliceIo.loopBody (F d) Always (.ofCtx (ctx d)) (w₀ d) ts u v ∧
        Iteration u ⟨es, .done (.ready (res d))⟩ (io.half d) ∧ (F d).Accepts v es (w' d) := by
  obtain ⟨io, res, hawait, rfl⟩ := run_bidi_execute.mp h
  obtain ⟨vs, s, first, v, hr, hj, hv, rfl⟩ :=
    (@run_bidi_await _ _ _ _ fun _ => none).mp ⟨fuel, fuel, hawait⟩
  rw [List.flatMap_append, List.flatMap_singleton] at ha
  obtain ⟨w₁, hvs, hvisit⟩ := Env.accepts_append.mp ha
  obtain ⟨res, hres, rfl⟩ := ret_of_ready hv
  refine ⟨io, res, rfl, fun d => ?_⟩
  obtain ⟨ts₁, hr₁⟩ := hr.runs d (accepts_visits hvs d)
  obtain ⟨ts₂, u, es, hs, he, hr₂⟩ := (hj d).last
  have hlast := accepts_visit hvisit d
  rw [he] at hlast
  obtain ⟨v, hv₁, hv₂⟩ := Env.accepts_append.mp hlast
  rw [hres d] at hs
  have hr₁ : Runs SpliceIo.loopBody (F d) Always (.ofCtx (ctx d)) (w₀ d) ts₁ (s d) (w₁ d) := by
    cases d <;> exact hr₁
  exact ⟨ts₁ ++ ts₂, u, v, es, hr₁.append (hr₂.accept hv₁).always, step_iff.mp hs, hv₂⟩

/-- Without a failing answer, a half that returns has delivered all that it should. -/
theorem Launch.unfailing {ctx : SpliceCtx} {w₀ v w' : World} {src : List UInt8} {cap : ℕ}
    {ts : List (Turn calls (IoResult Unit))} {u io : SpliceIo} {es : List (Event calls)}
    {res : IoResult Unit} (hl : Launch ctx w₀ src)
    (h : Runs SpliceIo.loopBody ((kernel cap).only Unfailing) Always (.ofCtx ctx) w₀ ts u v)
    (hi : Iteration u ⟨es, .done (.ready res)⟩ io)
    (ha : ((kernel cap).only Unfailing).Accepts v es w') :
    res = .ok () ∧ io.splicer.bytesWritten = min ctx.sizeToSplice src.length := by
  have hunfaulted : Unfaulted u := by
    apply transfer_invariant (fun io _ => Unfaulted io) h ⟨by rintro ⟨⟩, by rintro e ⟨⟩⟩
    intro io w t io' w' hI hi ha _
    exact hI.step hi (ha.forall fun _ _ _ he => he.2)
  have hev : ∀ e ∈ es, Unfailing e := ha.forall fun _ _ _ he => he.2
  obtain ⟨hres, hdone, heq⟩ := hunfaulted.returned hi hev
  have hrun : Runs SpliceIo.loopBody (kernel cap) Always (.ofCtx ctx) w₀ (ts ++ [_]) io w' :=
    (h.snoc (step_iff.mpr hi) ha trivial).mono (fun _ _ _ he => he.1) fun _ _ _ _ => trivial
  obtain ⟨hcount, hcons⟩ := hl.run hrun
  have htarget : io.splicer.sizeToSplice = ctx.sizeToSplice := run_sizeToSplice hrun
  have hread := hcons.read_le
  have hle := hcount.read_le
  refine ⟨hres, ?_⟩
  rcases hcons.ended hdone with hend | hend <;> omega

/-- What both directions come to, on a kernel that shows no more than `K`. -/
theorem TransfersBoth.delivers (hE : Shows E K)
    (hsrc : ∀ d, (o.source (each sl sr d)).ahead none = some (src d))
    (hsink : ∀ d, (o.sink (each sr sl d)).write none [] = some (o.sink (each sr sl d)))
    (h : TransfersBoth K fuel sl sr o out o') :
    Spares [sl, sr] [sl, sr] o o' ∧
      ∃ read written : Side → ℕ,
        (∀ d, Delivered .none isizeMax (src d) (each sl sr d) (each sr sl d) o o' (read d)
          (written d)) ∧
        (∀ e, out = .val (some (.returned (.error e))) → ∀ d, read d = 0) ∧
        ∀ report, out = .val (some (.returned (.ok report))) →
          report.tx = written .sl2sr ∧ report.rx = written .sr2sl ∧
            ((∀ cap v e v', K cap v e v' → Unfailing e) →
              report.error = none ∧ ∀ d, written d = min isizeMax (src d).length) := by
  rcases h with ⟨⟨e, rfl⟩, hkept⟩ | ⟨exec, ctx, p, rfl, hspares, -, -, hctx, hruns, hsim⟩
  · exact ⟨hkept.spares, fun _ => 0, fun _ => 0, fun d => hkept.delivered (hsink d),
      fun _ _ _ => rfl, by rintro _ ⟨⟩⟩
  · have hl : ∀ d, Launch (ctx d) (o.idle sl sr d) (src d) := by
      intro d
      obtain ⟨hconstructed, hoff, -⟩ := hctx d
      refine ⟨hconstructed.fresh, rfl, ?_, ?_⟩
      · rw [hoff]
        exact hsrc d
      · rw [hoff]
        exact hsink d
    have delivered {d : Side} {ts : List (Turn calls (IoResult Unit))} {io : SpliceIo}
        (hr : Runs SpliceIo.loopBody (K (o'.capacity (p d))) Always (.ofCtx (ctx d))
          (o.idle sl sr d) ts io (o'.worlds sl sr p d)) :
        Delivered .none isizeMax (src d) (each sl sr d) (each sr sl d) o o' io.splicer.bytesRead
          io.splicer.bytesWritten := by
      obtain ⟨-, hoff, htarget⟩ := hctx d
      rw [← hoff, ← htarget]
      exact (hl d).delivered (hr.mono (hE.kernel_le _) fun _ _ _ hc => hc)
    by_cases hout : ∃ report, exec = .val (some (.returned report))
    · obtain ⟨report, rfl⟩ := hout
      obtain ⟨es, hexec, hk⟩ := hsim.returned report rfl
      obtain ⟨io, res, rfl, hlast⟩ := execute_halves hexec hk
      refine ⟨hspares, fun d => (io.half d).splicer.bytesRead,
        fun d => (io.half d).splicer.bytesWritten, fun d => ?_,
        fun e he => absurd he ok_ne_error, ?_⟩
      · obtain ⟨ts, u, v, es, hr, hi, ha⟩ := hlast d
        exact delivered (hr.snoc (step_iff.mpr hi) ha trivial)
      · rintro _ ⟨⟩
        refine ⟨rfl, rfl, fun hunfailing => ?_⟩
        have hends : ∀ d, res d = .ok () ∧
            (io.half d).splicer.bytesWritten = min isizeMax (src d).length := by
          intro d
          obtain ⟨ts, u, v, es, hr, hi, ha⟩ := hlast d
          have honly : ∀ w e w', K (o'.capacity (p d)) w e w' →
              ((kernel (o'.capacity (p d))).only Unfailing) w e w' :=
            fun w e w' he => ⟨hE.kernel_le _ w e w' he, hunfailing _ w e w' he⟩
          have hdone := (hl d).unfailing (hr.mono honly fun _ _ _ hc => hc) hi (ha.mono honly)
          rwa [(hctx d).2.2] at hdone
        refine ⟨?_, fun d => (hends d).2⟩
        simp [SpliceBidiIo.report, (hends .sl2sr).1, (hends .sr2sl).1, Except.bind]
    · choose ts io hr using hruns
      exact ⟨hspares, _, _, fun d => delivered (hr d), fun e he => absurd he ok_ne_error,
        fun report hr => absurd ⟨report, ok_eq.mp hr⟩ hout⟩

theorem TransfersBoth.refused {e : IoError}
    (h : TransfersBoth K fuel sl sr o (.val (some (.returned (.error e)))) o') : Kept o o' := by
  rcases h with ⟨-, hkept⟩ | ⟨exec, ctx, p, hout, -⟩
  · exact hkept
  · exact absurd hout.symm ok_ne_error

/-- The kernel of the copy's worlds fails no call unless one of the copy's has failed. -/
theorem copyBidirectional_transfers (hne : sl ≠ sr) (hends : Ends o sl sr)
    (h : (copyBidirectional fuel sl sr).Run es out) (ha : os.Accepts o es o') :
    ∃ E K, Shows E K ∧ TransfersBoth K fuel sl sr o out o' ∧
      ((∀ e ∈ es, SysUnfailing e) → ∀ cap v e v', K cap v e v' → Unfailing e) := by
  by_cases hes : ∀ e ∈ es, SysUnfailing e
  · have htransfers := Prog.wp_post (wp_copyBidirectional_os shows_unfailing hne hends) h
      (Env.accepts_only.mpr ⟨ha, hes⟩)
    exact ⟨_, _, shows_unfailing, htransfers, fun _ _ _ _ _ he => he.2⟩
  · have htransfers := Prog.wp_post (wp_copyBidirectional_os shows_os hne hends) h ha
    exact ⟨_, _, shows_os, htransfers, fun hall => absurd hall hes⟩

/-- However `copy_bidirectional` ends, each end has received a prefix of what the other one sent,
and a report tells both lengths; when no call fails, each has received it all. -/
theorem copyBidirectional_delivers (hne : sl ≠ sr) (hends : Ends o sl sr)
    (hsrc : ∀ d, (o.source (each sl sr d)).ahead none = some (src d))
    (hsink : ∀ d, (o.sink (each sr sl d)).write none [] = some (o.sink (each sr sl d)))
    (h : (copyBidirectional fuel sl sr).Run es out) (ha : os.Accepts o es o') :
    Spares [sl, sr] [sl, sr] o o' ∧
      ∃ read written : Side → ℕ,
        (∀ d, Delivered .none isizeMax (src d) (each sl sr d) (each sr sl d) o o' (read d)
          (written d)) ∧
        (∀ e, out = .val (some (.returned (.error e))) → ∀ d, read d = 0) ∧
        ∀ report, out = .val (some (.returned (.ok report))) →
          report.tx = written .sl2sr ∧ report.rx = written .sr2sl ∧
            ((∀ e ∈ es, SysUnfailing e) →
              report.error = none ∧ ∀ d, written d = min isizeMax (src d).length) := by
  obtain ⟨E, K, hE, htransfers, hK⟩ := copyBidirectional_transfers hne hends h ha
  obtain ⟨hspares, read, written, hd, herror, hreport⟩ := htransfers.delivers hE hsrc hsink
  refine ⟨hspares, read, written, hd, herror, fun report hr => ?_⟩
  obtain ⟨htx, hrx, hdone⟩ := hreport report hr
  exact ⟨htx, hrx, fun hall => hdone (hK hall)⟩

theorem copyBidirectional_delivers_exchange : ∃ o', os.Accepts .pair exchange o' ∧
    o'.sink 6 = .stream [9] ∧ o'.sink 5 = .stream [] := by
  obtain ⟨o', ha⟩ := exchange_accepted
  have hends : Ends .pair 5 6 := ⟨rfl, rfl⟩
  have hsrc : ∀ d, (Os.pair.source (each 5 6 d)).ahead none = some (each [9] [] d) := by
    rintro (_ | _) <;> rfl
  obtain ⟨-, read, written, hd, -, hreport⟩ :=
    copyBidirectional_delivers (by decide) hends hsrc (fun _ => rfl) exchange_run ha
  obtain ⟨htx, hrx, -⟩ := hreport _ rfl
  have hsl := (hd .sl2sr).sink
  have hsr := (hd .sr2sl).sink
  rw [← htx] at hsl
  rw [← hrx] at hsr
  exact ⟨o', ha, (Option.some.inj hsl).symm, (Option.some.inj hsr).symm⟩

end Both

end Splicer
