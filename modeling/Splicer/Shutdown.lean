import Splicer.Representation

/-! The end of a transfer: when the writer is shut down, and which error is reported. -/
namespace Splicer

open Interaction

section Ending

variable {ctx : SpliceCtx} {io io' : SpliceIo} {t : Turn calls (IoResult Unit)}
  {ts : List (Turn calls (IoResult Unit))} {e : IoError} {error : Option IoError}
  {res : IoResult Unit}

/-- A fault shows in no iteration that returns `Ready`. -/
theorem Iteration.not_faultIn_ready (hi : Iteration io t io') (ht : t.flow = .done (.ready res)) :
    ¬ FaultIn e t.events := by
  cases hi with
  | pending | fill | drain => cases ht
  | failed => simp [faultIn_cons, faultOf_checked]
  | clean => simp [faultIn_cons, faultOf]
  | fault => simp [faultIn_cons, faultOf]

/-- A finished transfer stays finished, and moves nothing. -/
theorem run_finished (h : Runs SpliceIo.loopBody (.of fun _ => True) Always io () ts io' ())
    (hs : io.state = .finished error) :
    io'.splicer = io.splicer ∧ ∃ error', io'.state = .finished error' := by
  apply transfer_invariant (fun u _ => u.splicer = io.splicer ∧
    ∃ error', u.state = .finished error') h ⟨rfl, error, hs⟩
  rintro u _ t u' _ ⟨hsplicer, error', hs'⟩ hi _ _
  obtain ⟨hsame, hfin⟩ := hi.of_finished hs'
  exact ⟨hsame.trans hsplicer, hfin⟩

/-- Once the shutdown has been called, the transfer is finished. -/
theorem run_shutdown_finished {a : Poll (IoResult Unit)}
    (h : Runs SpliceIo.loopBody (.of fun _ => True) Always io () ts io' ())
    (he : ⟨.pollShutdown, a⟩ ∈ ts.flatMap Turn.events) : ∃ error, io'.state = .finished error := by
  obtain ⟨t, ht, he⟩ := List.mem_flatMap.mp he
  obtain ⟨pre, post, u, v, u', v', -, -, hs, -, -, hpost⟩ := h.split ht
  obtain ⟨error, hfin⟩ := pollShutdown_asked hs he
  obtain ⟨-, error', hfin'⟩ := (step_iff.mp hs).of_finished hfin
  exact (run_finished hpost hfin').2

/-! ### A writer that breaks -/

def brokenPipe : IoError := ⟨.os 32, "Broken pipe"⟩

def notConnected : IoError := ⟨.os 107, "Transport endpoint is not connected"⟩

def runtimeGone : IoError :=
  ⟨.other, "A Tokio 1.x context was found, but it is being shutdown."⟩

/-- Five bytes are read, and then the writer breaks. -/
def brokenTurns : List (Turn calls (IoResult Unit)) :=
  [fillTurn none isizeMax ⟨.ok 5, none⟩, fillTurn none (isizeMax - 5) ⟨.error .wouldBlock, none⟩,
    drainTurn none 5 ⟨.error brokenPipe, none⟩]

/-- Those iterations, and a shutdown that answers `answer`. -/
def brokenEvents (answer : IoResult Unit) : List (Event calls) :=
  brokenTurns.flatMap Turn.events ++ [⟨.pollShutdown, .ready answer⟩]

theorem run_brokenTurns : Runs SpliceIo.loopBody (.of fun _ => True) Unready
    (.ofCtx (.new .granted)) () brokenTurns
    ⟨{ SpliceCtx.new .granted with bytesRead := 5 }, .faulted brokenPipe⟩ () := by
  let ctx : SpliceCtx := { SpliceCtx.new .granted with bytesRead := 5 }
  have hfills := granted_fills (n := 5) (by decide) (by decide)
  have hblocks := granted_blocks (n := 5) (by decide) (by decide)
  have hfailed : DrainAttempt ctx _ (.error brokenPipe) ctx :=
    @DrainAttempt.failed ctx brokenPipe none (by decide) rfl
  have hbreaks : Iteration ⟨ctx, .drain⟩ (drainTurn none 5 ⟨.error brokenPipe, none⟩)
      ⟨ctx, .faulted brokenPipe⟩ := @Iteration.drain ⟨ctx, .drain⟩ _ _ _ rfl hfailed
  exact .step_of (step_iff.mpr hfills) (by simp) rfl
    (.step_of (step_iff.mpr hblocks) (by simp) rfl
      (.step_of (step_iff.mpr hbreaks) (by simp) rfl (.refl _ _)))

theorem execute_broken {answer res : IoResult Unit} {io : SpliceIo}
    (h : Iteration ⟨{ SpliceCtx.new .granted with bytesRead := 5 }, .faulted brokenPipe⟩
      ⟨[⟨.pollShutdown, .ready answer⟩], .done (.ready res)⟩ io) :
    (SpliceIo.execute 4 (.ofCtx (.new .granted))).Run (brokenEvents answer)
      (.val (some (io.report res))) := by
  have hawait : (Machine.await SpliceIo.loopBody 4 (.ofCtx (.new .granted))).Run
      (brokenEvents answer) (.val (some (io, res))) :=
    Machine.run_iterate_iff.mpr ⟨_, _, _, run_brokenTurns, step_iff.mpr h, rfl,
      Nat.lt_succ_self 3, rfl⟩
  exact SpliceIo.run_execute.mpr ⟨io, res, hawait, rfl⟩

theorem faultIn_broken (answer : IoResult Unit) : FaultIn brokenPipe (brokenEvents answer) := by
  refine ⟨⟨.spliceOut none 5, ⟨.error brokenPipe, none⟩⟩, ?_, rfl⟩
  simp [brokenEvents, brokenTurns, fillTurn, drainTurn]

/-! ### The order of the shutdown -/

/-- A transfer that is finished has delivered everything, or a splice of it has failed. -/
theorem Recorded.finished_cases (h : Recorded ts io) (hs : io.state = .finished error) :
    (io.splicer.bytesRead = io.splicer.bytesWritten ∧ io.splicer.isSourceDone = true ∧
      ((∃ off maxLen stored,
          ⟨.spliceIn off maxLen, ⟨.ok 0, stored⟩⟩ ∈ ts.flatMap Turn.events) ∨
        io.splicer.bytesRead = io.splicer.sizeToSplice)) ∨
    ∃ e, FaultIn e (ts.flatMap Turn.events) := by
  by_cases hf : ∃ e, FaultIn e (ts.flatMap Turn.events)
  · exact .inr hf
  · left
    cases error with
    | some e => exact absurd ⟨e, h.faulted e hs⟩ hf
    | none =>
      have hdone := h.clean_iff.mpr ⟨hs, not_exists.mp hf⟩
      obtain ⟨hsource, heq⟩ := h.drained hdone
      refine ⟨heq, hsource, ?_⟩
      obtain ⟨t, ht, ⟨off, maxLen, stored, he⟩ | rfl⟩ := h.fill_iff.mp hsource
      · exact .inl ⟨off, maxLen, stored, List.mem_flatMap.mpr ⟨t, ht, he⟩⟩
      · exact .inr (h.target ht)

/-- Of the ways to return `Ready`, only a failed readiness check goes around the shutdown. -/
theorem ready_shutdown_iff
    (h : Runs SpliceIo.loopBody (.of fun _ => True) Always io () ts io' ()) {io'' : SpliceIo}
    (hs : Machine.Step SpliceIo.loopBody io' t io'') (ht : t.flow = .done (.ready res)) :
    (∃ answer, ⟨.pollShutdown, .ready answer⟩ ∈ (ts ++ [t]).flatMap Turn.events) ↔
      ∀ ev ∈ t.events, ¬ ReadinessFailed ev := by
  rw [List.flatMap_append, List.flatMap_singleton]
  cases step_iff.mp hs with
  | pending | fill | drain => cases ht
  | clean => simp [ReadinessFailed]
  | fault => simp [ReadinessFailed]
  | failed e =>
    have unfinished (hgo : ∀ error, io'.state ≠ .finished error) (answer : IoResult Unit) :
        ⟨.pollShutdown, .ready answer⟩ ∉ ts.flatMap Turn.events := by
      intro he
      obtain ⟨error, hfin⟩ := run_shutdown_finished h he
      exact hgo error hfin
    cases hstate : io'.state with
    | fill => simp [checked, ReadinessFailed, unfinished (by simp [hstate])]
    | drain => simp [checked, ReadinessFailed, unfinished (by simp [hstate])]
    | finished error => simp [checked, ReadinessFailed]

/-- The writer is shut down only after everything was delivered or a splice failed; after that
only the shutdown is called; and a `Ready` comes after it exactly when no readiness check failed. -/
theorem shutdown_discipline (hctx : Constructed ctx)
    (h : Runs SpliceIo.loopBody (.of fun _ => True) Always (.ofCtx ctx) () ts io ()) :
    (∀ es o a, (SpliceIo.loopBody io).Run es o → ⟨.pollShutdown, a⟩ ∈ es →
      (io.splicer.bytesRead = io.splicer.bytesWritten ∧ io.splicer.isSourceDone = true ∧
        ((∃ off maxLen stored,
            ⟨.spliceIn off maxLen, ⟨.ok 0, stored⟩⟩ ∈ ts.flatMap Turn.events) ∨
          io.splicer.bytesRead = io.splicer.sizeToSplice)) ∨
      ∃ e, FaultIn e (ts.flatMap Turn.events)) ∧
    (∀ es o a, (SpliceIo.loopBody io).Run es o → ⟨.pollShutdown, a⟩ ∈ ts.flatMap Turn.events →
      ∀ ev ∈ es, ev.call = .pollShutdown) ∧
    ∀ t io' res, Machine.Step SpliceIo.loopBody io t io' → t.flow = .done (.ready res) →
      ((∃ answer, ⟨.pollShutdown, .ready answer⟩ ∈ (ts ++ [t]).flatMap Turn.events) ↔
        ∀ ev ∈ t.events, ¬ ReadinessFailed ev) := by
  refine ⟨?_, ?_, ?_⟩
  · intro es o a hrun he
    obtain ⟨error, hs⟩ := pollShutdown_asked hrun he
    exact (run_recorded hctx h).finished_cases hs
  · intro es o a hrun he ev hev
    obtain ⟨error, hs⟩ := run_shutdown_finished h he
    obtain ⟨b, rfl⟩ := finished_asks hrun hs
    rw [List.mem_singleton.mp hev]
  · intro t io' res hs ht
    exact ready_shutdown_iff h hs ht

/-- The shutdown after that waits once, and then answers. -/
def shutdownWaits : Turn calls (IoResult Unit) := ⟨[⟨.pollShutdown, .pending⟩], .done .pending⟩

def shutdownEnds : Turn calls (IoResult Unit) :=
  ⟨[⟨.pollShutdown, .ready (.ok ())⟩], .done (.ready (.error brokenPipe))⟩

/-- The shutdown of the broken writer comes after a fault, with five bytes in the pipe; it is called
again alone, and it has answered when the transfer returns. -/
theorem shutdown_discipline_broken :
    (∃ e, FaultIn e ((brokenTurns ++ [shutdownWaits]).flatMap Turn.events)) ∧
      (∀ ev ∈ shutdownEnds.events, ev.call = .pollShutdown) ∧
      ∃ answer, ⟨.pollShutdown, .ready answer⟩ ∈
        ((brokenTurns ++ [shutdownWaits]) ++ [shutdownEnds]).flatMap Turn.events := by
  let io : SpliceIo := ⟨{ SpliceCtx.new .granted with bytesRead := 5 }, .faulted brokenPipe⟩
  have hwaits : Runs SpliceIo.loopBody (.of fun _ => True) Always (.ofCtx (.new .granted)) ()
      (brokenTurns ++ [shutdownWaits]) io () :=
    run_brokenTurns.always.snoc (step_iff.mpr .pending) (by simp) trivial
  have hends : Iteration io shutdownEnds { io with state := .finished none } := .fault rfl
  obtain ⟨hshut, halone, hready⟩ := shutdown_discipline (.new Pipe.new_granting) hwaits
  refine ⟨?_, ?_, ?_⟩
  · rcases hshut _ _ _ hends.run (List.mem_singleton_self _) with ⟨heq, -⟩ | hf
    · cases heq
    · exact hf
  · refine halone _ _ .pending hends.run ?_
    simp [shutdownWaits]
  · refine (hready _ _ _ (step_iff.mpr hends) rfl).mpr ?_
    simp [shutdownEnds, ReadinessFailed]

/-- Five bytes are read, the next readiness check fails, and `Ready` comes with no shutdown. -/
theorem ready_without_shutdown :
    Constructed (.new .granted) ∧ ∃ ts io t io',
      Runs SpliceIo.loopBody (.of fun _ => True) Unready (.ofCtx (.new .granted)) () ts io () ∧
      Machine.Step SpliceIo.loopBody io t io' ∧ t.flow = .done (.ready (.error runtimeGone)) ∧
      ∀ a, ⟨.pollShutdown, a⟩ ∉ (ts ++ [t]).flatMap Turn.events := by
  have hfills := granted_fills (n := 5) (by decide) (by decide)
  refine ⟨.new Pipe.new_granting, _, _, _, _, .step_of (step_iff.mpr hfills) (by simp) rfl
    (.refl _ _), step_iff.mpr (.failed runtimeGone), rfl, ?_⟩
  simp [fillTurn, checked]

/-! ### The reported error -/

/-- Until the shutdown answers `Ready`, a finished transfer does not change. -/
theorem run_waits (h : Runs SpliceIo.loopBody (.of fun _ => True) Unready io () ts io' ())
    (hs : io.state = .finished error) :
    io' = io ∧ ∀ ev ∈ ts.flatMap Turn.events, ev = ⟨.pollShutdown, .pending⟩ := by
  apply h.history (fun ts u _ => u = io ∧
    ∀ ev ∈ ts.flatMap Turn.events, (ev : Event calls) = ⟨.pollShutdown, .pending⟩)
  · simp
  · rintro ts u _ t u' _ ⟨rfl, hev⟩ hstep _ ht
    rw [List.flatMap_append, List.flatMap_singleton]
    cases step_iff.mp hstep with
    | pending =>
      refine ⟨rfl, ?_⟩
      intro ev he
      rcases List.mem_append.mp he with he | he
      · exact hev ev he
      · rw [List.mem_singleton.mp he, hs]
        rfl
    | failed | clean | fault => cases ht
    | fill hs' | drain hs' => cases hs.symm.trans hs'

/-- The iteration that returns a fault returns it unless the shutdown failed with another error. -/
theorem Iteration.ready_fault_iff (hi : Iteration io t io') (hs : io.state = .finished (some e))
    (ht : t.flow = .done (.ready res)) :
    res = .error e ↔ ∀ e', ⟨.pollShutdown, .ready (.error e')⟩ ∈ t.events → e' = e := by
  cases hi with
  | pending => cases ht
  | failed e' =>
    cases ht
    simp [hs, checked]
  | fill hs' | drain hs' | clean hs' => cases hs.symm.trans hs'
  | fault hs' =>
    cases ht
    cases hs.symm.trans hs'
    simp

/-- From the fault to the first `Ready`. -/
theorem ready_of_fault {io'' : SpliceIo} {us : List (Turn calls (IoResult Unit))}
    {s : Turn calls (IoResult Unit)} (hs : io.state = .finished (some e))
    (h : Runs SpliceIo.loopBody (.of fun _ => True) Unready io () us io' ())
    (hstep : Machine.Step SpliceIo.loopBody io' s io'') (hready : s.flow = .done (.ready res)) :
    io''.splicer = io.splicer ∧
      (res = .error e ↔
        ∀ e', ⟨.pollShutdown, .ready (.error e')⟩ ∈ (us ++ [s]).flatMap Turn.events → e' = e) := by
  obtain ⟨rfl, hwait⟩ := run_waits h hs
  have hi := step_iff.mp hstep
  refine ⟨(hi.of_finished hs).1, ?_⟩
  rw [hi.ready_fault_iff hs hready, List.flatMap_append, List.flatMap_singleton]
  constructor
  · intro hlast e' he
    rcases List.mem_append.mp he with he | he
    · cases hwait _ he
    · exact hlast e' he
  · intro hall e' he
    exact hall e' (List.mem_append_right _ he)

/-- From a fault anywhere in a run to its first `Ready`: the shutdown is not called before. -/
theorem reported_iff {io'' : SpliceIo} {s : Turn calls (IoResult Unit)}
    (h : Runs SpliceIo.loopBody (.of fun _ => True) Unready io () ts io' ())
    (hf : FaultIn e (ts.flatMap Turn.events)) (hs : Machine.Step SpliceIo.loopBody io' s io'')
    (hready : s.flow = .done (.ready res)) :
    res = .error e ↔
      ∀ e', ⟨.pollShutdown, .ready (.error e')⟩ ∈ (ts ++ [s]).flatMap Turn.events → e' = e := by
  obtain ⟨ev, hev, hfault⟩ := hf
  obtain ⟨t, ht, hev'⟩ := List.mem_flatMap.mp hev
  obtain ⟨pre, post, u, _, v, _, rfl, hpre, hstep, -, -, hpost⟩ := h.split ht
  have hft : FaultIn e t.events := ⟨ev, hev', hfault⟩
  have hi := step_iff.mp hstep
  have hgo := hi.unfinished_of_faultIn hft
  have hbefore (e' : IoError) :
      ⟨.pollShutdown, .ready (.error e')⟩ ∉ (pre ++ [t]).flatMap Turn.events := by
    rw [List.flatMap_append, List.flatMap_singleton, List.mem_append]
    rintro (he | he)
    · obtain ⟨error, hfin⟩ := run_shutdown_finished hpre.always he
      exact hgo error hfin
    · obtain ⟨error, hfin⟩ := pollShutdown_asked hstep he
      exact hgo error hfin
  have hparts : ((pre ++ t :: post) ++ [s]).flatMap Turn.events =
      (pre ++ [t]).flatMap Turn.events ++ (post ++ [s]).flatMap Turn.events := by
    simp
  rw [(ready_of_fault (hi.faulted hft) hpost hs hready).2, hparts]
  constructor
  · intro hlast e' he
    rcases List.mem_append.mp he with he | he
    · exact absurd he (hbefore e')
    · exact hlast e' he
  · intro hall e' he
    exact hall e' (List.mem_append_right _ he)

theorem run_bytesWritten {C} (h : Runs SpliceIo.loopBody (.of fun _ => True) C io () ts io' ()) :
    io'.splicer.bytesWritten =
      io.splicer.bytesWritten + tally bytesOut (ts.flatMap Turn.events) := by
  apply h.history (fun ts u _ => u.splicer.bytesWritten =
    io.splicer.bytesWritten + tally bytesOut (ts.flatMap Turn.events))
  · simp
  · intro ts u _ t u' _ hI hs _ _
    rw [(step_iff.mp hs).bytesOut_eq, hI, List.flatMap_append, List.flatMap_singleton, tally_append,
      Nat.add_assoc]

/-- A fault is recorded where it happens, and is what the transfer reports exactly when the
shutdown after it does not fail with another error; the bytes delivered are reported always. -/
theorem fault_reported (hctx : Constructed ctx) :
    (∀ ts u t v e,
      Runs SpliceIo.loopBody (.of fun _ => True) Unready (.ofCtx ctx) () ts u () →
      Machine.Step SpliceIo.loopBody u t v → FaultIn e t.events →
      v.state = .finished (some e) ∧
      ∀ us x s y res, Runs SpliceIo.loopBody (.of fun _ => True) Unready v () us x () →
        Machine.Step SpliceIo.loopBody x s y → s.flow = .done (.ready res) →
        y.splicer.bytesWritten = v.splicer.bytesWritten ∧
        (res = .error e ↔
          ∀ e', ⟨.pollShutdown, .ready (.error e')⟩ ∈ (us ++ [s]).flatMap Turn.events → e' = e)) ∧
    ∀ fuel es report, (SpliceIo.execute fuel (.ofCtx ctx)).Run es (.val (some report)) →
      report.tx = tally bytesOut es ∧
      ∀ e, FaultIn e es →
        (report.error = some e ↔
          ∀ e', ⟨.pollShutdown, .ready (.error e')⟩ ∈ es → e' = e) := by
  constructor
  · intro ts u t v e _ hs hf
    have hstate := (step_iff.mp hs).faulted hf
    refine ⟨hstate, ?_⟩
    intro us x s y res hr hstep hready
    obtain ⟨hsplicer, hiff⟩ := ready_of_fault hstate hr hstep hready
    exact ⟨by rw [hsplicer], hiff⟩
  · intro fuel es report hexec
    obtain ⟨io', res, hawait, rfl⟩ := SpliceIo.run_execute.mp hexec
    have hany : (Env.of fun _ : Event calls => True).Accepts () es () :=
      Env.accepts_of.mpr (by simp)
    obtain ⟨ts, t, u, _, hr, hs, hready, -, rfl⟩ := Machine.await_runs hawait hany
    have hfresh := hctx.fresh
    refine ⟨?_, ?_⟩
    · have htotal := run_bytesWritten (hr.always.snoc hs (by simp) trivial)
      simpa [SpliceIo.report, SpliceIo.ofCtx, hfresh.written] using htotal
    · intro e hf
      have hreport : (io'.report res).error = some e ↔ res = .error e := by
        cases res <;> simp [SpliceIo.report]
      rw [hreport]
      rcases faultIn_snoc.mp hf with hf | hf
      · exact reported_iff hr hf hs hready
      · exact absurd hf ((step_iff.mp hs).not_faultIn_ready hready)

/-- The broken writer is reported when its shutdown succeeds. -/
theorem fault_reported_broken : ∃ report,
    (SpliceIo.execute 4 (.ofCtx (.new .granted))).Run (brokenEvents (.ok ())) (.val (some report)) ∧
    report.tx = 0 ∧ report.error = some brokenPipe := by
  have hexec := execute_broken (.fault rfl)
  obtain ⟨htx, herror⟩ := (fault_reported (.new Pipe.new_granting)).2 4 _ _ hexec
  refine ⟨_, hexec, htx, ?_⟩
  apply (herror _ (faultIn_broken _)).mpr
  intro e' he
  simp [brokenEvents, brokenTurns, fillTurn, drainTurn] at he

/-- The broken writer is no longer connected either, and its shutdown fails: `execute` reports
that second error, and the first is lost. -/
theorem shutdown_error_replaces_fault :
    Constructed (.new .granted) ∧ ∃ fuel es,
      (SpliceIo.execute fuel (.ofCtx (.new .granted))).Run es
        (.val (some ⟨0, 0, some notConnected⟩)) ∧
      (∀ e ∈ es, Bounded e) ∧ FaultIn brokenPipe es ∧ brokenPipe ≠ notConnected := by
  refine ⟨.new Pipe.new_granting, 4, _, execute_broken (.failed notConnected), ?_,
    faultIn_broken _, by decide⟩
  simp [brokenEvents, brokenTurns, fillTurn, drainTurn, Bounded]
  decide

end Ending

end Splicer
