import Splicer.Delivery
import Splicer.Work

/-! A transfer that nothing keeps from ending ends, and all of its bytes have arrived. -/
namespace Splicer

open Interaction

/-- How many bytes of `src` a transfer is to move. -/
def due (start : SpliceCtx) (src : List UInt8) : ℕ := min start.sizeToSplice src.length

/-- What is left when a transfer has ended well. -/
structure Arrived (start : SpliceCtx) (w₀ : World) (src : List UInt8) (w : World) : Prop where
  source : w.source = w₀.source.skip (due start src)
  pipe : w.pipe = []
  sink : w₀.sink.write start.offset.offOut (src.take (due start src)) = some w.sink

/-- Whether an event sends the task to sleep. -/
def waited : Event calls → ℕ
  | ⟨.pollReadReady, .pending⟩ => 1
  | ⟨.pollWriteReady, .pending⟩ => 1
  | ⟨.pollShutdown, .pending⟩ => 1
  | _ => 0

/-- What an event that moves nothing costs. -/
def delay (e : Event calls) : ℕ := 2 * blocked e + waited e

/-- The kernel when nothing fails: the only errors are `WouldBlock`s, a writer takes a byte when
there is one, and `try_io_write` answers in place of its closure only when there are bytes to
write. -/
def obliging (cap : ℕ) : Env calls World := fun w e w' =>
  kernel cap w e w' ∧ Unfailing e ∧ Productive e ∧
    (w.pipe = [] → ∀ err, e ≠ ⟨.tryIoWrite, .err err⟩)

/-- Nothing has been lost, no error is waiting, and no panic is ahead. -/
structure Hale (start : SpliceCtx) (w₀ : World) (src : List UInt8) (io : SpliceIo) (w : World) :
    Prop where
  target : io.splicer.sizeToSplice = start.sizeToSplice
  sound : Sound io
  conserved : Conserved start w₀ src io.splicer w
  unfaulted : Unfaulted io

/-- A transfer at work with fuel for `k` iterations: each of the `total` there were to begin with
is left, is potential, or has gone into a byte read, a byte written or a delay. -/
structure Working (start : SpliceCtx) (w₀ : World) (src : List UInt8) (total k : ℕ) (io : SpliceIo)
    (w : World × ℕ) : Prop where
  hale : Hale start w₀ src io w.1
  spent : total + potential io ≤ k + 3 + io.splicer.bytesRead + io.splicer.bytesWritten + w.2

section OneDirection

variable {cap n c k total fuel : ℕ} {start ctx ctx' : SpliceCtx} {w₀ w w' : World}
  {src : List UInt8} {io io' : SpliceIo} {es : List (Event calls)}
  {t : Turn calls (IoResult Unit)} {why : Panic} {res : IoResult SpliceOutcome}
  {out : Outcome calls (Option TransferReport)}

theorem Conserved.pipe_eq_nil (h : Conserved start w₀ src ctx w)
    (heq : ctx.bytesRead = ctx.bytesWritten) : w.pipe = [] := by
  rw [h.pipe, heq]
  exact List.drop_eq_nil_of_le (List.length_take_le _ _)

/-- An obliging kernel gives no cause for a retreat at the end of the source. -/
theorem Hale.no_retreat (h : Hale start w₀ src io w) (hi : Iteration io t io')
    (ha : (obliging cap).Accepts w t.events w') : ¬ EofRetreat io t := by
  rintro ⟨hs, -, -, e, he, hret⟩
  have hproductive : ∀ e ∈ t.events, Productive e := ha.forall fun _ _ _ ho => ho.2.2.1
  cases hi with
  | pending | failed =>
    simp only [hs, List.mem_singleton] at he
    subst he
    exact hret
  | fill hs' => cases hs.symm.trans hs'
  | clean hs' => cases hs.symm.trans hs'
  | fault hs' => cases hs.symm.trans hs'
  | drain _ hd =>
    rcases List.mem_cons.mp he with rfl | he
    · exact hret
    · cases hd with
      | gate e' =>
        cases List.mem_singleton.mp he
        obtain ⟨w₁, ⟨rfl, -⟩, w₂, ⟨-, -, -, hne⟩, -⟩ := ha
        exact hne (h.conserved.pipe_eq_nil hret.2) e' rfl
      | closed | empty =>
        cases List.mem_singleton.mp he
        exact hret
      | failed =>
        simp only [List.mem_cons, List.not_mem_nil, or_false] at he
        rcases he with rfl | rfl <;> exact hret
      | stuck =>
        have hpos := hproductive _ (List.mem_cons_of_mem _
          (List.mem_cons_of_mem _ (List.mem_singleton_self _)))
        exact absurd hpos (Nat.lt_irrefl 0)
      | moved _ _ hpos _ =>
        simp only [List.mem_cons, List.not_mem_nil, or_false] at he
        rcases he with rfl | rfl
        · exact hret
        · exact absurd hret (Nat.ne_of_gt hpos)

theorem obliging_accepts (ha : (obliging cap).Accepts w es w') :
    (kernel cap).Accepts w es w' ∧ (∀ e ∈ es, Unfailing e) ∧ ∀ e ∈ es, Productive e :=
  ⟨ha.mono fun _ _ _ ho => ho.1, ha.forall fun _ _ _ ho => ho.2.1,
    ha.forall fun _ _ _ ho => ho.2.2.1⟩

theorem Hale.step (h : Hale start w₀ src io w)
    (hsrc : w₀.source.ahead start.offset.offIn = some src) (hi : Iteration io t io')
    (ha : (obliging cap).Accepts w t.events w') : Hale start w₀ src io' w' := by
  obtain ⟨hk, hunfailing, -⟩ := obliging_accepts ha
  have hbounded := hk.forall fun _ _ _ => kernel_bounded
  exact ⟨hi.sizeToSplice_eq.trans h.target, h.sound.step hi hbounded (h.no_retreat hi ha),
    h.conserved.step hsrc h.sound.counted hi hk, h.unfaulted.step hi hunfailing⟩

theorem Hale.no_crash (h : Hale start w₀ src io w) (hc : Crash io es why)
    (ha : (obliging cap).Accepts w es w') : False := by
  have hbounded := (obliging_accepts ha).1.forall fun _ _ _ => kernel_bounded
  exact h.sound.no_crash hbounded hc

/-- A half that returns has read and written all that it should. -/
theorem Hale.returned {res : IoResult Unit} (h : Hale start w₀ src io w)
    (h' : Hale start w₀ src io' w') (hi : Iteration io ⟨es, .done (.ready res)⟩ io')
    (ha : (obliging cap).Accepts w es w') :
    res = .ok () ∧ io'.splicer.bytesWritten = due start src ∧ Arrived start w₀ src w' := by
  obtain ⟨hres, hdone, heq⟩ := h.unfaulted.returned hi (obliging_accepts ha).2.1
  have hread := h'.conserved.read_le
  have hle := h'.sound.counted.read_le
  have htarget := h'.target
  have hdue : io'.splicer.bytesWritten = due start src := by
    unfold due
    rcases h'.conserved.ended hdone with hend | hend <;> omega
  refine ⟨hres, hdue, ?_, h'.conserved.pipe_eq_nil heq, ?_⟩
  · rw [h'.conserved.source, heq, hdue]
  · rw [← hdue]
    exact h'.conserved.sink

/-! ### What an iteration costs -/

theorem FillAttempt.bytesIn_eq (h : FillAttempt ctx es res ctx') :
    ctx'.bytesRead = ctx.bytesRead + tally bytesIn es := by
  cases h <;> simp [bytesIn]

theorem DrainAttempt.bytesIn_eq (h : DrainAttempt ctx es res ctx') : tally bytesIn es = 0 := by
  cases h <;> rfl

theorem Iteration.bytesIn_eq (hi : Iteration io t io') :
    io'.splicer.bytesRead = io.splicer.bytesRead + tally bytesIn t.events := by
  have hchecked (s : TransferState) (a : Poll (IoResult Unit)) : bytesIn (checked s a) = 0 := by
    cases s <;> rfl
  cases hi with
  | pending => simp [hchecked]
  | failed => simp [hchecked]
  | fill _ hf _ => simp [hf.bytesIn_eq, bytesIn]
  | drain _ hd => simp [hd.frame.2.1, hd.bytesIn_eq, bytesIn]
  | clean => simp [bytesIn]
  | fault => simp [bytesIn]

/-- What pays for an iteration is a byte moved or a delay. -/
theorem tally_pay_le : tally pay es ≤ tally bytesIn es + tally bytesOut es + tally delay es := by
  induction es with
  | nil => exact Nat.le_refl 0
  | cons e es ih =>
    simp only [tally_cons, pay, delay]
    omega

theorem Iteration.delay_of_pending (hi : Iteration io t io') (ht : t.flow = .done .pending) :
    tally delay t.events = 1 := by
  cases hi with
  | pending => cases hs : io.state <;> rfl
  | failed | fill | drain | clean | fault => cases ht

/-- Every iteration that does not return `Ready` spends potential, moves bytes or is a delay. -/
theorem Iteration.paid (hi : Iteration io t io') (hp : ∀ ev ∈ t.events, Productive ev)
    (ht : t.flow.ready? = none) :
    potential io' + 1 + io.splicer.bytesRead + io.splicer.bytesWritten ≤
      potential io + io'.splicer.bytesRead + io'.splicer.bytesWritten + tally delay t.events := by
  have hin := hi.bytesIn_eq
  have hout := hi.bytesOut_eq
  have hpay := @tally_pay_le t.events
  by_cases hflow : t.flow = .again
  · have hpotential := hi.potential_le hp hflow
    omega
  · cases hi with
    | pending =>
      have hdelay := (@Iteration.pending io).delay_of_pending rfl
      omega
    | fill | drain => exact absurd rfl hflow
    | failed | clean | fault => cases ht

/-! ### The loop -/

/-- Where the loop over an obliging kernel ends, `n` iterations and `c` delays from `io`. -/
def Settles {X : Type} (start : SpliceCtx) (w₀ : World) (src : List UInt8)
    (exit : Flow (IoResult Unit) → Option X) (n c : ℕ) :
    Outcome calls (Option (SpliceIo × X)) → World × ℕ → Prop
  | .val none, w => c + n ≤ 2 * due start src + w.2 + 3
  | .val (some (io, x)), w => Hale start w₀ src io w.1 ∧ c ≤ w.2 ∧ ∃ flow, exit flow = some x ∧
      (flow = .done .pending → c < w.2) ∧
      ∀ res, flow = .done (.ready res) →
        res = .ok () ∧ io.splicer.bytesWritten = due start src ∧ Arrived start w₀ src w.1
  | .fault _, _ => False

theorem potential_le_three (io : SpliceIo) : potential io ≤ 3 := by
  cases hs : io.state with
  | drain => simpa [potential, hs] using potential_drain_le io.splicer
  | fill | finished => simp [potential, hs]

theorem Hale.working (h : Hale start w₀ src io w) : Working start w₀ src (c + n) n io (w, c) := by
  have hpotential := potential_le_three io
  refine ⟨h, ?_⟩
  change c + n + _ ≤ n + 3 + _ + _ + c
  omega

theorem Working.step (h : Working start w₀ src total (k + 1) io (w, c))
    (hsrc : w₀.source.ahead start.offset.offIn = some src) (hi : Iteration io t io')
    (ha : (obliging cap).Accepts w t.events w') (ht : t.flow.ready? = none) :
    Working start w₀ src total k io' (w', c + tally delay t.events) := by
  have hpaid := hi.paid (obliging_accepts ha).2.2 ht
  have hspent := h.spent
  refine ⟨h.hale.step hsrc hi ha, ?_⟩
  change total + _ ≤ k + 1 + 3 + _ + _ + c at hspent
  change total + _ ≤ k + 3 + _ + _ + (c + tally delay t.events)
  omega

/-- Bytes and delays have used up all the fuel there was. -/
theorem Working.exhausted {w : World × ℕ} (h : Working start w₀ src total 0 io w) :
    total ≤ 2 * due start src + w.2 + 3 := by
  obtain ⟨hhale, hspent⟩ := h
  have hread := hhale.conserved.read_le
  have hle := hhale.sound.counted.read_le
  have hwritten := hhale.sound.counted.written_le
  have hdue : io.splicer.bytesRead ≤ due start src := Nat.le_min.mpr ⟨hhale.target ▸ hle, hread⟩
  omega

theorem Hale.settles {X : Type} {exit : Flow (IoResult Unit) → Option X}
    (hready : ∀ flow, exit flow = none → flow.ready? = none)
    (hsrc : w₀.source.ahead start.offset.offIn = some src) (h : Hale start w₀ src io w) :
    (Machine.iterate SpliceIo.loopBody exit n io).wp ((obliging cap).timed delay)
      (fun _ _ => True) (Settles start w₀ src exit n c) (w, c) := by
  refine Machine.wp_iterate (fun k u v => Working start w₀ src (c + n) k u v ∧ c ≤ v.2) ?_ ?_
    ⟨h.working, Nat.le_refl c⟩
  · rintro k u ⟨v, clock⟩ ⟨hu, hclock⟩
    refine Prog.wp_guard (wp_loopBody ?_ ?_) fun _ _ _ => trivial
    · rintro t u' ⟨v', clock'⟩ hi ha
      obtain ⟨hk, rfl⟩ := Env.accepts_timed.mp ha
      have hclock' : c ≤ clock + tally delay t.events := Nat.le_add_right_of_le hclock
      cases hx : exit t.flow with
      | none =>
        simp only [Machine.Next, hx]
        exact ⟨hu.step hsrc hi hk (hready _ hx), hclock'⟩
      | some x =>
        simp only [Machine.Next, hx]
        refine ⟨hu.hale.step hsrc hi hk, hclock', t.flow, hx, ?_, ?_⟩
        · intro hflow
          change c < clock + tally delay t.events
          rw [hi.delay_of_pending hflow]
          exact Nat.lt_succ_of_le hclock
        · intro res hflow
          obtain ⟨es, flow⟩ := t
          cases hflow
          exact hu.hale.returned (hu.hale.step hsrc hi hk) hi hk
    · rintro es why ⟨v', clock'⟩ hc ha
      exact hu.hale.no_crash hc (Env.accepts_timed.mp ha).1
  · rintro u v ⟨hu, -⟩
    exact hu.exhausted

theorem Launch.hale (hl : Launch ctx w₀ src) : Hale ctx w₀ src (.ofCtx ctx) w₀ :=
  ⟨rfl, hl.fresh.sound, hl.fresh.conserved hl.pipe hl.sink, by rintro ⟨⟩, by rintro e ⟨⟩⟩

/-- While nothing fails, `execute` does not panic, and with fuel for every byte and every delay it
reports that all has arrived. -/
theorem execute_completes (hl : Launch ctx w₀ src)
    (h : (SpliceIo.execute fuel (.ofCtx ctx)).Run es out) (ha : (obliging cap).Accepts w₀ es w')
    (hfuel : 2 * due ctx src + tally delay es + 3 < fuel) :
    out = .val (some ⟨due ctx src, 0, none⟩) ∧ Arrived ctx w₀ src w' := by
  have hsettles : (Machine.await SpliceIo.loopBody fuel (.ofCtx ctx)).wp
      ((obliging cap).timed delay) (fun _ _ => True) (Settles ctx w₀ src Flow.ready? fuel 0)
      (w₀, 0) := hl.hale.settles (fun _ hx => hx) hl.source
  have hexecute : (SpliceIo.execute fuel (.ofCtx ctx)).wp ((obliging cap).timed delay)
      (fun _ _ => True) (fun out w => 2 * due ctx src + w.2 + 3 < fuel →
        out = .val (some ⟨due ctx src, 0, none⟩) ∧ Arrived ctx w₀ src w.1) (w₀, 0) := by
    refine Prog.wp_bind.mpr (Prog.wp_mono hsettles ?_)
    rintro ((_ | ⟨io, res⟩) | why) ⟨v, clock⟩ hs
    · intro hlt
      have hspent : 0 + fuel ≤ 2 * due ctx src + clock + 3 := hs
      change 2 * due ctx src + clock + 3 < fuel at hlt
      omega
    · intro _
      obtain ⟨-, -, flow, hx, -, hreturned⟩ := hs
      obtain ⟨rfl, hwritten, harrived⟩ := hreturned res (Flow.ready?_eq_some.mp hx)
      refine ⟨?_, harrived⟩
      rw [SpliceIo.report, hwritten]
    · exact hs.elim
  exact Prog.wp_post hexecute h (Env.accepts_timed.mpr ⟨ha, rfl⟩) (by simpa using hfuel)

/-- On a kernel that fails no call and turns down no write, every run is an obliging one. -/
theorem obliging_of (ha : (kernel cap).Accepts w es w')
    (hes : ∀ e ∈ es, Unfailing e ∧ Productive e ∧ ∀ err, e ≠ ⟨.tryIoWrite, .err err⟩) :
    (obliging cap).Accepts w es w' :=
  (Env.accepts_only.mpr ⟨ha, hes⟩).mono fun _ _ _ ⟨hk, hu, hp, hne⟩ => ⟨hk, hu, hp, fun _ => hne⟩

/-- A byte and the end of the source, through a pipe of one byte. -/
def oneByte : List (Event calls) :=
  [fillTurn none isizeMax ⟨.ok 1, none⟩, fillTurn none (isizeMax - 1) ⟨.ok 0, none⟩,
    drainTurn none 1 ⟨.ok 1, none⟩].flatMap Turn.events ++
  [⟨.pollWriteReady, .ready (.ok ())⟩, ⟨.tryIoWrite, .callInner⟩, ⟨.pollShutdown, .ready (.ok ())⟩]

theorem oneByte_accepted :
    (obliging 1).Accepts (.streams [9]) oneByte ⟨.stream [], [], .stream [9]⟩ := by
  refine obliging_of ?_ ?_
  · exact ⟨_, rfl, _, rfl, _, ⟨_, rfl, by decide, by decide, by decide, by decide, rfl, rfl⟩,
      _, rfl, _, rfl, _, ⟨_, rfl, by decide, by decide, by decide, by decide, rfl, rfl⟩,
      _, rfl, _, rfl, _, ⟨by decide, by decide, rfl, _, rfl, rfl⟩, _, rfl, _, rfl, _, rfl, rfl⟩
  · simp [oneByte, fillTurn, drainTurn, Unfailing, faultOf, Productive]

/-- The reader is not ready at first. -/
theorem execute_completes_oneByte :
    (SpliceIo.execute 7 (.ofCtx (.new .granted))).Run (⟨.pollReadReady, .pending⟩ :: oneByte)
      (.val (some ⟨1, 0, none⟩)) ∧
    Arrived (.new .granted) (.streams [9]) [9] ⟨.stream [], [], .stream [9]⟩ := by
  have hrun : (SpliceIo.execute 7 (.ofCtx (.new .granted))).Run
      (⟨.pollReadReady, .pending⟩ :: oneByte) (.val (some ⟨1, 0, none⟩)) :=
    .ask (.ask (.ask (.ask (.ask (.ask (.ask (.ask (.ask (.ask (.ask
      (.ask (.ask (.ret _)))))))))))))
  have ha : (obliging 1).Accepts (.streams [9]) (⟨.pollReadReady, .pending⟩ :: oneByte)
      ⟨.stream [], [], .stream [9]⟩ :=
    ⟨_, ⟨rfl, rfl, trivial, fun _ _ => by rintro ⟨⟩⟩, oneByte_accepted⟩
  have hl := launch_streams (.new Pipe.new_granting) rfl [9]
  exact ⟨hrun, (execute_completes hl hrun ha (by decide)).2⟩

end OneDirection

/-! ### Two directions -/

/-- What an event costs, of whichever direction it is. -/
def bidiDelay (e : Event bidiCalls) : ℕ := delay ⟨e.call.2, e.answer⟩

/-- An obliging kernel for each direction, with a clock. -/
abbrev clocked (cap : Side → ℕ) : Env bidiCalls (Side → World × ℕ) :=
  Env.shared fun d => (obliging (cap d)).timed delay

/-- Where a call of both halves over obliging kernels ends, that began in `w`. -/
def SettlesBoth (ctx : Side → SpliceCtx) (w₀ : Side → World) (src : Side → List UInt8) (fuel : ℕ)
    (w : Side → World × ℕ) :
    Outcome bidiCalls (Option (SpliceBidiIo × Poll (IoResult Unit))) → (Side → World × ℕ) → Prop
  | .val none, w' => ∃ d, fuel ≤ 2 * due (ctx d) (src d) + (w' d).2 + 3
  | .val (some (io, .pending)), w' =>
    (∀ d, Hale (ctx d) (w₀ d) (src d) (io.half d) (w' d).1) ∧
      (w .sl2sr).2 + (w .sr2sl).2 < (w' .sl2sr).2 + (w' .sr2sl).2
  | .val (some (io, .ready res)), w' => res = .ok () ∧
    ∀ d, (io.half d).splicer.bytesWritten = due (ctx d) (src d) ∧
      Arrived (ctx d) (w₀ d) (src d) (w' d).1
  | .fault _, _ => False

/-- Where `n` of these calls end. -/
def EndsBoth (ctx : Side → SpliceCtx) (w₀ : Side → World) (src : Side → List UInt8) (fuel n : ℕ)
    (w : Side → World × ℕ) :
    Outcome bidiCalls (Option (SpliceBidiIo × IoResult Unit)) → (Side → World × ℕ) → Prop
  | .val none, w' => (∃ d, fuel ≤ 2 * due (ctx d) (src d) + (w' d).2 + 3) ∨
    n + (w .sl2sr).2 + (w .sr2sl).2 ≤ (w' .sl2sr).2 + (w' .sr2sl).2
  | .val (some (io, res)), w' => res = .ok () ∧
    ∀ d, (io.half d).splicer.bytesWritten = due (ctx d) (src d) ∧
      Arrived (ctx d) (w₀ d) (src d) (w' d).1
  | .fault _, _ => False

section TwoDirections

variable {cap : Side → ℕ} {ctx : Side → SpliceCtx} {w₀ w' : Side → World}
  {w : Side → World × ℕ} {src : Side → List UInt8} {io : SpliceBidiIo} {fuel n : ℕ}
  {es : List (Event bidiCalls)} {out : Outcome bidiCalls (Option TransferReport)}

theorem Hale.poll_settles {cap : ℕ} {start : SpliceCtx} {w₀ : World} {src : List UInt8}
    {io : SpliceIo} {w : World × ℕ} (h : Hale start w₀ src io w.1)
    (hsrc : w₀.source.ahead start.offset.offIn = some src) :
    (io.pollExecute fuel).wp ((obliging cap).timed delay) (fun _ _ => True)
      (Settles start w₀ src Flow.poll? fuel w.2) w := by
  refine h.settles ?_ hsrc
  intro flow hx
  rw [Flow.poll?_eq_none.mp hx]
  rfl

theorem Settles.of_pending {start : SpliceCtx} {w₀ : World} {src : List UInt8} {c : ℕ}
    {io : SpliceIo} {w : World × ℕ}
    (h : Settles start w₀ src Flow.poll? fuel c (.val (some (io, .pending))) w) : c < w.2 := by
  obtain ⟨-, -, flow, hx, hdelayed, -⟩ := h
  exact hdelayed (Flow.poll?_eq_some.mp hx)

theorem Settles.of_ready {start : SpliceCtx} {w₀ : World} {src : List UInt8} {c : ℕ}
    {io : SpliceIo} {w : World × ℕ} {res : IoResult Unit}
    (h : Settles start w₀ src Flow.poll? fuel c (.val (some (io, .ready res))) w) :
    res = .ok () ∧ io.splicer.bytesWritten = due start src ∧ Arrived start w₀ src w.1 := by
  obtain ⟨-, -, flow, hx, -, hreturned⟩ := h
  exact hreturned res (Flow.poll?_eq_some.mp hx)

/-- What the two halves of a call have come to, the call has. -/
theorem settlesBoth_combine {w' : Side → World × ℕ} {ret : Side → Poll (IoResult Unit)}
    (h : ∀ d, Settles (ctx d) (w₀ d) (src d) Flow.poll? fuel (w d).2
      (.val (some (io.half d, ret d))) (w' d)) :
    SettlesBoth ctx w₀ src fuel w (.val (some (io, combine (ret .sl2sr) (ret .sr2sl)))) w' := by
  have hhale (d : Side) : Hale (ctx d) (w₀ d) (src d) (io.half d) (w' d).1 := (h d).1
  have hsl : (w .sl2sr).2 ≤ (w' .sl2sr).2 := (h .sl2sr).2.1
  have hsr : (w .sr2sl).2 ≤ (w' .sr2sl).2 := (h .sr2sl).2.1
  have h₁ := h .sl2sr
  have h₂ := h .sr2sl
  cases hret₁ : ret .sl2sr with
  | pending =>
    rw [hret₁] at h₁
    have hlt := h₁.of_pending
    exact ⟨hhale, by omega⟩
  | ready res₁ =>
    rw [hret₁] at h₁
    obtain ⟨rfl, hdone₁⟩ := h₁.of_ready
    cases hret₂ : ret .sr2sl with
    | pending =>
      rw [hret₂] at h₂
      have hlt := h₂.of_pending
      exact ⟨hhale, by omega⟩
    | ready res₂ =>
      rw [hret₂] at h₂
      obtain ⟨rfl, hdone₂⟩ := h₂.of_ready
      refine ⟨rfl, ?_⟩
      rintro (_ | _)
      · exact hdone₁
      · exact hdone₂

theorem wp_pollExecute_settles (hl : ∀ d, Launch (ctx d) (w₀ d) (src d))
    (h : ∀ d, Hale (ctx d) (w₀ d) (src d) (io.half d) (w d).1) :
    (io.pollExecute fuel).wp (clocked cap) (fun _ _ => True) (SettlesBoth ctx w₀ src fuel w)
      w := by
  have hpoll₁ : (io.ioSl2sr.pollExecute fuel).wp ((obliging (cap .sl2sr)).timed delay)
      (fun _ _ => True) (Settles (ctx .sl2sr) (w₀ .sl2sr) (src .sl2sr) Flow.poll? fuel
        (w .sl2sr).2) (w .sl2sr) := (h .sl2sr).poll_settles (hl .sl2sr).source
  refine Prog.wp_bind.mpr (Prog.wp_mono (Prog.wp_on hpoll₁) ?_)
  rintro ((_ | ⟨io₁, ret₁⟩) | why) w₁ ⟨hs₁, hsame₁⟩
  · have hspent : (w .sl2sr).2 + fuel ≤ 2 * due (ctx .sl2sr) (src .sl2sr) + (w₁ .sl2sr).2 + 3 :=
      hs₁
    exact ⟨.sl2sr, by omega⟩
  · have hpoll₂ : (io.ioSr2sl.pollExecute fuel).wp ((obliging (cap .sr2sl)).timed delay)
        (fun _ _ => True) (Settles (ctx .sr2sl) (w₀ .sr2sl) (src .sr2sl) Flow.poll? fuel
          (w .sr2sl).2) (w₁ .sr2sl) := by
      rw [hsame₁ .sr2sl (by decide)]
      exact (h .sr2sl).poll_settles (hl .sr2sl).source
    refine Prog.wp_bind.mpr (Prog.wp_mono (Prog.wp_on hpoll₂) ?_)
    rintro ((_ | ⟨io₂, ret₂⟩) | why) w₂ ⟨hs₂, hsame₂⟩
    · have hspent : (w .sr2sl).2 + fuel ≤ 2 * due (ctx .sr2sl) (src .sr2sl) + (w₂ .sr2sl).2 + 3 :=
        hs₂
      exact ⟨.sr2sl, by omega⟩
    · have hhalves := @settlesBoth_combine ctx w₀ w src ⟨io₁, io₂⟩ fuel w₂ (each ret₁ ret₂)
      apply hhalves
      rintro (_ | _)
      · rw [hsame₂ .sl2sr (by decide)]
        exact hs₁
      · exact hs₂
    · exact hs₂.elim
  · exact hs₁.elim

theorem wp_await_ends (hl : ∀ d, Launch (ctx d) (w₀ d) (src d))
    (h : ∀ d, Hale (ctx d) (w₀ d) (src d) (io.half d) (w d).1) :
    (io.await fuel n).wp (clocked cap) (fun _ _ => True) (EndsBoth ctx w₀ src fuel n w) w := by
  induction n generalizing io w with
  | zero => exact .inr (by omega)
  | succ n ih =>
    refine Prog.wp_bind.mpr (Prog.wp_mono (wp_pollExecute_settles hl h) ?_)
    rintro ((_ | ⟨io₁, _ | res⟩) | why) w₁ hs
    · exact .inl hs
    · obtain ⟨hhale, hclock⟩ := hs
      refine Prog.wp_mono (ih hhale) ?_
      rintro ((_ | ⟨io₂, res⟩) | why) w₂ hends
      · refine hends.imp_right fun hspent => ?_
        omega
      · exact hends
      · exact hends
    · exact hs
    · exact hs.elim

/-- The two clocks together show every delay. -/
theorem tally_costOf_add : tally (Event.costOf delay .sl2sr) es +
    tally (Event.costOf delay .sr2sl) es = tally bidiDelay es := by
  induction es with
  | nil => rfl
  | cons e es ih =>
    have hone : Event.costOf delay .sl2sr e + Event.costOf delay .sr2sl e = bidiDelay e := by
      cases hd : e.call.1 <;> simp [Event.costOf, bidiDelay, hd]
    simp only [tally_cons]
    omega

/-- While nothing fails in either direction, `execute` does not panic, and with fuel for every byte
and every delay it reports that all has arrived at both ends. -/
theorem bidi_execute_completes (hl : ∀ d, Launch (ctx d) (w₀ d) (src d))
    (h : ((SpliceBidiIo.ofCtx ctx).execute fuel).Run es out)
    (ha : (Env.shared fun d => obliging (cap d)).Accepts w₀ es w')
    (hfuel : ∀ d, 2 * due (ctx d) (src d) + tally bidiDelay es + 3 < fuel) :
    out = .val (some ⟨due (ctx .sl2sr) (src .sl2sr), due (ctx .sr2sl) (src .sr2sl), none⟩) ∧
      ∀ d, Arrived (ctx d) (w₀ d) (src d) (w' d) := by
  have hclocked : (clocked cap).Accepts (fun d => (w₀ d, 0)) es
      fun d => (w' d, 0 + tally (Event.costOf delay d) es) := Env.accepts_shared_timed ha
  have hhale (d : Side) : Hale (ctx d) (w₀ d) (src d) ((SpliceBidiIo.ofCtx ctx).half d) (w₀ d) := by
    cases d <;> exact (hl _).hale
  have hexecute : ((SpliceBidiIo.ofCtx ctx).execute fuel).wp (clocked cap) (fun _ _ => True)
      (fun out w => (∀ d, 2 * due (ctx d) (src d) + (w .sl2sr).2 + (w .sr2sl).2 + 3 < fuel) →
        out = .val (some ⟨due (ctx .sl2sr) (src .sl2sr), due (ctx .sr2sl) (src .sr2sl), none⟩) ∧
          ∀ d, Arrived (ctx d) (w₀ d) (src d) (w d).1) (fun d => (w₀ d, 0)) := by
    refine Prog.wp_bind.mpr (Prog.wp_mono (wp_await_ends hl hhale) ?_)
    rintro ((_ | ⟨io, res⟩) | why) w hs
    · intro hlt
      have hsl := hlt .sl2sr
      have hsr := hlt .sr2sl
      rcases hs with ⟨_ | _, hspent⟩ | hspent <;> omega
    · intro _
      obtain ⟨rfl, harrived⟩ := hs
      refine ⟨?_, fun d => (harrived d).2⟩
      have hsl : io.ioSl2sr.splicer.bytesWritten = _ := (harrived .sl2sr).1
      have hsr : io.ioSr2sl.splicer.bytesWritten = _ := (harrived .sr2sl).1
      rw [SpliceBidiIo.report, hsl, hsr]
    · exact hs.elim
  refine Prog.wp_post hexecute h hclocked fun d => ?_
  have htotal := @tally_costOf_add es
  have hlt := hfuel d
  simp only [Nat.zero_add]
  omega

/-- Nothing but the end of the source. -/
def noByte : List (Event calls) :=
  (fillTurn none isizeMax ⟨.ok 0, none⟩).events ++
  [⟨.pollWriteReady, .ready (.ok ())⟩, ⟨.tryIoWrite, .callInner⟩, ⟨.pollShutdown, .ready (.ok ())⟩]

theorem noByte_accepted :
    (obliging 1).Accepts (.streams []) noByte ⟨.stream [], [], .stream []⟩ := by
  refine obliging_of ?_ ?_
  · exact ⟨_, rfl, _, rfl, _, ⟨_, rfl, by decide, by decide, by decide, by decide, rfl, rfl⟩,
      _, rfl, _, rfl, _, rfl, rfl⟩
  · simp [noByte, fillTurn, Unfailing, faultOf, Productive]

theorem bidi_execute_completes_oneByte :
    ((SpliceBidiIo.ofCtx fun _ => .new .granted).execute 6).Run
      (oneByte.map (Event.on .sl2sr) ++ noByte.map (Event.on .sr2sl))
      (.val (some ⟨1, 0, none⟩)) ∧
    Arrived (.new .granted) (.streams [9]) [9] ⟨.stream [], [], .stream [9]⟩ := by
  have hrun : ((SpliceBidiIo.ofCtx fun _ => .new .granted).execute 6).Run
      (oneByte.map (Event.on .sl2sr) ++ noByte.map (Event.on .sr2sl))
      (.val (some ⟨1, 0, none⟩)) :=
    .ask (.ask (.ask (.ask (.ask (.ask (.ask (.ask (.ask (.ask (.ask (.ask
      (.ask (.ask (.ask (.ask (.ask (.ask (.ret _))))))))))))))))))
  have ha : (Env.shared fun _ => obliging 1).Accepts
      (each (.streams [9]) (.streams []))
      (oneByte.map (Event.on .sl2sr) ++ noByte.map (Event.on .sr2sl))
      (each ⟨.stream [], [], .stream [9]⟩ ⟨.stream [], [], .stream []⟩) := by
    refine Env.accepts_append.mpr ⟨each ⟨.stream [], [], .stream [9]⟩ (.streams []),
      Env.accepts_on.mpr ⟨oneByte_accepted, ?_⟩, Env.accepts_on.mpr ⟨noByte_accepted, ?_⟩⟩
    · rintro (_ | _) hd
      · exact absurd rfl hd
      · rfl
    · rintro (_ | _) hd
      · rfl
      · exact absurd rfl hd
  have hl : ∀ d, Launch (.new .granted) (each (.streams [9]) (.streams []) d) (each [9] [] d) := by
    rintro (_ | _) <;> exact launch_streams (.new Pipe.new_granting) rfl _
  have hfuel : ∀ d : Side, 2 * due (.new .granted) (each [9] [] d) +
      tally bidiDelay (oneByte.map (Event.on .sl2sr) ++ noByte.map (Event.on .sr2sl)) + 3 < 6 := by
    rintro (_ | _) <;> decide
  exact ⟨hrun, (bidi_execute_completes hl hrun ha hfuel).2 .sl2sr⟩

end TwoDirections

end Splicer
