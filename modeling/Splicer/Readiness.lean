import Splicer.Invariant

/-! Edge-triggered readiness of the source, and the wakeups that a full pipe loses. -/
namespace Splicer

open Interaction

/-! ### The source's side -/

/-- The source's socket buffer, its two readiness flags, and how much the pipe holds. -/
structure Reactor where
  buffered : ℕ
  eof : Bool
  readable : Bool
  readClosed : Bool
  piped : ℕ
  deriving DecidableEq, Repr

/-- `n` bytes, and then EOF if `last`, enter the socket buffer; each raises its flags. -/
def Reactor.arrive (w : Reactor) (n : ℕ) (last : Bool) : Reactor :=
  { w with
    buffered := w.buffered + n
    eof := w.eof || last
    readable := w.readable || decide (0 < n) || last
    readClosed := w.readClosed || last }

/-- How a call is answered; `poll_read_ready` looks at the flags, and a `WouldBlock` of
`splice_in` clears the first of them, whatever its cause. -/
def Reactor.answers (cap : ℕ) (w : Reactor) (e : Event calls) (w' : Reactor) : Prop :=
  match e with
  | ⟨.pollReadReady, a⟩ =>
    (a = .pending ↔ w.readable = false ∧ w.readClosed = false) ∧ w' = w
  | ⟨.tryIoRead, a⟩ => a = .callInner ∧ w' = w
  | ⟨.spliceIn _ _, ⟨.error e, _⟩⟩ =>
    e.kind = .wouldBlock ∧ (cap ≤ w.piped ∨ w.buffered = 0 ∧ w.eof = false) ∧
      w' = { w with readable := false }
  | ⟨.spliceIn _ maxLen, ⟨.ok n, _⟩⟩ =>
    w.piped < cap ∧
      (0 < n ∧ n ≤ maxLen ∧ n ≤ w.buffered ∧ w.piped + n ≤ cap ∨
        n = 0 ∧ w.buffered = 0 ∧ w.eof = true) ∧
      w' = { w with buffered := w.buffered - n, piped := w.piped + n }
  | ⟨.spliceOut _ maxLen, ⟨.ok n, _⟩⟩ =>
    n ≤ maxLen ∧ n ≤ w.piped ∧ w' = { w with piped := w.piped - n }
  | _ => w' = w

/-- Before each call anything may arrive, as long as EOF has not; `ok` restricts the calls. -/
def tokio (cap : ℕ) (ok : Reactor → Event calls → Prop) : Env calls Reactor := fun w e w' =>
  ∃ n last, (w.eof = true → n = 0 ∧ last = false) ∧ ok (w.arrive n last) e ∧
    (w.arrive n last).answers cap e w'

/-- No restriction. -/
def Free (_ : Reactor) (_ : Event calls) : Prop := True

/-- No `splice_in` into a full pipe while unread bytes wait and EOF has not arrived. -/
def Roomy (cap : ℕ) (w : Reactor) : Event calls → Prop
  | ⟨.spliceIn _ _, _⟩ => ¬ (cap ≤ w.piped ∧ 0 < w.buffered ∧ w.eof = false)
  | _ => True

/-- Whatever waits in the socket buffer is announced by a flag. -/
structure Signalled (w : Reactor) : Prop where
  bytes : 0 < w.buffered → w.readable = true ∨ w.eof = true
  ended : w.readClosed = w.eof

section Socket

variable {cap : ℕ} {ok : Reactor → Event calls → Prop} {w w' : Reactor} {e : Event calls}
  {es : List (Event calls)}

theorem Reactor.arrive_nothing (w : Reactor) : w.arrive 0 false = w := by
  simp [Reactor.arrive]

theorem Signalled.arrive (h : Signalled w) (n : ℕ) (last : Bool) : Signalled (w.arrive n last) := by
  constructor
  · intro hbytes
    have hbytes : 0 < w.buffered + n := hbytes
    by_cases hn : 0 < n
    · left
      simp [Reactor.arrive, hn]
    · rcases h.bytes (by omega) with hr | heof
      · left
        simp [Reactor.arrive, hr]
      · right
        simp [Reactor.arrive, heof]
  · simp [Reactor.arrive, h.ended]

/-- The second flag is up exactly when EOF has arrived, whatever is called. -/
theorem ended_answers (h : w.readClosed = w.eof) (ha : w.answers cap e w') :
    w'.readClosed = w'.eof := by
  rcases e with ⟨_ | _ | ⟨off, maxLen⟩ | _ | _ | ⟨off, maxLen⟩ | _, a⟩
  case spliceIn =>
    rcases a with ⟨err | n, off'⟩
    · obtain ⟨-, -, rfl⟩ := ha
      exact h
    · obtain ⟨-, -, rfl⟩ := ha
      exact h
  case spliceOut =>
    rcases a with ⟨err | n, off'⟩
    · cases ha
      exact h
    · obtain ⟨-, -, rfl⟩ := ha
      exact h
  case pollReadReady =>
    obtain ⟨-, rfl⟩ := ha
    exact h
  case tryIoRead =>
    obtain ⟨-, rfl⟩ := ha
    exact h
  all_goals
    cases ha
    exact h

theorem ended_accepts (h : w.readClosed = w.eof) (ha : (tokio cap ok).Accepts w es w') :
    w'.readClosed = w'.eof := by
  induction es generalizing w with
  | nil =>
    cases ha
    exact h
  | cons e es ih =>
    obtain ⟨w₁, ⟨n, last, -, -, he⟩, hes⟩ := ha
    apply ih (ended_answers _ he) hes
    simp [Reactor.arrive, h]

/-- The first flag is only cleared when nothing waits, or when the second flag is up anyway. -/
theorem Signalled.answers (h : Signalled w) (ha : w.answers cap e w') (hr : Roomy cap w e) :
    Signalled w' := by
  refine ⟨?_, ended_answers h.ended ha⟩
  rcases e with ⟨_ | _ | ⟨off, maxLen⟩ | _ | _ | ⟨off, maxLen⟩ | _, a⟩
  case spliceIn =>
    rcases a with ⟨err | n, off'⟩
    · obtain ⟨-, hcause, rfl⟩ := ha
      intro hbytes
      right
      by_contra heof
      have heof : w.eof = false := by simpa using heof
      rcases hcause with hfull | ⟨hempty, -⟩
      · exact hr ⟨hfull, hbytes, heof⟩
      · exact absurd hempty (Nat.ne_of_gt hbytes)
    · obtain ⟨-, -, rfl⟩ := ha
      intro hbytes
      have hbytes : 0 < w.buffered - n := hbytes
      exact h.bytes (by omega)
  case spliceOut =>
    rcases a with ⟨err | n, off'⟩
    · cases ha
      exact h.bytes
    · obtain ⟨-, -, rfl⟩ := ha
      exact h.bytes
  case pollReadReady =>
    obtain ⟨-, rfl⟩ := ha
    exact h.bytes
  case tryIoRead =>
    obtain ⟨-, rfl⟩ := ha
    exact h.bytes
  all_goals
    cases ha
    exact h.bytes

theorem Signalled.step (h : Signalled w) (ha : tokio cap (Roomy cap) w e w') : Signalled w' := by
  obtain ⟨n, last, -, hroom, ha⟩ := ha
  exact (h.arrive n last).answers ha hroom

theorem Signalled.accepts (h : Signalled w) (ha : (tokio cap (Roomy cap)).Accepts w es w') :
    Signalled w' := by
  induction es generalizing w with
  | nil =>
    cases ha
    exact h
  | cons e es ih =>
    obtain ⟨w₁, he, hes⟩ := ha
    exact ih (h.step he) hes

/-- A reader that is not ready has nothing to read. -/
theorem Signalled.pending (h : Signalled w)
    (ha : tokio cap (Roomy cap) w ⟨.pollReadReady, .pending⟩ w') :
    w'.buffered = 0 ∧ w'.eof = false := by
  obtain ⟨n, last, -, -, hflags, rfl⟩ := ha
  obtain ⟨hr, hc⟩ := hflags.mp rfl
  have hs := h.arrive n last
  have heof : (w.arrive n last).eof = false := hs.ended.symm.trans hc
  refine ⟨?_, heof⟩
  by_contra hbytes
  rcases hs.bytes (Nat.pos_of_ne_zero hbytes) with hup | hup
  · cases hr.symm.trans hup
  · cases heof.symm.trans hup

theorem tokio_bounded (ha : tokio cap ok w e w') : Bounded e := by
  obtain ⟨k, last, -, -, ha⟩ := ha
  rcases e with ⟨_ | _ | ⟨off, maxLen⟩ | _ | _ | ⟨off, maxLen⟩ | _, a⟩
  case spliceIn =>
    rcases a with ⟨err | n, off'⟩
    · trivial
    · obtain ⟨-, hn, -⟩ := ha
      change n ≤ maxLen
      omega
  case spliceOut =>
    rcases a with ⟨err | n, off'⟩
    · trivial
    · exact ha.1
  all_goals trivial

end Socket

/-! ### The machine's side -/

section Machine

variable {cap : ℕ} {ok : Reactor → Event calls → Prop} {w w₀ w' : Reactor}
  {ctx ctx' : SpliceCtx} {es : List (Event calls)} {res : IoResult SpliceOutcome}
  {io io' : SpliceIo} {t : Turn calls (IoResult Unit)} {ts : List (Turn calls (IoResult Unit))}
  {C : SpliceIo → Reactor → Turn calls (IoResult Unit) → Prop}

theorem piped_poll {s : TransferState} {a : Poll (IoResult Unit)}
    (ha : tokio cap ok w (checked s a) w') : w'.piped = w.piped := by
  obtain ⟨n, last, -, -, ha⟩ := ha
  cases s with
  | fill =>
    obtain ⟨-, rfl⟩ := ha
    rfl
  | drain =>
    cases ha
    rfl
  | finished error =>
    cases ha
    rfl

theorem piped_tryIoRead {a : TryIo} (ha : tokio cap ok w ⟨.tryIoRead, a⟩ w') :
    w'.piped = w.piped := by
  obtain ⟨n, last, -, -, -, rfl⟩ := ha
  rfl

theorem piped_tryIoWrite {a : TryIo} (ha : tokio cap ok w ⟨.tryIoWrite, a⟩ w') :
    w'.piped = w.piped := by
  obtain ⟨n, last, -, -, rfl⟩ := ha
  rfl

theorem FillAttempt.piped (h : FillAttempt ctx es res ctx')
    (ha : (tokio cap ok).Accepts w es w') (hle : ctx.bytesWritten ≤ ctx.bytesRead)
    (hp : w.piped = ctx.bytesRead - ctx.bytesWritten) :
    w'.piped = ctx'.bytesRead - ctx'.bytesWritten := by
  cases h with
  | gate e =>
    obtain ⟨w₁, h₁, rfl⟩ := ha
    exact (piped_tryIoRead h₁).trans hp
  | target heq =>
    obtain ⟨w₁, h₁, rfl⟩ := ha
    exact (piped_tryIoRead h₁).trans hp
  | failed =>
    obtain ⟨w₁, h₁, w₂, ⟨n, last, -, -, -, -, rfl⟩, rfl⟩ := ha
    exact (piped_tryIoRead h₁).trans hp
  | eof =>
    obtain ⟨w₁, h₁, w₂, ⟨n, last, -, -, -, -, rfl⟩, rfl⟩ := ha
    exact (piped_tryIoRead h₁).trans hp
  | @moved k off hlt hopen hk hmax =>
    obtain ⟨w₁, h₁, w₂, ⟨n, last, -, -, -, -, rfl⟩, rfl⟩ := ha
    have h₁ := (piped_tryIoRead h₁).trans hp
    have hadd : w₁.piped + k = ctx.bytesRead + k - ctx.bytesWritten := by omega
    exact hadd

theorem DrainAttempt.piped (h : DrainAttempt ctx es res ctx')
    (ha : (tokio cap ok).Accepts w es w')
    (hp : w.piped = ctx.bytesRead - ctx.bytesWritten) :
    w'.piped = ctx'.bytesRead - ctx'.bytesWritten := by
  cases h with
  | gate e =>
    obtain ⟨w₁, h₁, rfl⟩ := ha
    exact (piped_tryIoWrite h₁).trans hp
  | closed =>
    obtain ⟨w₁, h₁, rfl⟩ := ha
    exact (piped_tryIoWrite h₁).trans hp
  | empty =>
    obtain ⟨w₁, h₁, rfl⟩ := ha
    exact (piped_tryIoWrite h₁).trans hp
  | failed =>
    obtain ⟨w₁, h₁, w₂, ⟨n, last, -, -, rfl⟩, rfl⟩ := ha
    exact (piped_tryIoWrite h₁).trans hp
  | stuck =>
    obtain ⟨w₁, h₁, w₂, ⟨n, last, -, -, -, -, rfl⟩, rfl⟩ := ha
    exact (piped_tryIoWrite h₁).trans hp
  | @moved k off hlt hopen hk hmax =>
    obtain ⟨w₁, h₁, w₂, ⟨n, last, -, -, -, -, rfl⟩, rfl⟩ := ha
    have h₁ := (piped_tryIoWrite h₁).trans hp
    have hsub : w₁.piped - k = ctx.bytesRead - (ctx.bytesWritten + k) := by omega
    exact hsub

/-- The counters know what the pipe holds. -/
structure Tracked (io : SpliceIo) (w : Reactor) : Prop where
  counted : Counted io
  piped : w.piped = io.splicer.bytesRead - io.splicer.bytesWritten

theorem Tracked.step (h : Tracked io w) (hi : Iteration io t io')
    (ha : (tokio cap ok).Accepts w t.events w') : Tracked io' w' := by
  refine ⟨h.counted.step hi (ha.forall fun _ _ _ => tokio_bounded), ?_⟩
  cases hi with
  | pending =>
    obtain ⟨w₁, h₁, rfl⟩ := ha
    exact (piped_poll h₁).trans h.piped
  | failed e =>
    obtain ⟨w₁, h₁, rfl⟩ := ha
    exact (piped_poll h₁).trans h.piped
  | clean hs =>
    obtain ⟨w₁, h₁, rfl⟩ := ha
    exact (piped_poll (s := .finished none) h₁).trans h.piped
  | fault hs =>
    obtain ⟨w₁, h₁, rfl⟩ := ha
    exact (piped_poll (s := .finished none) h₁).trans h.piped
  | fill hs hf hn =>
    obtain ⟨w₁, h₁, ha⟩ := ha
    exact hf.piped ha h.counted.written_le ((piped_poll (s := .fill) h₁).trans h.piped)
  | drain hs hd =>
    obtain ⟨w₁, h₁, ha⟩ := ha
    exact hd.piped ha ((piped_poll (s := .drain) h₁).trans h.piped)

theorem run_tracked (hctx : Constructed ctx) (hp : w₀.piped = 0)
    (h : Runs SpliceIo.loopBody (tokio cap ok) C (.ofCtx ctx) w₀ ts io w) : Tracked io w := by
  have hf := hctx.fresh
  have init : Tracked (.ofCtx ctx) w₀ := by
    refine ⟨hf.counted, ?_⟩
    simp [SpliceIo.ofCtx, hf.read, hp]
  apply transfer_invariant Tracked h init
  intro io w t io' w' hI hi ha _
  exact hI.step hi ha

/-! ### Lost wakeups -/

/-- A call that is not `Roomy`. -/
def crowded (cap : ℕ) : Env calls Reactor := tokio cap fun w e => ¬ Roomy cap w e

/-- The flag goes down although unread bytes wait. -/
theorem crowded_cases {e : Event calls} (ha : crowded cap w e w') :
    ∃ off maxLen err off', e = ⟨.spliceIn off maxLen, ⟨.error err, off'⟩⟩ ∧
      err.kind = .wouldBlock ∧ 0 < w'.buffered ∧ w'.eof = false ∧ w'.readable = false := by
  obtain ⟨n, last, -, hnot, ha⟩ := ha
  rcases e with ⟨_ | _ | ⟨off, maxLen⟩ | _ | _ | ⟨off, maxLen⟩ | _, a⟩
  case spliceIn =>
    obtain ⟨hfull, hbytes, heof⟩ := not_not.mp hnot
    rcases a with ⟨err | k, off'⟩
    · obtain ⟨hk, -, rfl⟩ := ha
      exact ⟨off, maxLen, err, off', rfl, hk, hbytes, heof, rfl⟩
    · obtain ⟨hroom, -⟩ := ha
      omega
  all_goals exact absurd trivial hnot

/-- An iteration whose last call is a failed `splice_in` is a fill iteration. -/
theorem Iteration.of_spliceIn_error {pre : List (Event calls)} {off off' : Option ℕ} {maxLen : ℕ}
    {err : IoError} (hi : Iteration io t io')
    (he : t.events = pre ++ [⟨.spliceIn off maxLen, ⟨.error err, off'⟩⟩])
    (hk : err.kind = .wouldBlock) :
    io.state = .fill ∧ io.splicer.isSourceDone = false ∧
      io' = ⟨io.splicer.storeIn off', if io.splicer.pipeHasData then .drain else .fill⟩ := by
  have hlast := congrArg List.getLast? he
  rw [List.getLast?_append] at hlast
  cases hi with
  | pending | failed =>
    cases hs : io.state <;> simp [hs, checked] at hlast
  | clean | fault => simp at hlast
  | drain _ hd => cases hd <;> simp at hlast
  | fill hs hf hn =>
    cases hf with
    | gate | target | eof | moved => simp at hlast
    | @failed err' off₁ hlt hopen =>
      simp only [List.getLast?_singleton, Option.some_or, List.getLast?_cons_cons,
        Option.some.injEq] at hlast
      cases hlast
      have hdata : (io.splicer.storeIn off').pipeHasData = io.splicer.pipeHasData := rfl
      rw [hdata] at hn
      refine ⟨hs, hopen, ?_⟩
      cases afterFill_error hn with
      | drain _ hd => rw [hd, if_pos rfl]
      | fill _ hd => rw [hd, if_neg Bool.false_ne_true]
      | faulted hne => exact absurd hk hne

theorem tokio_quiet {e : Event calls} (hok : ok w e) (ha : w.answers cap e w') :
    tokio cap ok w e w' := by
  refine ⟨0, false, fun _ => ⟨rfl, rfl⟩, ?_⟩
  rw [Reactor.arrive_nothing]
  exact ⟨hok, ha⟩

/-- From a drain with an open source the writer can empty the pipe, and the machine then turns
to the reader. -/
theorem drain_to_fill (cap : ℕ) (hcount : Counted ⟨ctx, .drain⟩) (hopen : ctx.isSourceDone = false)
    (hp : w.piped = ctx.bytesRead - ctx.bytesWritten)
    (hdata : ctx.bytesWritten < ctx.bytesRead) :
    ∃ us ctx' piped, Runs SpliceIo.loopBody (tokio cap Free) Unready ⟨ctx, .drain⟩ w us
      ⟨ctx', .fill⟩ { w with piped } := by
  have hdrain : ctx.pipe.isDrainDone = false := by
    cases hd : ctx.pipe.isDrainDone with
    | false => rfl
    | true => cases hcount.drained hd
  have hread := hcount.read_le
  have hmax := hcount.target_le
  simp only at hread hmax
  let n := ctx.bytesRead - ctx.bytesWritten
  have hn : 0 < n := Nat.sub_pos_of_lt hdata
  have hsum : ctx.bytesWritten + n = ctx.bytesRead := Nat.add_sub_of_le (Nat.le_of_lt hdata)
  have hsize : ctx.bytesWritten + n ≤ usizeMax := by
    rw [hsum]
    exact Nat.le_trans hread hmax
  let ctx₁ : SpliceCtx := { ctx.storeOut none with bytesWritten := ctx.bytesWritten + n }
  have h₁ : Iteration ⟨ctx, .drain⟩ (drainTurn ctx.offset.offOut n ⟨.ok n, none⟩) ⟨ctx₁, .drain⟩ :=
    .drain rfl (.moved hdata hdrain hn hsize)
  have h₂ : Iteration ⟨ctx₁, .drain⟩
      ⟨[⟨.pollWriteReady, .ready (.ok ())⟩, ⟨.tryIoWrite, .callInner⟩], .again⟩ ⟨ctx₁, .fill⟩ :=
    .drain rfl (.empty hsum.symm hopen)
  have a₁ : (tokio cap Free).Accepts w (drainTurn ctx.offset.offOut n ⟨.ok n, none⟩).events
      { w with piped := w.piped - n } :=
    ⟨w, tokio_quiet trivial rfl, w, tokio_quiet trivial rfl, _,
      tokio_quiet trivial ⟨Nat.le_refl n, Nat.le_of_eq hp.symm, rfl⟩, rfl⟩
  have a₂ : (tokio cap Free).Accepts { w with piped := w.piped - n }
      [⟨.pollWriteReady, .ready (.ok ())⟩, ⟨.tryIoWrite, .callInner⟩]
      { w with piped := w.piped - n } :=
    ⟨_, tokio_quiet trivial rfl, _, tokio_quiet trivial rfl, rfl⟩
  exact ⟨_, ctx₁, _, .step (step_iff.mpr h₁) a₁ rfl (.step (step_iff.mpr h₂) a₂ rfl (.refl _ _))⟩

/-- After a try on a full pipe, the drain leads back to a reader that nothing will wake. -/
theorem crowded_loses_wakeup (hctx : Constructed ctx) (hw : Signalled w₀) (hp : w₀.piped = 0)
    {pre : List (Event calls)} {e : Event calls} {u : Reactor}
    (h : Runs SpliceIo.loopBody (tokio cap Free) Always (.ofCtx ctx) w₀ ts io w)
    (hs : Machine.Step SpliceIo.loopBody io ⟨pre ++ [e], .again⟩ io')
    (hpre : (tokio cap Free).Accepts w pre u) (hcrowd : crowded cap u e w') :
    ∃ us io'' w'', Runs SpliceIo.loopBody (tokio cap Free) Unready io' w' us io'' w'' ∧
      Machine.Step SpliceIo.loopBody io'' ⟨[⟨.pollReadReady, .pending⟩], .done .pending⟩ io'' ∧
      tokio cap Free w'' ⟨.pollReadReady, .pending⟩ w'' ∧ 0 < w''.buffered := by
  obtain ⟨off, maxLen, err, off', rfl, hk, hbytes, heof, hdown⟩ := crowded_cases hcrowd
  obtain ⟨hfill, hopen, rfl⟩ := (step_iff.mp hs).of_spliceIn_error rfl hk
  have ha : (tokio cap Free).Accepts w
      (pre ++ [⟨.spliceIn off maxLen, ⟨.error err, off'⟩⟩]) w' := by
    obtain ⟨n, last, hlast, -, he⟩ := hcrowd
    exact Env.accepts_append.mpr ⟨u, hpre, w', ⟨n, last, hlast, trivial, he⟩, rfl⟩
  have hended : w'.readClosed = false := by
    have hw₀ : w.readClosed = w.eof := by
      apply h.invariant (fun _ w => w.readClosed = w.eof) hw.ended
      intro io w t io' w' hI _ ha _
      exact ended_accepts hI ha
    exact (ended_accepts hw₀ ha).trans heof
  have htracked := (run_tracked hctx hp h).step (step_iff.mp hs) ha
  have hpending (piped : ℕ) : tokio cap Free { w' with piped } ⟨.pollReadReady, .pending⟩
      { w' with piped } :=
    tokio_quiet trivial ⟨⟨fun _ => ⟨hdown, hended⟩, fun _ => rfl⟩, rfl⟩
  cases hd : io.splicer.pipeHasData with
  | false =>
    refine ⟨[], _, w', .refl _ _, ?_, hpending _, hbytes⟩
    exact step_iff.mpr .pending
  | true =>
    have hdata := (SpliceCtx.pipeHasData_iff _).mp hd
    simp only [hd, if_true] at htracked ⊢
    obtain ⟨us, ctx', piped, hr⟩ :=
      drain_to_fill cap htracked.counted hopen htracked.piped hdata
    exact ⟨us, _, _, hr, step_iff.mpr .pending, hpending piped, hbytes⟩

/-- No bytes wait unread when the reader is awaited, as long as no `splice_in` is tried on a
full pipe with unread bytes before EOF; and after one such try the machine can be led to await
the reader over unread bytes. -/
theorem no_lost_wakeup (hctx : Constructed ctx) (cap : ℕ) (hw : Signalled w₀)
    (hp : w₀.piped = 0) :
    (∀ ts io w, Runs SpliceIo.loopBody (tokio cap (Roomy cap)) Always (.ofCtx ctx) w₀ ts io w →
      w.piped = io.splicer.bytesRead - io.splicer.bytesWritten ∧
      ∀ t io' w', Machine.Step SpliceIo.loopBody io t io' →
        (tokio cap (Roomy cap)).Accepts w t.events w' → t.flow = .done .pending →
        t.events = [⟨.pollReadReady, .pending⟩] → w'.buffered = 0 ∧ w'.eof = false) ∧
    ∀ ts io w pre e u io' w', Runs SpliceIo.loopBody (tokio cap Free) Always (.ofCtx ctx) w₀ ts
        io w →
      Machine.Step SpliceIo.loopBody io ⟨pre ++ [e], .again⟩ io' →
      (tokio cap Free).Accepts w pre u → crowded cap u e w' →
      ∃ us io'' w'', Runs SpliceIo.loopBody (tokio cap Free) Unready io' w' us io'' w'' ∧
        Machine.Step SpliceIo.loopBody io'' ⟨[⟨.pollReadReady, .pending⟩], .done .pending⟩ io'' ∧
        tokio cap Free w'' ⟨.pollReadReady, .pending⟩ w'' ∧ 0 < w''.buffered := by
  constructor
  · intro ts io w h
    have hsig : Signalled w := by
      apply h.invariant (fun _ w => Signalled w) hw
      intro io w t io' w' hI _ ha _
      exact hI.accepts ha
    refine ⟨(run_tracked hctx hp h).piped, ?_⟩
    intro t io' w' hs ha _ he
    rw [he] at ha
    obtain ⟨w₁, h₁, rfl⟩ := ha
    exact hsig.pending h₁
  · intro ts io w pre e u io' w' h hs hpre hcrowd
    exact crowded_loses_wakeup hctx hw hp h hs hpre hcrowd

end Machine

/-! ### Two arrivals -/

/-- A socket on which nothing has happened yet. -/
def Reactor.idle : Reactor := ⟨0, false, false, false, 0⟩

theorem signalled_idle : Signalled .idle := ⟨by simp [Reactor.idle], rfl⟩

/-- Two bytes arrive and fit: after they are moved, the reader is awaited over an empty buffer. -/
theorem no_lost_wakeup_fits :
    ∃ (io : SpliceIo) (w : Reactor),
      Machine.Step SpliceIo.loopBody io ⟨[⟨.pollReadReady, .pending⟩], .done .pending⟩ io ∧
      w.readable = false ∧ w.buffered = 0 ∧ w.eof = false := by
  let read : SpliceCtx := { SpliceCtx.new .granted with bytesRead := 2 }
  let done : SpliceCtx := { read with bytesWritten := 2 }
  have h₁ : Iteration (.ofCtx (.new .granted)) (fillTurn none isizeMax ⟨.ok 2, none⟩)
      ⟨read, .fill⟩ := granted_fills (by decide) (by decide)
  have h₂ : Iteration ⟨read, .fill⟩ (fillTurn none (isizeMax - 2) ⟨.error .wouldBlock, none⟩)
      ⟨read, .drain⟩ := granted_blocks (by decide) (by decide)
  have h₃ : Iteration ⟨read, .drain⟩ (drainTurn none 2 ⟨.ok 2, none⟩) ⟨done, .drain⟩ :=
    .drain rfl (.moved (by decide) rfl (by decide) (by decide))
  have h₄ : Iteration ⟨done, .drain⟩
      ⟨[⟨.pollWriteReady, .ready (.ok ())⟩, ⟨.tryIoWrite, .callInner⟩], .again⟩ ⟨done, .fill⟩ :=
    .drain rfl (.empty rfl rfl)
  have hs : Machine.Step SpliceIo.loopBody ⟨done, .fill⟩
      ⟨[⟨.pollReadReady, .pending⟩], .done .pending⟩ ⟨done, .fill⟩ := step_iff.mpr .pending
  have a₁ : (tokio 65536 (Roomy 65536)).Accepts .idle (fillTurn none isizeMax ⟨.ok 2, none⟩).events
      ⟨0, false, true, false, 2⟩ :=
    ⟨⟨2, false, true, false, 0⟩, ⟨2, false, by decide, trivial, by decide, rfl⟩, _,
      tokio_quiet trivial ⟨rfl, rfl⟩, _, tokio_quiet (by simp [Roomy])
        ⟨by decide, .inl (by decide), rfl⟩, rfl⟩
  have a₂ : (tokio 65536 (Roomy 65536)).Accepts ⟨0, false, true, false, 2⟩
      (fillTurn none (isizeMax - 2) ⟨.error .wouldBlock, none⟩).events
      ⟨0, false, false, false, 2⟩ :=
    ⟨_, tokio_quiet trivial ⟨by decide, rfl⟩, _, tokio_quiet trivial ⟨rfl, rfl⟩, _,
      tokio_quiet (by simp [Roomy]) ⟨rfl, .inr ⟨rfl, rfl⟩, rfl⟩, rfl⟩
  have a₃ : (tokio 65536 (Roomy 65536)).Accepts ⟨0, false, false, false, 2⟩
      (drainTurn none 2 ⟨.ok 2, none⟩).events ⟨0, false, false, false, 0⟩ :=
    ⟨_, tokio_quiet trivial rfl, _, tokio_quiet trivial rfl, _,
      tokio_quiet trivial ⟨by decide, by decide, rfl⟩, rfl⟩
  have a₄ : (tokio 65536 (Roomy 65536)).Accepts ⟨0, false, false, false, 0⟩
      [⟨.pollWriteReady, .ready (.ok ())⟩, ⟨.tryIoWrite, .callInner⟩]
      ⟨0, false, false, false, 0⟩ :=
    ⟨_, tokio_quiet trivial rfl, _, tokio_quiet trivial rfl, rfl⟩
  have hpending : (tokio 65536 (Roomy 65536)).Accepts ⟨0, false, false, false, 0⟩
      [⟨.pollReadReady, .pending⟩] ⟨0, false, false, false, 0⟩ :=
    ⟨_, tokio_quiet trivial ⟨by decide, rfl⟩, rfl⟩
  obtain ⟨hbytes, heof⟩ := ((no_lost_wakeup (.new Pipe.new_granting) 65536 signalled_idle rfl).1
    _ _ _ (.step (step_iff.mpr h₁) a₁ trivial (.step (step_iff.mpr h₂) a₂ trivial
      (.step (step_iff.mpr h₃) a₃ trivial (.step (step_iff.mpr h₄) a₄ trivial (.refl _ _)))))).2
    _ _ _ hs hpending rfl rfl
  exact ⟨_, ⟨0, false, false, false, 0⟩, hs, rfl, hbytes, heof⟩

/-- A pipe that has been given 65536 bytes. -/
def Pipe.resized : Pipe := ⟨some ⟨3⟩, some ⟨4⟩, ⟨65536, by decide⟩⟩

theorem withPipeSize_resized :
    (SpliceCtx.new .granted).withPipeSize .granting 65536 = .ok (.new .resized) := rfl

/-- One byte more than the pipe holds arrives at once: the machine awaits the reader over it. -/
theorem full_pipe_loses_wakeup :
    (SpliceCtx.new .granted).withPipeSize .granting 65536 = .ok (.new .resized) ∧
      Constructed (.new .resized) ∧ ∃ ts io w,
        Runs SpliceIo.loopBody (tokio 65536 Free) Unready (.ofCtx (.new .resized)) .idle ts io w ∧
        Machine.Step SpliceIo.loopBody io ⟨[⟨.pollReadReady, .pending⟩], .done .pending⟩ io ∧
        tokio 65536 Free w ⟨.pollReadReady, .pending⟩ w ∧ w.buffered = 1 := by
  let read : SpliceCtx := { SpliceCtx.new .resized with bytesRead := 65536 }
  have h₁ : Iteration (.ofCtx (.new .resized)) (fillTurn none isizeMax ⟨.ok 65536, none⟩)
      ⟨read, .fill⟩ := new_fills rfl (by decide) (by decide)
  have h₂ : Iteration ⟨read, .fill⟩
      (fillTurn none (isizeMax - 65536) ⟨.error .wouldBlock, none⟩) ⟨read, .drain⟩ :=
    new_blocks rfl (by decide) (by decide)
  have a₁ : (tokio 65536 Free).Accepts .idle (fillTurn none isizeMax ⟨.ok 65536, none⟩).events
      ⟨1, false, true, false, 65536⟩ :=
    ⟨⟨65537, false, true, false, 0⟩, ⟨65537, false, by decide, trivial, by decide, rfl⟩, _,
      tokio_quiet trivial ⟨rfl, rfl⟩, _, tokio_quiet trivial ⟨by decide, .inl (by decide), rfl⟩,
      rfl⟩
  have a₂ : (tokio 65536 Free).Accepts ⟨1, false, true, false, 65536⟩
      (fillTurn none (isizeMax - 65536) ⟨.error .wouldBlock, none⟩).events
      ⟨1, false, false, false, 65536⟩ :=
    ⟨_, tokio_quiet trivial ⟨by decide, rfl⟩, _, tokio_quiet trivial ⟨rfl, rfl⟩, _,
      tokio_quiet trivial ⟨rfl, .inl (Nat.le_refl _), rfl⟩, rfl⟩
  have hcount : Counted ⟨read, .drain⟩ :=
    ⟨Nat.zero_le _, by decide, by decide, by intro hd; cases hd⟩
  obtain ⟨us, ctx', piped, hr⟩ := drain_to_fill 65536 hcount rfl
    (w := ⟨1, false, false, false, 65536⟩) rfl (by decide)
  exact ⟨withPipeSize_resized, .pipeSize (.new Pipe.new_granting) withPipeSize_resized, _, _, _,
    .step (step_iff.mpr h₁) a₁ rfl (.step (step_iff.mpr h₂) a₂ rfl hr), step_iff.mpr .pending,
    tokio_quiet trivial ⟨by simp, rfl⟩, rfl⟩

end Splicer
