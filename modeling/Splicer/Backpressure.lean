import Splicer.Invariant

/-! Edge-triggered readiness of the destination: a transfer that waits for its writer waits for
room. -/
namespace Splicer

open Interaction

/-! ### The destination's side -/

/-- The room in the destination's send buffer, its two readiness flags, and how much the pipe
holds. -/
structure Outlet where
  room : ℕ
  hungUp : Bool
  writable : Bool
  writeClosed : Bool
  piped : ℕ
  deriving DecidableEq, Repr

/-- The peer takes `n` bytes out of the send buffer, and then hangs up if `last`. The kernel
announces room only when there is as much as `mark`. -/
def Outlet.release (mark : ℕ) (w : Outlet) (n : ℕ) (last : Bool) : Outlet :=
  { w with
    room := w.room + n
    hungUp := w.hungUp || last
    writable := w.writable || decide (0 < n ∧ mark ≤ w.room + n) || last
    writeClosed := w.writeClosed || last }

/-- How a call is answered; `poll_write_ready` looks at the flags, and a `WouldBlock` of
`splice_out`, for want of room or of bytes, clears the first of them. -/
def Outlet.answers (w : Outlet) (e : Event calls) (w' : Outlet) : Prop :=
  match e with
  | ⟨.pollWriteReady, a⟩ =>
    (a = .pending ↔ w.writable = false ∧ w.writeClosed = false) ∧ w' = w
  | ⟨.tryIoWrite, a⟩ => a = .callInner ∧ w' = w
  | ⟨.spliceOut _ _, ⟨.error e, _⟩⟩ =>
    e.kind = .wouldBlock ∧ (w.room = 0 ∨ w.piped = 0) ∧ w' = { w with writable := false } ∨
      e.kind ≠ .wouldBlock ∧ w' = w
  | ⟨.spliceOut _ maxLen, ⟨.ok n, _⟩⟩ =>
    n ≤ maxLen ∧ n ≤ w.piped ∧ n ≤ w.room ∧
      w' = { w with room := w.room - n, piped := w.piped - n }
  | ⟨.spliceIn _ maxLen, ⟨.ok n, _⟩⟩ => n ≤ maxLen ∧ w' = { w with piped := w.piped + n }
  | _ => w' = w

/-- Before each call the peer may take bytes or hang up. -/
def outlet (mark : ℕ) : Env calls Outlet := fun w e w' =>
  ∃ n last, (w.release mark n last).answers e w'

/-- Either flag is up. -/
def Outlet.Up (w : Outlet) : Prop := w.writable = true ∨ w.writeClosed = true

/-- Room that is worth a wakeup is announced by a flag. -/
structure Announced (mark : ℕ) (w : Outlet) : Prop where
  room : mark ≤ w.room → w.Up
  ended : w.writeClosed = w.hungUp

section Socket

variable {mark n : ℕ} {last : Bool} {w w' : Outlet} {a : Poll (IoResult Unit)}

theorem Outlet.Up.release (h : w.Up) (n : ℕ) (last : Bool) : (w.release mark n last).Up := by
  rcases h with h | h
  · left
    simp [Outlet.release, h]
  · right
    simp [Outlet.release, h]

theorem Announced.release (h : Announced mark w) (n : ℕ) (last : Bool) :
    Announced mark (w.release mark n last) := by
  constructor
  · intro hroom
    by_cases hn : 0 < n
    · left
      have hmark : mark ≤ w.room + n := hroom
      simp [Outlet.release, hn, hmark]
    · have hmark : mark ≤ w.room + n := hroom
      exact (h.room (by omega)).release n last
  · simp [Outlet.release, h.ended]

/-- The calls that leave buffer and pipe alone. -/
def Idle : Event calls → Prop
  | ⟨.spliceIn _ _, _⟩ => False
  | ⟨.spliceOut _ _, _⟩ => False
  | _ => True

theorem outlet_idle {e : Event calls} (ha : outlet mark w e w') (he : Idle e) :
    ∃ n last, w' = w.release mark n last := by
  obtain ⟨n, last, ha⟩ := ha
  rcases e with ⟨_ | _ | _ | _ | _ | _ | _, a⟩
  case spliceIn => exact he.elim
  case spliceOut => exact he.elim
  case pollWriteReady | tryIoWrite => exact ⟨n, last, ha.2⟩
  all_goals exact ⟨n, last, ha⟩

theorem checked_idle (s : TransferState) : Idle (checked s a) := by
  cases s <;> trivial

theorem outlet_ready {r : IoResult Unit} (ha : outlet mark w ⟨.pollWriteReady, .ready r⟩ w') :
    w'.Up := by
  obtain ⟨n, last, hflags, rfl⟩ := ha
  by_contra hdown
  obtain ⟨hw, hc⟩ := not_or.mp hdown
  cases hflags.mpr ⟨Bool.not_eq_true _ ▸ hw, Bool.not_eq_true _ ▸ hc⟩

theorem outlet_bounded {e : Event calls} (ha : outlet mark w e w') : Bounded e := by
  obtain ⟨k, last, ha⟩ := ha
  rcases e with ⟨_ | _ | ⟨off, maxLen⟩ | _ | _ | ⟨off, maxLen⟩ | _, a⟩
  case spliceIn =>
    rcases a with ⟨err | n, off'⟩
    · trivial
    · exact ha.1
  case spliceOut =>
    rcases a with ⟨err | n, off'⟩
    · trivial
    · exact ha.1
  all_goals trivial

end Socket

/-! ### The machine's side -/

/-- The counters know what the pipe holds, the flags what the buffer has room for, and a drain
with nothing to write and a source still open finds a flag up. -/
structure Ferries (mark : ℕ) (io : SpliceIo) (w : Outlet) : Prop where
  counted : Counted io
  piped : w.piped = io.splicer.bytesRead - io.splicer.bytesWritten
  announced : Announced mark w
  flagged : io.state = .drain → io.splicer.isSourceDone = false →
    io.splicer.bytesRead = io.splicer.bytesWritten → w.Up

section Machine

variable {mark : ℕ} {w w₀ w' : Outlet} {ctx ctx' : SpliceCtx} {es : List (Event calls)}
  {res : IoResult SpliceOutcome} {io io' : SpliceIo} {t : Turn calls (IoResult Unit)}
  {ts : List (Turn calls (IoResult Unit))}
  {C : SpliceIo → Outlet → Turn calls (IoResult Unit) → Prop}

/-- A fill turns to the drain with data, or when the source is done. -/
theorem FillAttempt.to_drain (h : FillAttempt ctx es res ctx')
    (hn : afterFill ctx'.pipeHasData res = some .drain) :
    ctx'.isSourceDone = true ∨ ctx'.bytesWritten < ctx'.bytesRead := by
  have data {e : IoError} (hn : afterFill ctx'.pipeHasData (.error e) = some .drain) :
      ctx'.bytesWritten < ctx'.bytesRead := by
    cases afterFill_error hn with
    | drain _ hd => exact (SpliceCtx.pipeHasData_iff ctx').mp hd
  cases h with
  | gate e => exact .inr (data hn)
  | failed => exact .inr (data hn)
  | target | eof =>
    left
    simp
  | moved => cases hn

theorem FillAttempt.piped_announced (h : FillAttempt ctx es res ctx')
    (ha : (outlet mark).Accepts w es w') (hle : ctx.bytesWritten ≤ ctx.bytesRead)
    (hp : w.piped = ctx.bytesRead - ctx.bytesWritten) (hw : Announced mark w) :
    w'.piped = ctx'.bytesRead - ctx'.bytesWritten ∧ Announced mark w' := by
  cases h with
  | gate e =>
    obtain ⟨w₁, h₁, rfl⟩ := ha
    obtain ⟨n, last, rfl⟩ := outlet_idle h₁ trivial
    exact ⟨hp, hw.release n last⟩
  | target heq =>
    obtain ⟨w₁, h₁, rfl⟩ := ha
    obtain ⟨n, last, rfl⟩ := outlet_idle h₁ trivial
    exact ⟨hp, hw.release n last⟩
  | failed =>
    obtain ⟨w₁, h₁, w₂, ⟨k, last', rfl⟩, rfl⟩ := ha
    obtain ⟨n, last, rfl⟩ := outlet_idle h₁ trivial
    exact ⟨hp, (hw.release n last).release k last'⟩
  | eof =>
    obtain ⟨w₁, h₁, w₂, ⟨k, last', -, rfl⟩, rfl⟩ := ha
    obtain ⟨n, last, rfl⟩ := outlet_idle h₁ trivial
    have hw := (hw.release n last).release k last'
    exact ⟨hp, hw.room, hw.ended⟩
  | @moved m off hlt hopen hm hmax =>
    obtain ⟨w₁, h₁, w₂, ⟨k, last', -, rfl⟩, rfl⟩ := ha
    obtain ⟨n, last, rfl⟩ := outlet_idle h₁ trivial
    have hw := (hw.release n last).release k last'
    refine ⟨?_, hw.room, hw.ended⟩
    have hadd : w.piped + m = ctx.bytesRead + m - ctx.bytesWritten := by omega
    exact hadd

/-- A drain attempt clears the flag only when the buffer is full, since it splices out of a pipe
with bytes in it only. -/
theorem DrainAttempt.piped_announced (h : DrainAttempt ctx es res ctx') (hmark : 0 < mark)
    (ha : (outlet mark).Accepts w es w') (hp : w.piped = ctx.bytesRead - ctx.bytesWritten)
    (hw : Announced mark w) :
    w'.piped = ctx'.bytesRead - ctx'.bytesWritten ∧ Announced mark w' := by
  cases h with
  | gate e =>
    obtain ⟨w₁, h₁, rfl⟩ := ha
    obtain ⟨n, last, rfl⟩ := outlet_idle h₁ trivial
    exact ⟨hp, hw.release n last⟩
  | closed =>
    obtain ⟨w₁, h₁, rfl⟩ := ha
    obtain ⟨n, last, rfl⟩ := outlet_idle h₁ trivial
    exact ⟨hp, hw.release n last⟩
  | empty =>
    obtain ⟨w₁, h₁, rfl⟩ := ha
    obtain ⟨n, last, rfl⟩ := outlet_idle h₁ trivial
    exact ⟨hp, hw.release n last⟩
  | failed hlt =>
    obtain ⟨w₁, h₁, w₂, ⟨k, last', hcause⟩, rfl⟩ := ha
    obtain ⟨n, last, rfl⟩ := outlet_idle h₁ trivial
    have hw := (hw.release n last).release k last'
    rcases hcause with ⟨-, hcause, rfl⟩ | ⟨-, rfl⟩
    · refine ⟨hp, ?_, hw.ended⟩
      intro hroom
      have hfull : ¬ w.piped = 0 := by omega
      rcases hcause with hzero | hempty
      · have hroom : mark ≤ w.room + n + k := hroom
        have hzero : w.room + n + k = 0 := hzero
        omega
      · exact absurd hempty hfull
    · exact ⟨hp, hw⟩
  | stuck =>
    obtain ⟨w₁, h₁, w₂, ⟨k, last', -, -, -, rfl⟩, rfl⟩ := ha
    obtain ⟨n, last, rfl⟩ := outlet_idle h₁ trivial
    have hw := (hw.release n last).release k last'
    exact ⟨hp, hw.room, hw.ended⟩
  | @moved m off hlt hopen hm hmax =>
    obtain ⟨w₁, h₁, w₂, ⟨k, last', -, -, -, rfl⟩, rfl⟩ := ha
    obtain ⟨n, last, rfl⟩ := outlet_idle h₁ trivial
    have hw := (hw.release n last).release k last'
    have hsub : w.piped - m = ctx.bytesRead - (ctx.bytesWritten + m) := by omega
    refine ⟨hsub, ?_, hw.ended⟩
    intro hroom
    have hroom : mark ≤ w.room + n + k - m := hroom
    have hbefore : mark ≤ w.room + n + k := by omega
    exact hw.room hbefore

/-- After a drain that is to go on, there is something to write, or the flag that let it write is
still up. -/
theorem DrainAttempt.flagged (h : DrainAttempt ctx es res ctx')
    (ha : (outlet mark).Accepts w es w') (hup : w.Up)
    (hn : afterDrain ctx'.pipeHasData res = .drain) :
    ctx'.bytesWritten < ctx'.bytesRead ∨ w'.Up := by
  have data {e : IoError} (hn : afterDrain ctx'.pipeHasData (.error e) = .drain) :
      ctx'.bytesWritten < ctx'.bytesRead := by
    have herror := afterDrain_error ctx'.pipeHasData e
    rw [hn] at herror
    cases herror with
    | drain _ hd => exact (SpliceCtx.pipeHasData_iff ctx').mp hd
  cases h with
  | gate e => exact .inl (data hn)
  | failed => exact .inl (data hn)
  | closed | empty | stuck => cases hn
  | moved =>
    obtain ⟨w₁, h₁, w₂, ⟨k, last', -, -, -, rfl⟩, rfl⟩ := ha
    obtain ⟨n, last, rfl⟩ := outlet_idle h₁ trivial
    exact .inr ((hup.release n last).release k last')

theorem Ferries.step (h : Ferries mark io w) (hmark : 0 < mark) (hi : Iteration io t io')
    (ha : (outlet mark).Accepts w t.events w') : Ferries mark io' w' := by
  have hcounted := h.counted.step hi (ha.forall fun _ _ _ => outlet_bounded)
  have released {s : TransferState} {a : Poll (IoResult Unit)} {w₁ : Outlet}
      (h₁ : outlet mark w (checked s a) w₁) : ∃ n last, w₁ = w.release mark n last :=
    outlet_idle h₁ (checked_idle s)
  cases hi with
  | pending =>
    obtain ⟨w₁, h₁, rfl⟩ := ha
    obtain ⟨n, last, rfl⟩ := released h₁
    exact ⟨hcounted, h.piped, h.announced.release n last,
      fun hs hopen heq => (h.flagged hs hopen heq).release n last⟩
  | failed e =>
    obtain ⟨w₁, h₁, rfl⟩ := ha
    obtain ⟨n, last, rfl⟩ := released h₁
    exact ⟨hcounted, h.piped, h.announced.release n last,
      fun hs hopen heq => (h.flagged hs hopen heq).release n last⟩
  | clean hs =>
    obtain ⟨w₁, h₁, rfl⟩ := ha
    obtain ⟨n, last, rfl⟩ := released (s := .finished none) h₁
    exact ⟨hcounted, h.piped, h.announced.release n last,
      fun hs hopen heq => (h.flagged hs hopen heq).release n last⟩
  | fault hs =>
    obtain ⟨w₁, h₁, rfl⟩ := ha
    obtain ⟨n, last, rfl⟩ := released (s := .finished none) h₁
    exact ⟨hcounted, h.piped, h.announced.release n last, by rintro ⟨⟩⟩
  | @fill es res ctx next hs hf hn =>
    obtain ⟨w₁, h₁, ha⟩ := ha
    obtain ⟨n, last, rfl⟩ := released (s := .fill) h₁
    obtain ⟨hpiped, hannounced⟩ := hf.piped_announced ha h.counted.written_le h.piped
      (h.announced.release n last)
    refine ⟨hcounted, hpiped, hannounced, ?_⟩
    rintro rfl hopen heq
    rcases hf.to_drain hn with hdone | hdata
    · cases hopen.symm.trans hdone
    · exact absurd heq (Nat.ne_of_gt hdata)
  | @drain es res ctx hs hd =>
    obtain ⟨w₁, h₁, ha⟩ := ha
    have hup : w₁.Up := outlet_ready h₁
    obtain ⟨n, last, rfl⟩ := released (s := .drain) h₁
    obtain ⟨hpiped, hannounced⟩ := hd.piped_announced hmark ha h.piped
      (h.announced.release n last)
    refine ⟨hcounted, hpiped, hannounced, ?_⟩
    intro hnext _ heq
    rcases hd.flagged ha hup hnext with hdata | hup
    · exact absurd heq (Nat.ne_of_gt hdata)
    · exact hup

end Machine

end Splicer
