import Splicer.Tenancy
import Splicer.Interaction.Interleaving

/-! Many transfers on one kernel, their system calls interleaved in any order. -/
namespace Splicer

open Interaction Function

inductive Task where
  | transfer (b : Builder) (r w : AsyncFd)
  | copyBidirectional (sl sr : BorrowedFd)

namespace Task

def program (fuel : ℕ) : Task → Prog sys (Option (Completion (IoResult TransferReport)))
  | .transfer b r w => Splicer.transfer fuel b r w
  | .copyBidirectional sl sr => Splicer.copyBidirectional fuel sl sr

/-- The descriptors that the caller has lent to the task. -/
def ends : Task → List BorrowedFd
  | .transfer _ r w => [r.asFd, w.asFd]
  | .copyBidirectional sl sr => [sl, sr]

end Task

/-- Every call of a task is tame, wherever in its run the task is. -/
theorem Task.permits {task : Task} {o : Os} {fuel : ℕ} {es rest : List (Event sys)}
    {out : Outcome sys (Option (Completion (IoResult TransferReport)))}
    (hopen : ∀ n ∈ task.ends, o.fd n = some .other)
    (h : (task.program fuel).Run (es ++ rest) out) :
    os.Permits (fun v => Tame task.ends v.table) (o.lend task.ends) es := by
  rintro pre e post v rfl ha
  have htable : descriptors.Accepts (o.lend task.ends).table pre v.table :=
    ha.map fun _ _ _ => os_descriptors
  rw [List.append_assoc, List.cons_append] at h
  cases task with
  | transfer b r w =>
    have hlicit := Prog.wp_permits (wp_transfer b) h pre e (post ++ rest) _ rfl htable
    exact hlicit.tame (by simp [Task.ends]) (by simp [Task.ends]) hopen
  | copyBidirectional sl sr =>
    rcases Prog.wp_permits (wp_copyBidirectional sl sr) h pre e (post ++ rest) _ rfl htable with
      hlicit | hlicit
    · exact hlicit.tame (by simp [Task.ends]) (by simp [Task.ends]) hopen
    · exact hlicit.tame (by simp [Task.ends]) (by simp [Task.ends]) hopen

theorem Task.releases {task : Task} {fuel : ℕ} {es : List (Event sys)} {T T' : FdTable}
    {out : Outcome sys (Option (Completion (IoResult TransferReport)))}
    (h : (task.program fuel).Run es out) (hout : out ≠ .val none)
    (ha : descriptors.Accepts T es T') : T' = T := by
  have hreleased : Released T out T' := by
    cases task with
    | transfer b r w => exact Prog.wp_post (wp_transfer b) h ha
    | copyBidirectional sl sr => exact Prog.wp_post (wp_copyBidirectional sl sr) h ha
  rcases out with (_ | done) | why
  · exact absurd rfl hout
  · exact hreleased
  · exact hreleased

/-! ### All tasks together -/

namespace Task

/-- The task has `src` to move, and somewhere to move it. -/
def Fits (src : Side → List UInt8) (o : Os) : Task → Prop
  | .transfer b r w => (o.source r.asFd).ahead b.offset.offIn = some (src .sl2sr) ∧
      (o.sink w.asFd).write b.offset.offOut [] = some (o.sink w.asFd)
  | .copyBidirectional sl sr => sl ≠ sr ∧
      (∀ d, (o.source (each sl sr d)).ahead none = some (src d)) ∧
      ∀ d, (o.sink (each sr sl d)).write none [] = some (o.sink (each sr sl d))

/-- What a task has come to that has made the calls `es`: prefixes of `src` have arrived, nothing
has moved if it was refused, and a report tells how long they are. -/
def Delivers (src : Side → List UInt8) (o o' : Os) (es : List (Event sys))
    (out : Outcome sys (Option (Completion (IoResult TransferReport)))) : Task → Prop
  | .transfer b r w => (w.asFd ≠ r.asFd →
      o'.source w.asFd = o.source w.asFd ∧ o'.sink r.asFd = o.sink r.asFd) ∧
    ∃ read written,
      Delivered b.offset b.target (src .sl2sr) r.asFd w.asFd o o' read written ∧
      (∀ e, out = .val (some (.returned (.error e))) → read = 0) ∧
      ∀ report, out = .val (some (.returned (.ok report))) →
        report.tx = written ∧ report.rx = 0 ∧
          (report.error = none → read = min b.target (src .sl2sr).length ∧ written = read)
  | .copyBidirectional sl sr => ∃ read written : Side → ℕ,
      (∀ d, Delivered .none isizeMax (src d) (each sl sr d) (each sr sl d) o o' (read d)
        (written d)) ∧
      (∀ e, out = .val (some (.returned (.error e))) → ∀ d, read d = 0) ∧
      ∀ report, out = .val (some (.returned (.ok report))) →
        report.tx = written .sl2sr ∧ report.rx = written .sr2sl ∧
          ((∀ e ∈ es, SysUnfailing e) →
            report.error = none ∧ ∀ d, written d = min isizeMax (src d).length)

/-- All of `src` has arrived that the targets allow. -/
def Arrives (src : Side → List UInt8) (o o' : Os) : Task → Prop
  | .transfer b r w => Delivered b.offset b.target (src .sl2sr) r.asFd w.asFd o o'
      (min b.target (src .sl2sr).length) (min b.target (src .sl2sr).length)
  | .copyBidirectional sl sr => ∀ d, Delivered .none isizeMax (src d) (each sl sr d)
      (each sr sl d) o o' (min isizeMax (src d).length) (min isizeMax (src d).length)

/-- How many bytes the task is to move each way. -/
def dues (src : Side → List UInt8) : Task → Side → ℕ
  | .transfer b _ _, .sl2sr => min b.target (src .sl2sr).length
  | .transfer _ _ _, .sr2sl => 0
  | .copyBidirectional _ _, d => min isizeMax (src d).length

end Task

section Together

variable {D : Type} [DecidableEq D] {task : D → Task} {fuel : D → ℕ} {o o' v v' : Os}
  {es : List (Event (sys.shared D))}

/-- A delivery is about the bytes at its two ends. -/
theorem Delivered.congr {offset : Offset} {target read written : ℕ} {src : List UInt8}
    {r w : BorrowedFd} (h : Delivered offset target src r w v v' read written)
    (hr : v.source r = o.source r ∧ o'.source r = v'.source r)
    (hw : v.sink w = o.sink w ∧ o'.sink w = v'.sink w) :
    Delivered offset target src r w o o' read written := by
  refine ⟨?_, ?_, h.written_le, h.read_le⟩
  · rw [hr.2, h.source, hr.1]
  · rw [hw.2, ← hw.1, h.sink]

theorem Task.transfer_ends {b : Builder} {r w : AsyncFd}
    (hopen : ∀ n ∈ (Task.transfer b r w).ends, o.fd n = some .other) :
    Ends (o.lend (Task.transfer b r w).ends) r.asFd w.asFd := by
  refine ⟨?_, ?_⟩
  · simpa [Os.lend, Task.ends] using hopen r.asFd (by simp [Task.ends])
  · simpa [Os.lend, Task.ends] using hopen w.asFd (by simp [Task.ends])

theorem Task.copyBidirectional_ends {sl sr : BorrowedFd}
    (hopen : ∀ n ∈ (Task.copyBidirectional sl sr).ends, o.fd n = some .other) :
    Ends (o.lend (Task.copyBidirectional sl sr).ends) sl sr := by
  refine ⟨?_, ?_⟩
  · simpa [Os.lend, Task.ends] using hopen sl (by simp [Task.ends])
  · simpa [Os.lend, Task.ends] using hopen sr (by simp [Task.ends])

theorem Task.Fits.delivers {task : Task} {src : Side → List UInt8} {fuel : ℕ}
    {es : List (Event sys)} {out : Outcome sys (Option (Completion (IoResult TransferReport)))}
    (h : task.Fits src o) (hopen : ∀ n ∈ task.ends, o.fd n = some .other)
    (hrun : (task.program fuel).Run es out) (ha : os.Accepts (o.lend task.ends) es v')
    (hbytes : ∀ n ∈ task.ends, o'.source n = v'.source n ∧ o'.sink n = v'.sink n) :
    task.Delivers src o o' es out := by
  cases task with
  | transfer b r w =>
    have hr := hbytes r.asFd (by simp [Task.ends])
    have hw := hbytes w.asFd (by simp [Task.ends])
    have htransfers := Prog.wp_post (wp_transfer_os shows_os (Task.transfer_ends hopen)) hrun ha
    obtain ⟨hspares, read, written, hd, hreports⟩ := htransfers.delivers h.1 h.2
    refine ⟨fun hne => ⟨?_, ?_⟩, read, written, hd.congr ⟨rfl, hr.1⟩ ⟨rfl, hw.2⟩, hreports⟩
    · rw [hw.1, hspares.source _ (by simp [hne])]
      rfl
    · rw [hr.2, hspares.sink _ (by simp [hne.symm])]
      rfl
  | copyBidirectional sl sr =>
    have hsl := hbytes sl (by simp [Task.ends])
    have hsr := hbytes sr (by simp [Task.ends])
    obtain ⟨E, K, hE, htransfers, hK⟩ :=
      copyBidirectional_transfers h.1 (Task.copyBidirectional_ends hopen) hrun ha
    have hsrc : ∀ d, ((o.lend (Task.copyBidirectional sl sr).ends).source
        (each sl sr d)).ahead none = some (src d) := h.2.1
    have hsink : ∀ d, ((o.lend (Task.copyBidirectional sl sr).ends).sink (each sr sl d)).write
        none [] = some ((o.lend (Task.copyBidirectional sl sr).ends).sink (each sr sl d)) := h.2.2
    obtain ⟨-, read, written, hd, herror, hreport⟩ := htransfers.delivers hE hsrc hsink
    refine ⟨read, written, fun d => (hd d).congr ⟨rfl, ?_⟩ ⟨rfl, ?_⟩, herror, ?_⟩
    · cases d
      · exact hsl.1
      · exact hsr.1
    · cases d
      · exact hsr.2
      · exact hsl.2
    · intro report hout
      obtain ⟨htx, hrx, hdone⟩ := hreport report hout
      exact ⟨htx, hrx, fun hall => hdone (hK hall)⟩

/-- What is due has arrived when it is reported without an error. -/
theorem Task.Delivers.arrives {task : Task} {src : Side → List UInt8} {es : List (Event sys)}
    (h : task.Delivers src o o' es (.val (some (.returned
      (.ok ⟨task.dues src .sl2sr, task.dues src .sr2sl, none⟩))))) : task.Arrives src o o' := by
  cases task with
  | transfer b r w =>
    obtain ⟨-, read, written, hd, -, hreport⟩ := h
    obtain ⟨-, -, hdone⟩ := hreport _ rfl
    obtain ⟨rfl, rfl⟩ := hdone rfl
    exact hd
  | copyBidirectional sl sr =>
    obtain ⟨read, written, hd, -, hreport⟩ := h
    obtain ⟨htx, hrx, -⟩ := hreport _ rfl
    intro d
    have hwritten : written d = min isizeMax (src d).length := by
      cases d
      · exact htx.symm
      · exact hrx.symm
    have hread : read d = min isizeMax (src d).length :=
      Nat.le_antisymm (hd d).read_le (hwritten ▸ (hd d).written_le)
    have hdelivered := hd d
    rwa [hread, hwritten] at hdelivered

theorem Task.Fits.completes {task : Task} {src : Side → List UInt8} {fuel : ℕ}
    {es : List (Event sys)} {out : Outcome sys (Option (Completion (IoResult TransferReport)))}
    (h : task.Fits src o) (hopen : ∀ n ∈ task.ends, o.fd n = some .other)
    (hrun : (task.program fuel).Run es out) (ha : smooth.Accepts (o.lend task.ends) es v')
    (hfuel : ∀ d, 2 * task.dues src d + tally sysDelay es + 3 < fuel) :
    (∃ e, out = .val (some (.returned (.error e)))) ∧ Kept (o.lend task.ends) v' ∨
      out = .val (some (.returned (.ok ⟨task.dues src .sl2sr, task.dues src .sr2sl, none⟩))) := by
  cases task with
  | transfer b r w =>
    exact transfer_concludes (Task.transfer_ends hopen) h.1 h.2 hrun ha (hfuel .sl2sr)
  | copyBidirectional sl sr =>
    exact copyBidirectional_concludes h.1 (Task.copyBidirectional_ends hopen) h.2.1 h.2.2 hrun ha
      hfuel

/-- Every task can be told apart from the others. -/
theorem tasks_separate {E : Env sys Os} (hE : ∀ o e o', E o e o' → os o e o')
    (step : ∀ l v d e v', Tenancy (fun d => (task d).ends) o l v →
      Tame (task d).ends (l d).table e.call → E v e v' →
      ∃ u, E (l d) e u ∧ Tenancy (fun d => (task d).ends) o (update l d u) v')
    (hopen : ∀ d, ∀ n ∈ (task d).ends, o.fd n = some .other)
    (hapart : ∀ d d' n, d' ≠ d → n ∈ (task d).ends → n ∉ (task d').ends)
    (hruns : ∀ d, ∃ rest out, ((task d).program (fuel d)).Run (mine d es ++ rest) out)
    (ha : E.common.Accepts o es o') :
    ∃ l, Tenancy (fun d => (task d).ends) o l o' ∧
      ∀ d, E.Accepts (o.lend (task d).ends) (mine d es) (l d) := by
  refine Env.separate (G := fun d v c => Tame (task d).ends v.table c) ?_
    (tenancy_lend hopen hapart) ?_ ha
  · exact fun l v e v' h htame he => step l v e.call.1 ⟨e.call.2, e.answer⟩ v' h htame he
  · intro d
    obtain ⟨rest, out, hrun⟩ := hruns d
    exact (Task.permits (hopen d) hrun).mono hE

/-- The record of who has opened which descriptor, kept beside the kernel of all. -/
def registered (x : BorrowedFd → Option D) (e : Event (sys.shared D)) : BorrowedFd → Option D :=
  opens x e.call.1 ⟨e.call.2, e.answer⟩

/-- No call of a task touches a pipe that another has opened. -/
theorem tasks_keep (hopen : ∀ d, ∀ n ∈ (task d).ends, o.fd n = some .other)
    (hapart : ∀ d d' n, d' ≠ d → n ∈ (task d).ends → n ∉ (task d').ends)
    (hruns : ∀ d, ∃ rest out, ((task d).program (fuel d)).Run (mine d es ++ rest) out) :
    (os.common.ghost registered).Permits
      (fun x c => Keeps (task c.1).ends (fun n => x.2 n = some c.1) c.2) (o, fun _ => none) es := by
  have hpermits : (os.common.ghost registered).Permits
      (fun x c => ∃ l, (Tenancy (fun d => (task d).ends) o l x.1 ∧
        Owned (fun d => (task d).ends) l x.2) ∧ Tame (task c.1).ends (l c.1).table c.2)
      (o, fun _ => none) es := by
    refine Env.separate_permits (F := os) (G := fun d v c => Tame (task d).ends v.table c) ?_
      ⟨tenancy_lend hopen hapart, owned_lend⟩ ?_
    · rintro l ⟨v, x⟩ e ⟨v', _⟩ ⟨htenancy, howned⟩ htame ⟨he, rfl⟩
      obtain ⟨u, hu, htenancy'⟩ := htenancy.step htame he
      exact ⟨u, hu, htenancy', howned.step htenancy.1 htame he hu⟩
    · intro d
      obtain ⟨rest, out, hrun⟩ := hruns d
      exact Task.permits (hopen d) hrun
  intro pre e post x hes ha
  obtain ⟨l, ⟨htenancy, howned⟩, htame⟩ := hpermits pre e post x hes ha
  exact howned.keeps htenancy.1 htame

def Os.quartet : Os where
  fd n := if 5 ≤ n ∧ n ≤ 8 then some .other else none
  pipe _ := []
  capacity _ := 0
  source n := if n = 5 then .stream [9] else .stream []
  sink _ := .stream []

def duo : Bool → Task
  | false => .transfer .new (.socket 5) (.socket 6)
  | true => .transfer .new (.socket 7) (.socket 8)

/-- While the one copy waits for its byte and moves it, the other finds its reader at the end. -/
def interleaved : List (Event (sys.shared Bool)) :=
  [.on false ⟨.pipeWith ⟨true, true⟩, .ok (⟨3⟩, ⟨4⟩)⟩,
  .on true ⟨.pipeWith ⟨true, true⟩, .ok (⟨9⟩, ⟨10⟩)⟩,
  .on false ⟨.fcntlSetpipeSize 3 MAXIMUM_PIPE_SIZE, .ok 1048576⟩,
  .on false ⟨.pollReadReady 5, .pending⟩, .on false ⟨.suspend, .poll⟩,
  .on true ⟨.fcntlSetpipeSize 9 MAXIMUM_PIPE_SIZE, .ok 1048576⟩,
  .on true ⟨.pollReadReady 7, .ready (.ok ())⟩, .on true ⟨.tryIo 7 .readable, .callInner⟩,
  .on false ⟨.pollReadReady 5, .ready (.ok ())⟩, .on false ⟨.tryIo 5 .readable, .callInner⟩,
  .on true ⟨.splice 7 none 10 none isizeMax .NONBLOCK, ⟨.ok 0, none, none⟩⟩,
  .on false ⟨.splice 5 none 4 none isizeMax .NONBLOCK, ⟨.ok 1, none, none⟩⟩,
  .on true ⟨.close ⟨10⟩, ()⟩, .on true ⟨.pollWriteReady 8, .ready (.ok ())⟩,
  .on false ⟨.pollReadReady 5, .ready (.ok ())⟩, .on false ⟨.tryIo 5 .readable, .callInner⟩,
  .on false ⟨.splice 5 none 4 none (isizeMax - 1) .NONBLOCK, ⟨.ok 0, none, none⟩⟩,
  .on false ⟨.close ⟨4⟩, ()⟩, .on true ⟨.tryIo 8 .writable, .callInner⟩,
  .on false ⟨.pollWriteReady 6, .ready (.ok ())⟩, .on false ⟨.tryIo 6 .writable, .callInner⟩,
  .on false ⟨.splice 3 none 6 none 1 .NONBLOCK, ⟨.ok 1, none, none⟩⟩,
  .on true ⟨.close ⟨9⟩, ()⟩, .on true ⟨.pollShutdown 8, .ready (.ok ())⟩,
  .on false ⟨.pollWriteReady 6, .ready (.ok ())⟩, .on false ⟨.tryIo 6 .writable, .callInner⟩,
  .on false ⟨.close ⟨3⟩, ()⟩, .on false ⟨.pollShutdown 6, .ready (.ok ())⟩]

theorem interleaved_run_byte : ((duo false).program 7).Run (mine false interleaved)
    (.val (some (.returned (.ok ⟨1, 0, none⟩)))) :=
  .ask (.ask (.ask (.ask (.ask (.ask (.ask (.ask (.ask (.ask (.ask (.ask (.ask (.ask (.ask (.ask
    (.ask (.ask (.ret _))))))))))))))))))

theorem interleaved_run_empty : ((duo true).program 7).Run (mine true interleaved)
    (.val (some (.returned (.ok ⟨0, 0, none⟩)))) :=
  .ask (.ask (.ask (.ask (.ask (.ask (.ask (.ask (.ask (.ask (.ret _))))))))))

theorem interleaved_runs : ∀ d, ∃ out, ((duo d).program 7).Run (mine d interleaved) out ∧
    out ≠ .val none := by
  rintro (_ | _)
  · exact ⟨_, interleaved_run_byte, by rintro ⟨⟩⟩
  · exact ⟨_, interleaved_run_empty, by rintro ⟨⟩⟩

theorem interleaved_prefixes : ∀ d, ∃ rest out,
    ((duo d).program 7).Run (mine d interleaved ++ rest) out := by
  intro d
  obtain ⟨out, hrun, -⟩ := interleaved_runs d
  exact ⟨[], out, by rwa [List.append_nil]⟩

theorem interleaved_accepted : ∃ o', os.common.Accepts .quartet interleaved o' := by
  have hnew : ∀ n q, ¬ Os.quartet.Names n q := by
    intro n q
    simp only [Os.Names, Os.quartet]
    split <;> simp
  have hnew₁ : ∀ n, update (update Os.quartet.fd 3 (some (.drainEnd 0))) 4 (some (.fillEnd 0)) n ≠
      some (.drainEnd 1) ∧
      update (update Os.quartet.fd 3 (some (.drainEnd 0))) 4 (some (.fillEnd 0)) n ≠
      some (.fillEnd 1) := by
    intro n
    simp only [update_apply]
    have hold := not_or.mp (hnew n 1)
    split
    · simp
    · split
      · simp
      · exact hold
  exact ⟨_, _, ⟨rfl, rfl, by decide, 0, 65536, fun n => hnew n 0, rfl⟩,
    _, ⟨rfl, rfl, by decide, 1, 65536, fun n => not_or.mpr (hnew₁ n), rfl⟩,
    _, ⟨0, 1048576, .inl rfl, Nat.zero_le _, rfl⟩, _, rfl, _, rfl,
    _, ⟨1, 1048576, .inl rfl, Nat.zero_le _, rfl⟩, _, rfl, _, rfl, _, rfl, _, rfl,
    _, .inl ⟨⟨1, _, _, rfl, ⟨_, rfl, by decide, by decide, by decide, by decide, rfl, rfl⟩, rfl⟩,
      rfl⟩,
    _, .inl ⟨⟨0, _, _, rfl, ⟨_, rfl, by decide, by decide, by decide, by decide, rfl, rfl⟩, rfl⟩,
      rfl⟩, _, rfl, _, rfl, _, rfl, _, rfl,
    _, .inl ⟨⟨0, _, _, rfl, ⟨_, rfl, by decide, by decide, by decide, by decide, rfl, rfl⟩, rfl⟩,
      rfl⟩, _, rfl, _, rfl, _, rfl, _, rfl,
    _, .inr (.inl ⟨⟨0, _, _, rfl, ⟨by decide, by decide, rfl, _, rfl, rfl⟩, rfl⟩, rfl⟩),
    _, rfl, _, rfl, _, rfl, _, rfl, _, rfl, _, rfl, rfl⟩

theorem interleaved_smooth : ∃ o', smooth.common.Accepts .quartet interleaved o' := by
  obtain ⟨o', ha⟩ := interleaved_accepted
  refine ⟨o', Env.accepts_common.mpr (smooth_of [5, 7] (Env.accepts_common.mp ha) ?_ ?_)⟩
  · simp [Os.quartet]
  · simp +contextual [interleaved, Event.on, SysUnfailing, Obliges, isizeMax]

theorem quartet_open : ∀ d, ∀ n ∈ (duo d).ends, Os.quartet.fd n = some .other := by
  decide

theorem quartet_apart : ∀ d d' n, d' ≠ d → n ∈ (duo d).ends → n ∉ (duo d').ends := by
  have hall : ∀ d d', d' ≠ d → ∀ n ∈ (duo d).ends, n ∉ (duo d').ends := by decide
  exact fun d d' n hd hn => hall d d' hd n hn

/-- Tasks with ends of their own, interleaved call by call in any order: wherever the others are
in their runs, each has delivered what it would have delivered alone. No call has touched a pipe
that another task had opened, and all bytes but the tasks' are as they were. -/
theorem tasks_deliver (hopen : ∀ d, ∀ n ∈ (task d).ends, o.fd n = some .other)
    (hapart : ∀ d d' n, d' ≠ d → n ∈ (task d).ends → n ∉ (task d').ends)
    (hruns : ∀ d, ∃ rest out, ((task d).program (fuel d)).Run (mine d es ++ rest) out)
    (ha : os.common.Accepts o es o') :
    (∀ d src out, (task d).Fits src o → ((task d).program (fuel d)).Run (mine d es) out →
      (task d).Delivers src o o' (mine d es) out) ∧
    (os.common.ghost registered).Permits
      (fun x c => Keeps (task c.1).ends (fun n => x.2 n = some c.1) c.2) (o, fun _ => none) es ∧
    (∀ n, (∀ d, n ∉ (task d).ends) → o'.source n = o.source n ∧ o'.sink n = o.sink n) ∧
    ∀ n p, o.Names n p → o'.pipe p = o.pipe p ∧ o'.capacity p = o.capacity p := by
  obtain ⟨l, ⟨-, hm⟩, hl⟩ := tasks_separate (fun _ _ _ he => he)
    (fun _ _ _ _ _ h htame he => h.step htame he) hopen hapart hruns ha
  refine ⟨?_, tasks_keep hopen hapart hruns, fun n hn => ⟨hm.sources n hn, hm.sinks n hn⟩,
    hm.buffers⟩
  intro d src out hfits hrun
  exact hfits.delivers (hopen d) hrun (hl d) fun n hn => ⟨hm.source d n hn, hm.sink d n hn⟩

theorem tasks_deliver_interleaved : ∃ o', os.common.Accepts .quartet interleaved o' ∧
    o'.sink 6 = .stream [9] := by
  obtain ⟨o', ha⟩ := interleaved_accepted
  have hdelivers := (tasks_deliver quartet_open quartet_apart interleaved_prefixes ha).1 false
    (each [9] []) _ ⟨rfl, rfl⟩ interleaved_run_byte
  obtain ⟨-, read, written, hd, -, hreport⟩ := hdelivers
  obtain ⟨htx, -, -⟩ := hreport _ rfl
  have hsink := hd.sink
  rw [← htx] at hsink
  exact ⟨o', ha, (Option.some.inj hsink).symm⟩

/-- On a kernel that fails no call, each task that has been given fuel enough for its own bytes and
its own delays has been refused and has touched nothing, or has delivered all, whatever the others
do. -/
theorem tasks_complete (hopen : ∀ d, ∀ n ∈ (task d).ends, o.fd n = some .other)
    (hapart : ∀ d d' n, d' ≠ d → n ∈ (task d).ends → n ∉ (task d').ends)
    (hruns : ∀ d, ∃ rest out, ((task d).program (fuel d)).Run (mine d es ++ rest) out)
    (ha : smooth.common.Accepts o es o') (d : D) {src : Side → List UInt8}
    {out : Outcome sys (Option (Completion (IoResult TransferReport)))}
    (hfits : (task d).Fits src o) (hrun : ((task d).program (fuel d)).Run (mine d es) out)
    (hfuel : ∀ s, 2 * (task d).dues src s + tally sysDelay (mine d es) + 3 < fuel d) :
    ((∃ e, out = .val (some (.returned (.error e)))) ∧
        ∀ n ∈ (task d).ends, o'.source n = o.source n ∧ o'.sink n = o.sink n) ∨
      out = .val (some (.returned
          (.ok ⟨(task d).dues src .sl2sr, (task d).dues src .sr2sl, none⟩))) ∧
        (task d).Arrives src o o' ∧ (task d).Delivers src o o' (mine d es) out := by
  obtain ⟨l, ⟨-, hm⟩, hl⟩ := tasks_separate (fun _ _ _ => smooth_os)
    (fun _ _ _ _ _ h htame he => h.step_smooth htame he) hopen hapart hruns ha
  have hdelivers : (task d).Delivers src o o' (mine d es) out :=
    hfits.delivers (hopen d) hrun ((hl d).mono fun _ _ _ => smooth_os)
      fun n hn => ⟨hm.source d n hn, hm.sink d n hn⟩
  rcases hfits.completes (hopen d) hrun (hl d) hfuel with ⟨herror, hkept⟩ | rfl
  · refine .inl ⟨herror, fun n hn => ⟨?_, ?_⟩⟩
    · rw [hm.source d n hn, hkept.source]
      rfl
    · rw [hm.sink d n hn, hkept.sink]
      rfl
  · exact .inr ⟨rfl, hdelivers.arrives, hdelivers⟩

theorem tasks_complete_interleaved : ∃ o', smooth.common.Accepts .quartet interleaved o' ∧
    (duo false).Arrives (each [9] []) .quartet o' := by
  obtain ⟨o', ha⟩ := interleaved_smooth
  have hfuel : ∀ s, 2 * (duo false).dues (each [9] []) s +
      tally sysDelay (mine false interleaved) + 3 < 7 := by
    rintro (_ | _) <;> decide
  rcases tasks_complete quartet_open quartet_apart interleaved_prefixes ha false ⟨rfl, rfl⟩
    interleaved_run_byte hfuel with ⟨⟨e, he⟩, -⟩ | ⟨-, harrives, -⟩
  · cases he
  · exact ⟨o', ha, harrives⟩

/-- When all have ended, no descriptor is left open and none has been closed that was not theirs. -/
theorem tasks_release (hopen : ∀ d, ∀ n ∈ (task d).ends, o.fd n = some .other)
    (hapart : ∀ d d' n, d' ≠ d → n ∈ (task d).ends → n ∉ (task d').ends)
    (hruns : ∀ d, ∃ out, ((task d).program (fuel d)).Run (mine d es) out ∧ out ≠ .val none)
    (ha : os.common.Accepts o es o') : o'.fd = o.fd := by
  have hprefix (d : D) : ∃ rest out, ((task d).program (fuel d)).Run (mine d es ++ rest) out := by
    obtain ⟨out, hrun, -⟩ := hruns d
    exact ⟨[], out, by rwa [List.append_nil]⟩
  obtain ⟨l, ⟨hleases, -⟩, hl⟩ := tasks_separate (fun _ _ _ he => he)
    (fun _ _ _ _ _ h htame he => h.step htame he) hopen hapart hprefix ha
  have hback (d : D) : (l d).table = (o.lend (task d).ends).table := by
    obtain ⟨out, hrun, hout⟩ := hruns d
    exact Task.releases hrun hout ((hl d).map fun _ _ _ => os_descriptors)
  funext n
  by_cases hn : ∃ d, n ∈ (task d).ends
  · obtain ⟨d, hn⟩ := hn
    have hlent := hleases.lent d n hn
    rw [hleases.fd d n (by simp [hlent]), hlent, hopen d n hn]
  · refine hleases.strangers n fun d => ?_
    have hmem : n ∉ (task d).ends := fun hmem => hn ⟨d, hmem⟩
    have hnone : (o.lend (task d).ends).table n = none := by
      simp [Os.table, Os.lend, hmem]
    by_contra hfd
    exact table_ne_none.mpr hfd (by rw [hback d, hnone])

theorem tasks_release_interleaved : ∃ o', os.common.Accepts .quartet interleaved o' ∧
    o'.fd = Os.quartet.fd := by
  obtain ⟨o', ha⟩ := interleaved_accepted
  exact ⟨o', ha, tasks_release quartet_open quartet_apart interleaved_runs ha⟩

end Together

end Splicer
