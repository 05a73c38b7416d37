import Mathlib.Logic.Function.Basic
import Splicer.Asks
import Splicer.Entry

/-! Who owns a descriptor: what a transfer opens it alone uses, and closes once, on every path. -/
namespace Splicer

open Interaction Function

inductive FdKind where
  | drainEnd
  | fillEnd
  | other
  deriving DecidableEq, Repr

/-- The open descriptors of the process. -/
abbrev FdTable := BorrowedFd → Option FdKind

/-- The kernel hands out pipe ends that are open nowhere else; it says nothing of the other
answers. -/
def descriptors : Env sys FdTable := fun T e T' =>
  match e with
  | ⟨.pipeWith _, .ok (drainFd, fillFd)⟩ =>
    T drainFd.asFd = none ∧ T fillFd.asFd = none ∧ drainFd ≠ fillFd ∧
      T' = update (update T drainFd.asFd (some .drainEnd)) fillFd.asFd (some .fillEnd)
  | ⟨.close fd, _⟩ => T' = update T fd.asFd none
  | _ => T' = T

/-- Opened since the table was `base`, and open still. -/
def Held (base T : FdTable) (fd : BorrowedFd) : Prop := base fd = none ∧ T fd ≠ none

/-- The calls that a transfer from `r` to `w` may make: it resizes, splices through and closes only
what it has opened itself, and waits for its own two ends only. -/
def Licit (base : FdTable) (r w : BorrowedFd) (T : FdTable) : SysCall → Prop
  | .pipeWith flags => flags = ⟨true, true⟩
  | .fcntlSetpipeSize fd _ => Held base T fd
  | .fcntlGetpipeSize fd => Held base T fd
  | .close fd => Held base T fd.asFd
  | .splice fdIn offIn fdOut offOut len flags =>
    (fdIn = r ∧ offOut = none ∧ base fdOut = none ∧ T fdOut = some .fillEnd ∨
      fdOut = w ∧ offIn = none ∧ base fdIn = none ∧ T fdIn = some .drainEnd) ∧
      0 < len ∧ flags = .NONBLOCK
  | .pollReadReady fd => fd = r
  | .pollWriteReady fd => fd = w
  | .tryIo fd .readable => fd = r
  | .tryIo fd .writable => fd = w
  | .pollShutdown fd => fd = w
  | .suspend => True

/-- The ends that a direction has opened for itself: the drain end and the fill end. -/
abbrev PipeEnds := Option OwnedFd × Option OwnedFd

/-- The calls of a direction from `r` to `w` whose pipe has the ends `own`: it makes one pipe only,
fills it from `r` and drains it into `w`. -/
def Via (own : PipeEnds) (r w : BorrowedFd) : SysCall → Prop
  | .pipeWith _ => own = (none, none)
  | .fcntlSetpipeSize fd _ => own.1 = some ⟨fd⟩ ∨ own.2 = some ⟨fd⟩
  | .fcntlGetpipeSize fd => own.1 = some ⟨fd⟩ ∨ own.2 = some ⟨fd⟩
  | .close fd => own.1 = some fd ∨ own.2 = some fd
  | .splice fdIn _ fdOut _ _ _ => fdIn = r ∧ own.2 = some ⟨fdOut⟩ ∨ own.1 = some ⟨fdIn⟩ ∧ fdOut = w
  | _ => True

/-- Licit, and through the direction's own pipe. -/
def LicitVia (base : FdTable) (own : PipeEnds) (r w : BorrowedFd) (T : FdTable) (c : SysCall) :
    Prop :=
  Licit base r w T c ∧ Via own r w c

/-- The pipes made so far, oldest first. -/
def makes (made : List (OwnedFd × OwnedFd)) : Event sys → List (OwnedFd × OwnedFd)
  | ⟨.pipeWith _, .ok ends⟩ => made ++ [ends]
  | _ => made

def madeEnds (made : List (OwnedFd × OwnedFd)) (i : ℕ) : PipeEnds :=
  (made[i]?.map Prod.fst, made[i]?.map Prod.snd)

namespace FdTable

/-- The table with the ends that the pipe owns. -/
def hold (T : FdTable) (p : Pipe) : FdTable := fun fd =>
  if p.drainFd = some ⟨fd⟩ then some .drainEnd
  else if p.fillFd = some ⟨fd⟩ then some .fillEnd
  else T fd

end FdTable

/-- The pipe's ends are two, and nobody else's. -/
structure Apart (T : FdTable) (p : Pipe) : Prop where
  drain : ∀ fd, p.drainFd = some fd → T fd.asFd = none
  fill : ∀ fd, p.fillFd = some fd → T fd.asFd = none
  ends : ∀ fd, p.drainFd = some fd → p.fillFd ≠ some fd

/-- A pipe whose ends, as far as it has them still, are `own`. -/
structure Owns (T : FdTable) (own : PipeEnds) (p : Pipe) : Prop extends Apart T p where
  drainOwn : ∀ fd, p.drainFd = some fd → own.1 = some fd
  fillOwn : ∀ fd, p.fillFd = some fd → own.2 = some fd

/-! ### The table -/

section Table

variable {T base : FdTable} {own : PipeEnds} {p q : Pipe} {fd : OwnedFd} {r w : BorrowedFd}
  {c : SysCall}

theorem hold_eq_none {n : BorrowedFd} (h : T.hold p n = none) :
    T n = none ∧ p.drainFd ≠ some ⟨n⟩ ∧ p.fillFd ≠ some ⟨n⟩ := by
  unfold FdTable.hold at h
  split at h
  · cases h
  · split at h
    · cases h
    · rename_i hd hf
      exact ⟨h, hd, hf⟩

theorem hold_drain (hd : p.drainFd = some fd) : T.hold p fd.asFd = some .drainEnd := by
  simp [FdTable.hold, OwnedFd.asFd, hd]

theorem Apart.hold_fill (h : Apart T p) (hf : p.fillFd = some fd) :
    T.hold p fd.asFd = some .fillEnd := by
  have hd : p.drainFd ≠ some fd := fun hd => h.ends fd hd hf
  simp [FdTable.hold, OwnedFd.asFd, hd, hf]

theorem Apart.held_fill (h : Apart T p) (hf : p.fillFd = some fd) :
    Held T (T.hold p) fd.asFd := by
  refine ⟨h.fill fd hf, ?_⟩
  rw [h.hold_fill hf]
  simp

theorem Apart.held_drain (h : Apart T p) (hd : p.drainFd = some fd) :
    Held T (T.hold p) fd.asFd := by
  refine ⟨h.drain fd hd, ?_⟩
  rw [hold_drain hd]
  simp

theorem Apart.close_fill (h : Apart T p) (hf : p.fillFd = some fd) :
    update (T.hold p) fd.asFd none = T.hold p.setFillDone := by
  have hfree := h.fill fd hf
  have hd : p.drainFd ≠ some fd := fun hd => h.ends fd hd hf
  funext n
  by_cases hn : n = fd.asFd
  · subst hn
    simp [FdTable.hold, OwnedFd.asFd, hd] at hfree ⊢
    exact hfree.symm
  · have hne : p.fillFd ≠ some ⟨n⟩ := by
      rw [hf]
      rintro ⟨⟩
      exact hn rfl
    simp [FdTable.hold, update_of_ne hn, hne]

theorem Apart.close_drain (h : Apart T p) (hd : p.drainFd = some fd) :
    update (T.hold p) fd.asFd none = T.hold p.setDrainDone := by
  have hfree := h.drain fd hd
  have hf : p.fillFd ≠ some fd := h.ends fd hd
  funext n
  by_cases hn : n = fd.asFd
  · subst hn
    simp [FdTable.hold, OwnedFd.asFd, hf] at hfree ⊢
    exact hfree.symm
  · have hne : p.drainFd ≠ some ⟨n⟩ := by
      rw [hd]
      rintro ⟨⟩
      exact hn rfl
    by_cases hnf : p.fillFd = some ⟨n⟩ <;> simp [FdTable.hold, update_of_ne hn, hne, hnf]

theorem hold_done (hd : p.drainFd = none) (hf : p.fillFd = none) : T.hold p = T := by
  funext n
  simp [FdTable.hold, hd, hf]

theorem Apart.setFillDone (h : Apart T p) : Apart T p.setFillDone where
  drain := h.drain
  fill := by simp
  ends := by simp

theorem Apart.setDrainDone (h : Apart T p) : Apart T p.setDrainDone where
  drain := by simp
  fill := h.fill
  ends := by simp

theorem Owns.setFillDone (h : Owns T own p) : Owns T own p.setFillDone where
  toApart := h.toApart.setFillDone
  drainOwn := h.drainOwn
  fillOwn := by simp

theorem Owns.setDrainDone (h : Owns T own p) : Owns T own p.setDrainDone where
  toApart := h.toApart.setDrainDone
  drainOwn := by simp
  fillOwn := h.fillOwn

theorem Owns.close_fill_via (h : Owns T own p) (hf : p.fillFd = some fd) :
    LicitVia T own r w (T.hold p) (.close fd) :=
  ⟨h.held_fill hf, .inr (h.fillOwn fd hf)⟩

theorem Owns.close_drain_via (h : Owns T own p) (hd : p.drainFd = some fd) :
    LicitVia T own r w (T.hold p) (.close fd) :=
  ⟨h.held_drain hd, .inl (h.drainOwn fd hd)⟩

/-- Two pipes that are apart can be added in either order. -/
theorem Apart.swap (hp : Apart T p) (hq : Apart (T.hold p) q) :
    (T.hold p).hold q = (T.hold q).hold p ∧ Apart T q ∧ Apart (T.hold q) p := by
  have hdrain := fun fd h => hold_eq_none (hq.drain fd h)
  have hfill := fun fd h => hold_eq_none (hq.fill fd h)
  have free {fd : OwnedFd} (hT : T fd.asFd = none) (hd : q.drainFd ≠ some fd)
      (hf : q.fillFd ≠ some fd) : T.hold q fd.asFd = none := by
    simp [FdTable.hold, OwnedFd.asFd, hd, hf] at hT ⊢
    exact hT
  refine ⟨?_, ⟨fun fd h => (hdrain fd h).1, fun fd h => (hfill fd h).1, hq.ends⟩,
    ⟨fun fd h => ?_, fun fd h => ?_, hp.ends⟩⟩
  · funext n
    by_cases hd : q.drainFd = some ⟨n⟩
    · obtain ⟨-, hpd, hpf⟩ := hdrain _ hd
      simp only [OwnedFd.asFd] at hpd hpf
      simp [FdTable.hold, hd, hpd, hpf]
    · by_cases hf : q.fillFd = some ⟨n⟩
      · obtain ⟨-, hpd, hpf⟩ := hfill _ hf
        simp only [OwnedFd.asFd] at hpd hpf
        simp [FdTable.hold, hd, hf, hpd, hpf]
      · simp [FdTable.hold, hd, hf]
  · exact free (hp.drain fd h) (fun hd => (hdrain fd hd).2.1 h) fun hf => (hfill fd hf).2.1 h
  · exact free (hp.fill fd h) (fun hd => (hdrain fd hd).2.2 h) fun hf => (hfill fd hf).2.2 h

theorem Licit.of_hold (h : Licit (base.hold p) r w T c) : Licit base r w T c := by
  cases c with
  | pipeWith | pollReadReady | pollWriteReady | pollShutdown | suspend => exact h
  | tryIo fd interest => cases interest <;> exact h
  | fcntlSetpipeSize | fcntlGetpipeSize | close => exact ⟨(hold_eq_none h.1).1, h.2⟩
  | splice =>
    obtain ⟨⟨hr, hoff, hb, hT⟩ | ⟨hw, hoff, hb, hT⟩, hlen⟩ := h
    · exact ⟨.inl ⟨hr, hoff, (hold_eq_none hb).1, hT⟩, hlen⟩
    · exact ⟨.inr ⟨hw, hoff, (hold_eq_none hb).1, hT⟩, hlen⟩

theorem LicitVia.of_hold (h : LicitVia (base.hold p) own r w T c) : LicitVia base own r w T c :=
  ⟨h.1.of_hold, h.2⟩

end Table

/-! ### Pipes -/

/-- What an iteration does to the ends it owns: it keeps them, or gives one up. -/
def Pipe.Shrinks (p p' : Pipe) : Prop := p' = p ∨ p' = p.setFillDone ∨ p' = p.setDrainDone

/-- The outcome of a construction: the table has the new pipe's ends, or is the old one. -/
def Owning {α : Type} (pipe : α → Pipe) (T : FdTable) (own : PipeEnds) :
    Outcome sys (IoResult α) → FdTable → Prop
  | .val (.ok a), T' => Owns T own (pipe a) ∧ T' = T.hold (pipe a)
  | .val (.error _), T' => T' = T
  | .fault _, _ => False

section Pipes

variable {T : FdTable} {own : PipeEnds} {p p' : Pipe} {r w : BorrowedFd}

theorem wp_close {G : FdTable → SysCall → Prop} {α : Type} {next : Unit → Prog sys α}
    {Q : Outcome sys α → FdTable → Prop} {fd : OwnedFd} (hG : G T (.close fd))
    (h : (next ()).wp descriptors G Q (update T fd.asFd none)) :
    (sysCall (.close fd) >>= next).wp descriptors G Q T := by
  refine ⟨hG, ?_⟩
  rintro ⟨⟩ T' rfl
  exact h

theorem wp_drop (h : Owns T own p) :
    p.drop.wp descriptors (LicitVia T own r w) (fun o T' => o = .val () ∧ T' = T) (T.hold p) := by
  obtain ⟨_ | drainFd, _ | fillFd, size⟩ := p
  · exact ⟨rfl, hold_done rfl rfl⟩
  · refine wp_close (h.close_fill_via rfl) ⟨rfl, ?_⟩
    rw [h.close_fill rfl, hold_done rfl rfl]
  · refine wp_close (h.close_drain_via rfl) ⟨rfl, ?_⟩
    rw [h.close_drain rfl, hold_done rfl rfl]
  · refine wp_close (h.close_drain_via rfl) ?_
    rw [h.close_drain rfl]
    have h := h.setDrainDone
    refine wp_close (h.close_fill_via rfl) ⟨rfl, ?_⟩
    rw [h.close_fill rfl, hold_done rfl rfl]

theorem setFillDone_of_none (hf : p.fillFd = none) : p.setFillDone = p := by
  cases p
  cases hf
  rfl

theorem setDrainDone_of_none (hd : p.drainFd = none) : p.setDrainDone = p := by
  cases p
  cases hd
  rfl

theorem lost_self : p.fds.filter (fun fd => fd ∉ p.fds) = [] := by
  apply List.filter_eq_nil_iff.mpr
  intro fd hfd
  simpa using hfd

theorem Apart.lost_fill (h : Apart T p) :
    p.fds.filter (fun fd => fd ∉ p.setFillDone.fds) = p.fillFd.toList := by
  obtain ⟨drainFd, fillFd, size⟩ := p
  have hends := h.ends
  cases drainFd <;> cases fillFd <;> simp_all [Pipe.fds, Pipe.setFillDone, eq_comm]

theorem Apart.lost_drain (h : Apart T p) :
    p.fds.filter (fun fd => fd ∉ p.setDrainDone.fds) = p.drainFd.toList := by
  obtain ⟨drainFd, fillFd, size⟩ := p
  have hends := h.ends
  cases drainFd <;> cases fillFd <;> simp_all [Pipe.fds, Pipe.setDrainDone, eq_comm]

theorem wp_dropLost (h : Owns T own p) (hs : p.Shrinks p') :
    (p.dropLost p').wp descriptors (LicitVia T own r w)
      (fun o T' => o = .val () ∧ T' = T.hold p') (T.hold p) := by
  rcases hs with rfl | rfl | rfl
  · rw [Pipe.dropLost, lost_self]
    exact ⟨rfl, rfl⟩
  · rw [Pipe.dropLost, h.lost_fill]
    cases hf : p.fillFd with
    | none => exact ⟨rfl, by rw [setFillDone_of_none hf]⟩
    | some fd =>
      exact wp_close (h.close_fill_via hf) ⟨rfl, h.close_fill hf⟩
  · rw [Pipe.dropLost, h.lost_drain]
    cases hd : p.drainFd with
    | none => exact ⟨rfl, by rw [setDrainDone_of_none hd]⟩
    | some fd =>
      exact wp_close (h.close_drain_via hd) ⟨rfl, h.close_drain hd⟩

/-- The two descriptors of a new pipe are the pipe's, whatever its size. -/
theorem hold_new {drainFd fillFd : OwnedFd} (hne : drainFd ≠ fillFd) (size : NonZeroUsize) :
    update (update T drainFd.asFd (some .drainEnd)) fillFd.asFd (some .fillEnd) =
      T.hold ⟨some drainFd, some fillFd, size⟩ := by
  obtain ⟨d⟩ := drainFd
  obtain ⟨f⟩ := fillFd
  have hne : d ≠ f := fun h => hne (h ▸ rfl)
  funext n
  by_cases hf : n = f
  · subst hf
    simp [FdTable.hold, OwnedFd.asFd, hne]
  · by_cases hd : n = d
    · subst hd
      simp [FdTable.hold, OwnedFd.asFd, update_of_ne hf]
    · have hd' : ¬ d = n := fun h => hd h.symm
      have hf' : ¬ f = n := fun h => hf h.symm
      simp [FdTable.hold, OwnedFd.asFd, update_of_ne hf, update_of_ne hd, hd', hf']

section Create

variable {drainFd fillFd : OwnedFd} {size : NonZeroUsize}

theorem wp_abandon (h : Owns T own ⟨some drainFd, some fillFd, size⟩) (e : IoError) :
    (Pipe.abandon drainFd fillFd e).wp descriptors (LicitVia T own r w) (Owning id T own)
      (T.hold ⟨some drainFd, some fillFd, size⟩) := by
  refine wp_close (h.close_fill_via rfl) ?_
  rw [h.close_fill rfl]
  have h := h.setFillDone
  refine wp_close (h.close_drain_via rfl) ?_
  rw [h.close_drain rfl]
  exact hold_done rfl rfl

theorem wp_sized (h : Owns T own ⟨some drainFd, some fillFd, size⟩) (n : ℕ) :
    (Pipe.sized drainFd fillFd n).wp descriptors (LicitVia T own r w) (Owning id T own)
      (T.hold ⟨some drainFd, some fillFd, size⟩) := by
  unfold Pipe.sized
  split
  · exact ⟨⟨⟨h.drain, h.fill, h.ends⟩, h.drainOwn, h.fillOwn⟩, rfl⟩
  · exact wp_abandon h _

end Create

theorem madeEnds_new (made : List (OwnedFd × OwnedFd)) (ends : OwnedFd × OwnedFd) :
    madeEnds (made ++ [ends]) made.length = (some ends.1, some ends.2) := by
  simp [madeEnds]

theorem madeEnds_none (made : List (OwnedFd × OwnedFd)) :
    madeEnds made made.length = (none, none) := by
  simp [madeEnds]

/-- Through a pipe that is there, nothing more is made. -/
theorem LicitVia.makes {made : List (OwnedFd × OwnedFd)} {T' : FdTable} {e : Event sys}
    (h : LicitVia T own r w T' e.call) (hown : own ≠ (none, none)) : makes made e = made := by
  obtain ⟨c, a⟩ := e
  cases c with
  | pipeWith => exact absurd h.2 hown
  | _ => rfl

/-- A construction makes the pipe that it returns; one that fails may have made one. -/
def Grown {α : Type} (made : List (OwnedFd × OwnedFd)) :
    Outcome sys (IoResult α) → List (OwnedFd × OwnedFd) → Prop
  | .val (.ok _), made' => ∃ ends, made' = made ++ [ends]
  | .val (.error _), made' => made <+: made'
  | .fault _, _ => False

/-- A construction through its own new pipe, which is the next one made. -/
theorem wp_made {made : List (OwnedFd × OwnedFd)} {ends : OwnedFd × OwnedFd} {T' : FdTable}
    {c : Prog sys (IoResult Pipe)}
    (h : c.wp descriptors (LicitVia T (some ends.1, some ends.2) r w)
      (Owning id T (some ends.1, some ends.2)) T') :
    c.wp (descriptors.ghost makes) (fun x => LicitVia T (madeEnds x.2 made.length) r w x.1)
      (fun o x => Owning id T (madeEnds x.2 made.length) o x.1 ∧ Grown made o x.2)
      (T', made ++ [ends]) := by
  have hkeep := Prog.wp_ghost_keep (x := made ++ [ends]) h fun _ _ hc => hc.makes (by simp)
  refine Prog.wp_guard (Prog.wp_mono hkeep ?_) ?_
  · rintro o ⟨T'', _⟩ ⟨howning, rfl⟩
    rw [madeEnds_new]
    refine ⟨howning, ?_⟩
    rcases o with (e | p) | why
    · exact made.prefix_append [ends]
    · exact ⟨ends, rfl⟩
    · exact howning.elim
  · rintro ⟨T'', _⟩ c ⟨hc, rfl⟩
    rw [madeEnds_new]
    exact hc

/-- Every failing path of `Pipe::new` gives the descriptors back, and a pipe that it returns is the
one it has made. -/
theorem wp_create_made (made : List (OwnedFd × OwnedFd)) :
    Pipe.create.wp (descriptors.ghost makes)
      (fun x => LicitVia T (madeEnds x.2 made.length) r w x.1)
      (fun o x => Owning id T (madeEnds x.2 made.length) o x.1 ∧ Grown made o x.2) (T, made) := by
  refine ⟨⟨rfl, madeEnds_none made⟩, ?_⟩
  rintro (e | ⟨drainFd, fillFd⟩) ⟨T', made'⟩ ⟨hT, rfl⟩
  · exact ⟨hT, List.prefix_rfl⟩
  obtain ⟨hd, hf, hne, rfl⟩ := hT
  rw [hold_new hne MAXIMUM_PIPE_SIZE]
  have hown : Owns T (some drainFd, some fillFd)
      ⟨some drainFd, some fillFd, MAXIMUM_PIPE_SIZE⟩ := by
    refine ⟨⟨?_, ?_, ?_⟩, ?_, ?_⟩ <;> rintro fd ⟨⟩
    · exact hd
    · exact hf
    · rintro ⟨⟩
      exact hne rfl
    · rfl
    · rfl
  have hsize : LicitVia T (madeEnds (made ++ [(drainFd, fillFd)]) made.length) r w
      (T.hold ⟨some drainFd, some fillFd, MAXIMUM_PIPE_SIZE⟩)
      (.fcntlGetpipeSize drainFd.asFd) := by
    rw [madeEnds_new]
    exact ⟨hown.held_drain rfl, .inl rfl⟩
  refine ⟨hsize, ?_⟩
  rintro (e | n) ⟨T', made'⟩ ⟨rfl, rfl⟩
  · refine ⟨hsize, ?_⟩
    rintro (e | n) ⟨T', made'⟩ ⟨rfl, rfl⟩
    · exact wp_made (wp_abandon hown e)
    · exact wp_made (wp_sized hown n)
  · exact wp_made (wp_sized hown n)

/-- Whatever its ends are, the pipe is the only one the construction leaves open. -/
def Built {α : Type} (pipe : α → Pipe) (T : FdTable) (o : Outcome sys (IoResult α)) (T' : FdTable) :
    Prop :=
  ∃ own, Owning pipe T own o T'

theorem wp_create : Pipe.create.wp descriptors (Licit T r w) (Built id T) T := by
  have hmade := wp_create_made (T := T) (r := r) (w := w) []
  refine Prog.wp_ghost.mp (Prog.wp_guard (Prog.wp_mono hmade ?_) ?_)
  · intro o x h
    exact ⟨_, h.1⟩
  · intro x c h
    exact h.1

theorem wp_discard (h : Owns T own p) (e : IoError) :
    (p.discard e).wp descriptors (LicitVia T own r w) (Owning id T own) (T.hold p) := by
  refine Prog.wp_bind.mpr (Prog.wp_mono (wp_drop h) ?_)
  rintro o T' ⟨rfl, rfl⟩
  rfl

theorem wp_resize (h : Owns T own p) (n : ℕ) :
    (p.resize n).wp descriptors (LicitVia T own r w) (Owning id T own) (T.hold p) := by
  unfold Pipe.resize
  split
  · exact wp_discard h _
  · rename_i fillFd hf
    refine ⟨⟨h.held_fill hf, .inr (h.fillOwn fillFd hf)⟩, ?_⟩
    rintro (e | size) T' rfl
    · exact wp_discard h e
    · cases hsize : NonZeroUsize.new size with
      | some size' =>
        simp only [Prog.bind, hsize]
        exact ⟨⟨⟨h.drain, h.fill, h.ends⟩, h.drainOwn, h.fillOwn⟩, rfl⟩
      | none =>
        simp only [Prog.bind, hsize]
        exact wp_discard h _

end Pipes

/-! ### Contexts -/

section Contexts

variable {T : FdTable} {r w : BorrowedFd} {α β : Type}

/-- A value built on another keeps its pipe. -/
theorem wp_map {pipe : α → Pipe} {pipe' : β → Pipe} {f : α → β} {p : Prog sys (IoResult α)}
    (hf : ∀ a, pipe' (f a) = pipe a) {T₀ : FdTable}
    (h : p.wp descriptors (Licit T r w) (Built pipe T) T₀) :
    (p >>= fun a => .ret (a.map f)).wp descriptors (Licit T r w) (Built pipe' T) T₀ := by
  refine Prog.wp_bind.mpr (Prog.wp_mono h ?_)
  rintro ((e | a) | why) T' ⟨own, hT⟩
  · exact ⟨own, hT⟩
  · obtain ⟨howns, rfl⟩ := hT
    refine ⟨own, ?_⟩
    change Owns T own (pipe' (f a)) ∧ T.hold (pipe a) = T.hold (pipe' (f a))
    rw [hf a]
    exact ⟨howns, rfl⟩
  · exact hT.elim

theorem wp_createInputFile (fLen : UInt64) (fOffsetStart fOffsetEnd : Option UInt64) :
    (SpliceCtx.createInputFile fLen fOffsetStart fOffsetEnd).wp descriptors (Licit T r w)
      (Built SpliceCtx.pipe T) T := by
  unfold SpliceCtx.createInputFile
  split
  · exact ⟨(none, none), rfl⟩
  · split
    · exact ⟨(none, none), rfl⟩
    · exact wp_map (fun _ => rfl) wp_create

theorem wp_createOutputFile (fLen : UInt64) (fOffsetStart fOffsetEnd : Option UInt64) :
    (SpliceCtx.createOutputFile fLen fOffsetStart fOffsetEnd).wp descriptors (Licit T r w)
      (Built SpliceCtx.pipe T) T := by
  unfold SpliceCtx.createOutputFile
  split
  · exact ⟨(none, none), rfl⟩
  · split
    · exact ⟨(none, none), rfl⟩
    · exact wp_map (fun _ => rfl) wp_create

/-- However a context is put together, it owns the ends of one pipe, and an error owns nothing. -/
theorem wp_build (b : Builder) :
    b.build.wp descriptors (Licit T r w) (Built SpliceCtx.pipe T) T := by
  induction b with
  | new => exact wp_map (fun _ => rfl) wp_create
  | inputFile fLen fOffsetStart fOffsetEnd => exact wp_createInputFile fLen fOffsetStart fOffsetEnd
  | outputFile fLen fOffsetStart fOffsetEnd =>
    exact wp_createOutputFile fLen fOffsetStart fOffsetEnd
  | targetLen b size ih => exact wp_map (fun _ => rfl) ih
  | pipeSize b size ih =>
    refine Prog.wp_bind.mpr (Prog.wp_mono ih ?_)
    rintro ((e | ctx) | why) T' ⟨own, hT⟩
    · exact ⟨own, hT⟩
    · obtain ⟨howns, rfl⟩ := hT
      have hresize := wp_resize (r := r) (w := w) howns size
      refine wp_map (fun _ => rfl) (Prog.wp_guard (Prog.wp_mono hresize ?_) ?_)
      · exact fun o T' h => ⟨own, h⟩
      · exact fun T' c h => h.1
    · exact hT.elim

/-- The first context of a direction is built on the next pipe made. -/
theorem wp_create_ctx (made : List (OwnedFd × OwnedFd)) :
    SpliceCtx.create.wp (descriptors.ghost makes)
      (fun x => LicitVia T (madeEnds x.2 made.length) r w x.1)
      (fun o x => Owning SpliceCtx.pipe T (madeEnds x.2 made.length) o x.1 ∧ Grown made o x.2)
      (T, made) := by
  refine Prog.wp_bind.mpr (Prog.wp_mono (wp_create_made made) ?_)
  rintro ((e | pipe) | why) x h
  · exact h
  · exact h
  · exact h.1.elim

end Contexts

/-! ### The loop -/

theorem Iteration.shrinks {io io' : SpliceIo} {t : Turn calls (IoResult Unit)}
    (hi : Iteration io t io') : io.splicer.pipe.Shrinks io'.splicer.pipe := by
  cases hi with
  | pending | failed | clean | fault => exact .inl rfl
  | fill _ hf _ =>
    cases hf with
    | target | eof => exact .inr (.inl rfl)
    | gate | failed | moved => exact .inl rfl
  | drain _ hd =>
    cases hd with
    | closed => exact .inr (.inr rfl)
    | gate | empty | failed | stuck | moved => exact .inl rfl

theorem Owns.shrinks {T : FdTable} {own : PipeEnds} {p p' : Pipe} (h : Owns T own p)
    (hs : p.Shrinks p') : Owns T own p' := by
  rcases hs with rfl | rfl | rfl
  · exact h
  · exact h.setFillDone
  · exact h.setDrainDone

section Loop

variable {T B : FdTable} {own : PipeEnds} {r w : AsyncFd} {io : SpliceIo} {c : Call}

theorem implement_keeps (pipe : Pipe) (c : Call) :
    (implement r w pipe c).wp descriptors (fun _ _ => True) (fun _ T' => T' = T) T := by
  cases c with
  | pollReadReady | tryIoRead =>
    cases r with
    | socket fd => exact ⟨trivial, fun a T' h => h⟩
    | file fd => rfl
  | pollWriteReady | tryIoWrite =>
    cases w with
    | socket fd => exact ⟨trivial, fun a T' h => h⟩
    | file fd => rfl
  | spliceIn offIn maxLen =>
    cases hf : pipe.fillFd with
    | none =>
      simp only [implement, hf]
      rfl
    | some fd =>
      simp only [implement, hf]
      exact ⟨trivial, fun a T' h => h⟩
  | spliceOut offOut maxLen =>
    cases hd : pipe.drainFd with
    | none =>
      simp only [implement, hd]
      rfl
    | some fd =>
      simp only [implement, hd]
      exact ⟨trivial, fun a T' h => h⟩
  | pollShutdown => exact ⟨trivial, fun a T' h => h⟩

/-- Between its calls the loop opens and closes nothing. -/
theorem through_descriptors {pipe : Pipe} {T' : FdTable} {e : Event calls}
    (h : (descriptors.through (implement r w pipe)) T e T') : T' = T := by
  obtain ⟨es, hr, ha⟩ := h
  exact Prog.wp_post (implement_keeps pipe e.call) hr ha

theorem wp_implement (hA : Owns T own io.splicer.pipe) (hask : Asks io c) :
    (implement r w io.splicer.pipe c).wp descriptors (LicitVia T own r.asFd w.asFd) Prog.Returns
      (T.hold io.splicer.pipe) := by
  cases c with
  | pollReadReady | tryIoRead =>
    cases r with
    | socket fd => exact ⟨⟨rfl, trivial⟩, fun a T' h => ⟨a, rfl⟩⟩
    | file fd => exact ⟨_, rfl⟩
  | pollWriteReady | tryIoWrite =>
    cases w with
    | socket fd => exact ⟨⟨rfl, trivial⟩, fun a T' h => ⟨a, rfl⟩⟩
    | file fd => exact ⟨_, rfl⟩
  | spliceIn offIn maxLen =>
    obtain ⟨-, hopen, -, -, hpos⟩ := hask
    obtain ⟨fd, hf⟩ := Pipe.fill_of_open hopen
    simp only [implement, hf]
    exact ⟨⟨⟨.inl ⟨rfl, rfl, hA.fill fd hf, hA.hold_fill hf⟩, hpos, rfl⟩,
      .inl ⟨rfl, hA.fillOwn fd hf⟩⟩, fun a T' h => ⟨_, rfl⟩⟩
  | spliceOut offOut maxLen =>
    obtain ⟨-, hopen, -, -, hpos⟩ := hask
    obtain ⟨fd, hd⟩ := Pipe.drain_of_open hopen
    simp only [implement, hd]
    exact ⟨⟨⟨.inr ⟨rfl, rfl, hA.drain fd hd, hold_drain hd⟩, hpos, rfl⟩,
      .inr ⟨hA.drainOwn fd hd, rfl⟩⟩, fun a T' h => ⟨_, rfl⟩⟩
  | pollShutdown => exact ⟨⟨rfl, trivial⟩, fun a T' h => ⟨a, rfl⟩⟩

/-- The outcome of an iteration: the ends it still owns, or, after a panic, none. -/
def Leaves (T : FdTable) (own : PipeEnds) (B : FdTable) :
    Outcome sys (SpliceIo × Flow (IoResult Unit)) → FdTable → Prop
  | .val (io, _), T' => Owns T own io.splicer.pipe ∧ T' = T.hold io.splicer.pipe
  | .fault _, T' => T' = B

theorem wp_liveBody {G : FdTable → SysCall → Prop} {release : SpliceIo → Prog sys Unit}
    (hG : ∀ T' c, LicitVia T own r.asFd w.asFd T' c → G T' c) (hA : Owns T own io.splicer.pipe)
    (hrelease : (release io).wp descriptors G (fun o T' => o = .val () ∧ T' = B)
      (T.hold io.splicer.pipe)) :
    (SpliceIo.liveBody r w release io).wp descriptors G (Leaves T own B)
      (T.hold io.splicer.pipe) := by
  refine Prog.wp_bind.mpr (Prog.wp_unwind (Prog.wp_interp ?_))
  have hloop : (SpliceIo.loopBody io).wp (descriptors.through (implement r w io.splicer.pipe))
      (fun _ => Asks io) (fun o _ => match o with
        | .val (io', _) => io.splicer.pipe.Shrinks io'.splicer.pipe
        | .fault _ => True) (T.hold io.splicer.pipe) := by
    refine wp_loopBody ?_ ?_
    · intro t io' T' hi _
      exact hi.shrinks
    · intro es why T' _ _
      trivial
  have hkeep := Prog.wp_keep (P := (· = T.hold io.splicer.pipe)) ?_ hloop rfl
  · refine Prog.wp_guard (Prog.wp_mono hkeep ?_) ?_
    · rintro (⟨io', flow⟩ | why) T' ⟨rfl, hs⟩
      · refine Prog.wp_bind.mpr (Prog.wp_mono (Prog.wp_guard (wp_dropLost hA hs) hG) ?_)
        rintro o T' ⟨rfl, rfl⟩
        exact ⟨hA.shrinks hs, rfl⟩
      · refine Prog.wp_mono hrelease ?_
        rintro o T' ⟨rfl, rfl⟩
        rfl
    · rintro T' c ⟨rfl, hask⟩
      exact Prog.wp_guard (wp_implement hA hask) hG
  · rintro T' e T'' rfl he
    exact through_descriptors he

end Loop

/-! ### One direction -/

/-- However a transfer ends, the table is the one before it; only running out of fuel is no end. -/
def Released {α : Type} (T : FdTable) : Outcome sys (Option α) → FdTable → Prop
  | .val none, _ => True
  | .val (some _), T' => T' = T
  | .fault _, T' => T' = T

theorem Released.table {α : Type} {T T' : FdTable} {o : Outcome sys (Option α)}
    (h : Released T o T') (ho : o ≠ .val none) : T' = T := by
  rcases o with (_ | done) | why
  · exact absurd rfl ho
  · exact h
  · exact h

/-- What has been polled owns its pipe, unless a panic has released everything. -/
def Holding {α : Type} (pipe : α → Pipe) (T : FdTable) (own : PipeEnds) (B : FdTable) {β : Type} :
    Outcome sys (Option (α × β)) → FdTable → Prop
  | .val none, _ => True
  | .val (some (a, _)), T' => Owns T own (pipe a) ∧ T' = T.hold (pipe a)
  | .fault _, T' => T' = B

section OneDirection

variable {T : FdTable} {own : PipeEnds} {r w : AsyncFd} {fuel : ℕ}

theorem wp_executeLive (fuel : ℕ) (io : SpliceIo) (hA : Owns T own io.splicer.pipe) :
    (SpliceIo.executeLive fuel r w io).wp descriptors (LicitVia T own r.asFd w.asFd) (Released T)
      (T.hold io.splicer.pipe) := by
  have hawait : (((SpliceIo.liveBody r w fun io => io.splicer.pipe.drop).future
      (sysCall .suspend)).await fuel io).wp descriptors (LicitVia T own r.asFd w.asFd)
      (Holding (fun io => io.splicer.pipe) T own T) (T.hold io.splicer.pipe) := by
    refine Machine.wp_await_future
      (fun _ io T' => Owns T own io.splicer.pipe ∧ T' = T.hold io.splicer.pipe)
      ?_ (fun _ _ _ => trivial) ⟨hA, rfl⟩
    rintro n io _ ⟨hA, rfl⟩
    refine Prog.wp_mono (wp_liveBody (fun _ _ h => h) hA (wp_drop hA)) ?_
    rintro (⟨io', _ | _ | res⟩ | why) T' hT
    · exact hT
    · refine ⟨⟨trivial, trivial⟩, ?_⟩
      rintro (_ | _) T'' rfl <;> exact hT
    · exact hT
    · exact hT
  refine Prog.wp_bind.mpr (Prog.wp_mono hawait ?_)
  rintro ((_ | ⟨io', done⟩) | why) T' hT
  · trivial
  · obtain ⟨hA', rfl⟩ := hT
    refine Prog.wp_bind.mpr (Prog.wp_mono (wp_drop hA') ?_)
    rintro o T' ⟨rfl, rfl⟩
    rfl
  · exact hT

theorem wp_transfer (b : Builder) :
    (transfer fuel b r w).wp descriptors (Licit T r.asFd w.asFd) (Released T) T := by
  refine Prog.wp_bind.mpr (Prog.wp_mono (wp_build b) ?_)
  rintro ((e | ctx) | why) T' ⟨own, hT⟩
  · exact hT
  · obtain ⟨hA, rfl⟩ := hT
    have hlive := wp_executeLive (r := r) (w := w) fuel (.ofCtx ctx) hA
    refine Prog.wp_bind.mpr (Prog.wp_mono (Prog.wp_guard hlive fun _ _ hc => hc.1) ?_)
    rintro ((_ | done) | why) T' hT <;> exact hT
  · exact hT.elim

end OneDirection

/-! ### Two directions -/

/-- Both pipes, on top of the table `T`. -/
structure OwnsBoth (T : FdTable) (own₁ own₂ : PipeEnds) (p q : Pipe) (T' : FdTable) : Prop where
  first : Owns T own₁ p
  second : Owns (T.hold p) own₂ q
  table : T' = (T.hold p).hold q

theorem OwnsBoth.swap {T T' : FdTable} {own₁ own₂ : PipeEnds} {p q : Pipe}
    (h : OwnsBoth T own₁ own₂ p q T') : OwnsBoth T own₂ own₁ q p T' := by
  obtain ⟨htable, hq, hp⟩ := h.first.toApart.swap h.second.toApart
  exact ⟨⟨hq, h.second.drainOwn, h.second.fillOwn⟩, ⟨hp, h.first.drainOwn, h.first.fillOwn⟩,
    h.table.trans htable⟩

section TwoDirections

variable {T T' : FdTable} {own own₁ own₂ : PipeEnds} {sl sr r w : AsyncFd} {fuel : ℕ}
  {io : SpliceIo} {G : FdTable → SysCall → Prop}

/-- Each call of a transfer in both directions is one direction's, and keeps to that direction's
ends and pipe. -/
def LicitBoth (T : FdTable) (own₁ own₂ : PipeEnds) (sl sr : BorrowedFd) (T' : FdTable)
    (c : SysCall) : Prop :=
  LicitVia T own₁ sl sr T' c ∨ LicitVia T own₂ sr sl T' c

theorem wp_drop_both {p q : Pipe} (h : OwnsBoth T own₁ own₂ p q T') :
    (p.drop >>= fun _ => q.drop).wp descriptors (LicitBoth T own₁ own₂ sl.asFd sr.asFd)
      (fun o T' => o = .val () ∧ T' = T) T' := by
  obtain ⟨hq, hp, rfl⟩ := h.swap
  have hfirst := wp_drop (r := sl.asFd) (w := sr.asFd) hp
  refine Prog.wp_bind.mpr (Prog.wp_mono (Prog.wp_guard hfirst fun _ _ hc => .inl hc.of_hold) ?_)
  rintro o T' ⟨rfl, rfl⟩
  exact Prog.wp_guard (wp_drop hq) fun _ _ hc => .inr hc

/-- A poll of one half, whatever else `release` has to drop. -/
theorem wp_poll (B : FdTable) {release : SpliceIo → Prog sys Unit}
    (hG : ∀ T' c, LicitVia T own r.asFd w.asFd T' c → G T' c)
    (hrelease : ∀ io : SpliceIo, Owns T own io.splicer.pipe →
      (release io).wp descriptors G (fun o T' => o = .val () ∧ T' = B) (T.hold io.splicer.pipe))
    (hA : Owns T own io.splicer.pipe) :
    (Machine.poll (SpliceIo.liveBody r w release) fuel io).wp descriptors G
      (Holding (fun io => io.splicer.pipe) T own B) (T.hold io.splicer.pipe) := by
  refine Machine.wp_iterate
    (fun _ io T' => Owns T own io.splicer.pipe ∧ T' = T.hold io.splicer.pipe)
    ?_ (fun _ _ _ => trivial) ⟨hA, rfl⟩
  rintro n io _ ⟨hA, rfl⟩
  refine Prog.wp_mono (wp_liveBody hG hA (hrelease io hA)) ?_
  rintro (⟨io', _ | p⟩ | why) T' hT <;> exact hT

/-- What a call of both halves owns afterwards. -/
def HoldingBoth (T : FdTable) (own₁ own₂ : PipeEnds) {β : Type} :
    Outcome sys (Option (SpliceBidiIo × β)) → FdTable → Prop
  | .val none, _ => True
  | .val (some (io, _)), T' =>
    OwnsBoth T own₁ own₂ io.ioSl2sr.splicer.pipe io.ioSr2sl.splicer.pipe T'
  | .fault _, T' => T' = T

theorem wp_pollLive {io : SpliceBidiIo}
    (h : OwnsBoth T own₁ own₂ io.ioSl2sr.splicer.pipe io.ioSr2sl.splicer.pipe T') :
    (io.pollLive fuel sl sr).wp descriptors (LicitBoth T own₁ own₂ sl.asFd sr.asFd)
      (HoldingBoth T own₁ own₂) T' := by
  obtain ⟨hq, hp, rfl⟩ := h.swap
  refine Prog.wp_bind.mpr (Prog.wp_mono (wp_poll T (fun _ _ hc => .inl hc.of_hold) ?_ hp) ?_)
  · intro io₁ hio₁
    exact wp_drop_both (OwnsBoth.swap ⟨hq, hio₁, rfl⟩)
  · rintro ((_ | ⟨io₁, p₁⟩) | why) T' hT
    · trivial
    · obtain ⟨hio₁, rfl⟩ := hT
      have hboth : OwnsBoth T own₁ own₂ io₁.splicer.pipe io.ioSr2sl.splicer.pipe _ :=
        OwnsBoth.swap ⟨hq, hio₁, rfl⟩
      obtain ⟨hp₁, hq₁, htable⟩ := hboth
      rw [htable]
      refine Prog.wp_bind.mpr (Prog.wp_mono (wp_poll T (fun _ _ hc => .inr hc.of_hold) ?_ hq₁) ?_)
      · intro io₂ hio₂
        exact wp_drop_both ⟨hp₁, hio₂, rfl⟩
      · rintro ((_ | ⟨io₂, p₂⟩) | why) T' hT
        · trivial
        · exact ⟨hp₁, hT.1, hT.2⟩
        · exact hT
    · exact hT

theorem wp_awaitLive {n : ℕ} {io : SpliceBidiIo}
    (h : OwnsBoth T own₁ own₂ io.ioSl2sr.splicer.pipe io.ioSr2sl.splicer.pipe T') :
    (io.awaitLive fuel sl sr n).wp descriptors (LicitBoth T own₁ own₂ sl.asFd sr.asFd)
      (HoldingBoth T own₁ own₂) T' := by
  induction n generalizing io T' with
  | zero => trivial
  | succ n ih =>
    refine Prog.wp_bind.mpr (Prog.wp_mono (wp_pollLive h) ?_)
    rintro ((_ | ⟨io', _ | res⟩) | why) T'' hT
    · trivial
    · refine Prog.wp_bind.mpr ⟨.inl ⟨trivial, trivial⟩, ?_⟩
      rintro (_ | _) T₃ rfl
      · exact ih hT
      · exact hT
    · exact hT
    · exact hT

theorem wp_executeLive_both (fuel : ℕ) (sl sr : AsyncFd) (io : SpliceBidiIo)
    (h : OwnsBoth T own₁ own₂ io.ioSl2sr.splicer.pipe io.ioSr2sl.splicer.pipe T') :
    (io.executeLive fuel sl sr).wp descriptors (LicitBoth T own₁ own₂ sl.asFd sr.asFd)
      (Released T) T' := by
  refine Prog.wp_bind.mpr (Prog.wp_mono (wp_awaitLive h) ?_)
  rintro ((_ | ⟨io', done⟩) | why) T'' hT
  · trivial
  · refine Prog.wp_bind.mpr (Prog.wp_mono (wp_drop_both hT) ?_)
    rintro o T' ⟨rfl, rfl⟩
    rfl
  · exact hT

theorem LicitBoth.makes {sl sr : BorrowedFd} {made : List (OwnedFd × OwnedFd)} {e : Event sys}
    (h : LicitBoth T own₁ own₂ sl sr T' e.call) (h₁ : own₁ ≠ (none, none))
    (h₂ : own₂ ≠ (none, none)) : makes made e = made := by
  rcases h with h | h
  · exact h.makes h₁
  · exact h.makes h₂

/-- A part of the run that makes no more pipes. -/
theorem wp_settled {α : Type} (sl sr : BorrowedFd) (made : List (OwnedFd × OwnedFd))
    {p : Prog sys α} {Q : Outcome sys α → FdTable → Prop} (h : p.wp descriptors G Q T')
    (hmakes : ∀ T' e, G T' e.call → makes made e = made)
    (hG : ∀ T' c, G T' c → LicitBoth T (madeEnds made 0) (madeEnds made 1) sl sr T' c) :
    p.wp (descriptors.ghost makes)
      (fun x => LicitBoth T (madeEnds x.2 0) (madeEnds x.2 1) sl sr x.1)
      (fun o x => Q o x.1) (T', made) := by
  refine Prog.wp_guard (Prog.wp_mono (Prog.wp_ghost_keep h hmakes) fun _ _ hQ => hQ.1) ?_
  rintro ⟨T'', _⟩ c ⟨hc, rfl⟩
  exact hG T'' c hc

/-- The first pipe that is made is that of the direction from `sl` to `sr`, the second that of the
other; while there is only the first, the second direction has none. -/
theorem wp_copyBidirectional_made (sl sr : BorrowedFd) :
    (copyBidirectional fuel sl sr).wp (descriptors.ghost makes)
      (fun x => LicitBoth T (madeEnds x.2 0) (madeEnds x.2 1) sl sr x.1)
      (fun o x => Released T o x.1) (T, []) := by
  have hcreate := wp_create_ctx (T := T) (r := sl) (w := sr) []
  refine Prog.wp_bind.mpr (Prog.wp_mono (Prog.wp_guard hcreate fun _ _ hc => .inl hc) ?_)
  rintro ((e | ctx₁) | why) ⟨T', made⟩ ⟨hT, hmade⟩
  · exact hT
  · obtain ⟨hA₁, rfl⟩ := hT
    obtain ⟨ends₁, rfl⟩ := hmade
    have hcreate := wp_create_ctx (T := T.hold ctx₁.pipe) (r := sr) (w := sl) [ends₁]
    refine Prog.wp_bind.mpr (Prog.wp_mono
      (Prog.wp_guard hcreate fun _ _ hc => .inr hc.of_hold) ?_)
    rintro ((e | ctx₂) | why) ⟨T', made⟩ ⟨hT, hmade⟩
    · obtain rfl : T' = T.hold ctx₁.pipe := hT
      obtain ⟨more, rfl⟩ := hmade
      have hdrop := wp_drop (r := sl) (w := sr) hA₁
      have hsettled := wp_settled (T := T) sl sr ([ends₁] ++ more) hdrop
        (fun _ _ hc => hc.makes (by simp [madeEnds])) fun _ _ hc => .inl hc
      refine Prog.wp_bind.mpr (Prog.wp_mono hsettled ?_)
      rintro o ⟨T', made⟩ ⟨rfl, rfl⟩
      rfl
    · obtain ⟨hA₂, rfl⟩ := hT
      obtain ⟨ends₂, rfl⟩ := hmade
      have hboth : OwnsBoth T (some ends₁.1, some ends₁.2) (some ends₂.1, some ends₂.2)
          ctx₁.pipe ctx₂.pipe ((T.hold ctx₁.pipe).hold ctx₂.pipe) := ⟨hA₁, hA₂, rfl⟩
      have hexecute := wp_executeLive_both fuel (.socket sl) (.socket sr)
        ⟨.ofCtx ctx₁, .ofCtx ctx₂⟩ hboth
      have hsettled := wp_settled (T := T) sl sr ([ends₁] ++ [ends₂]) hexecute
        (fun _ _ hc => hc.makes (by simp) (by simp)) fun _ _ hc => hc
      refine Prog.wp_bind.mpr (Prog.wp_mono hsettled ?_)
      rintro ((_ | done) | why) ⟨T', made⟩ hT <;> exact hT
    · exact hT.elim
  · exact hT.elim

theorem wp_copyBidirectional (sl sr : BorrowedFd) :
    (copyBidirectional fuel sl sr).wp descriptors
      (fun T' c => Licit T sl sr T' c ∨ Licit T sr sl T' c) (Released T) T := by
  refine Prog.wp_ghost.mp (Prog.wp_guard (wp_copyBidirectional_made sl sr) ?_)
  rintro x c (hc | hc)
  · exact .inl hc.1
  · exact .inr hc.1

end TwoDirections

/-! ### Whole runs -/

section Runs

variable {T T' : FdTable} {fuel : ℕ} {es : List (Event sys)}
  {o : Outcome sys (Option (Completion (IoResult TransferReport)))}

/-- Whatever the chain of builders and the two ends, and however the run ends (by a report, a
construction error, a panic, or a drop at any suspension): every call was licit when it was made,
and the table of descriptors is the one before. -/
theorem transfer_releases {b : Builder} {r w : AsyncFd} (h : (transfer fuel b r w).Run es o)
    (ha : descriptors.Accepts T es T') :
    descriptors.Permits (Licit T r.asFd w.asFd) T es ∧ (o ≠ .val none → T' = T) := by
  have hwp : (transfer fuel b r w).wp descriptors (Licit T r.asFd w.asFd) (Released T) T :=
    wp_transfer b
  exact ⟨Prog.wp_permits hwp h, fun ho => (Prog.wp_post hwp h ha).table ho⟩

/-- A copy that is dropped while it waits for its reader closes both ends. -/
theorem transfer_releases_dropped : ∃ es T',
    (copy 1 5 6).Run es (.val (some .dropped)) ∧
      descriptors.Accepts (fun _ => none) es T' ∧ T' = fun _ => none := by
  let es : List (Event sys) := [⟨.pipeWith ⟨true, true⟩, .ok (⟨3⟩, ⟨4⟩)⟩,
    ⟨.fcntlSetpipeSize 3 MAXIMUM_PIPE_SIZE, .ok 1048576⟩, ⟨.pollReadReady 5, .pending⟩,
    ⟨.suspend, .drop⟩, ⟨.close ⟨3⟩, ()⟩, ⟨.close ⟨4⟩, ()⟩]
  have hrun : (copy 1 5 6).Run es (.val (some .dropped)) :=
    .ask (.ask (.ask (.ask (.ask (.ask (.ret _))))))
  have ha : descriptors.Accepts (fun _ => none) es _ :=
    ⟨_, ⟨rfl, rfl, by decide, rfl⟩, _, rfl, _, rfl, _, rfl, _, rfl, _, rfl, rfl⟩
  exact ⟨es, _, hrun, ha, (transfer_releases hrun ha).2 (by rintro ⟨⟩)⟩

/-- The same for both directions, of which the one from `sl` to `sr` has the first pipe that is made
and the other the second: no call of a direction touches the other's pipe. -/
theorem copyBidirectional_releases {sl sr : BorrowedFd}
    (h : (copyBidirectional fuel sl sr).Run es o) (ha : descriptors.Accepts T es T') :
    (descriptors.ghost makes).Permits
        (fun x => LicitBoth T (madeEnds x.2 0) (madeEnds x.2 1) sl sr x.1) (T, []) es ∧
      (o ≠ .val none → T' = T) := by
  refine ⟨Prog.wp_permits (wp_copyBidirectional_made sl sr) h, fun ho => ?_⟩
  exact (Prog.wp_post (wp_copyBidirectional sl sr) h ha).table ho

/-- The second pipe cannot be made: the first is closed again. -/
theorem copyBidirectional_releases_first : ∃ es T',
    (copyBidirectional 1 5 6).Run es (.val (some (.returned (.error ⟨.os 24, "EMFILE"⟩)))) ∧
      descriptors.Accepts (fun _ => none) es T' ∧ T' = fun _ => none := by
  let es : List (Event sys) := [⟨.pipeWith ⟨true, true⟩, .ok (⟨3⟩, ⟨4⟩)⟩,
    ⟨.fcntlSetpipeSize 3 MAXIMUM_PIPE_SIZE, .ok 1048576⟩,
    ⟨.pipeWith ⟨true, true⟩, .error ⟨.os 24, "EMFILE"⟩⟩, ⟨.close ⟨3⟩, ()⟩, ⟨.close ⟨4⟩, ()⟩]
  have hrun : (copyBidirectional 1 5 6).Run es
      (.val (some (.returned (.error ⟨.os 24, "EMFILE"⟩)))) :=
    .ask (.ask (.ask (.ask (.ask (.ret _)))))
  have ha : descriptors.Accepts (fun _ => none) es _ :=
    ⟨_, ⟨rfl, rfl, by decide, rfl⟩, _, rfl, _, rfl, _, rfl, _, rfl, rfl⟩
  exact ⟨es, _, hrun, ha, (copyBidirectional_releases hrun ha).2 (by rintro ⟨⟩)⟩

end Runs

end Splicer
