import Splicer.Completion

/-! One kernel for many tasks, and what each of them has of it. -/
namespace Splicer

open Interaction Function

def FdObject.kind : FdObject → FdKind
  | .drainEnd _ => .drainEnd
  | .fillEnd _ => .fillEnd
  | .other => .other

def Os.table (o : Os) : FdTable := Option.map FdObject.kind ∘ o.fd

/-- The calls that touch nothing but the given ends and, for the pipes, the task's own. -/
def Keeps (ends : List BorrowedFd) (own : BorrowedFd → Prop) : SysCall → Prop
  | .pipeWith _ => True
  | .fcntlSetpipeSize fd _ => own fd
  | .fcntlGetpipeSize fd => own fd
  | .close fd => own fd.asFd
  | .splice fdIn _ fdOut _ _ _ => fdIn ∈ ends ∧ own fdOut ∨ own fdIn ∧ fdOut ∈ ends
  | .pollReadReady fd => fd ∈ ends
  | .pollWriteReady fd => fd ∈ ends
  | .tryIo fd _ => fd ∈ ends
  | .pollShutdown fd => fd ∈ ends
  | .suspend => True

/-- The same of a task whose table of descriptors is `T`: its own are those that it was not lent,
each used as the end that it is. -/
def Tame (ends : List BorrowedFd) (T : FdTable) : SysCall → Prop
  | .fcntlSetpipeSize fd _ => fd ∉ ends ∧ T fd ≠ none
  | .fcntlGetpipeSize fd => fd ∉ ends ∧ T fd ≠ none
  | .close fd => fd.asFd ∉ ends ∧ T fd.asFd ≠ none
  | .splice fdIn offIn fdOut offOut _ _ =>
    fdIn ∈ ends ∧ offOut = none ∧ T fdOut = some .fillEnd ∨
      fdOut ∈ ends ∧ offIn = none ∧ T fdIn = some .drainEnd
  | .pollReadReady fd => fd ∈ ends
  | .pollWriteReady fd => fd ∈ ends
  | .tryIo fd _ => fd ∈ ends
  | .pollShutdown fd => fd ∈ ends
  | _ => True

/-- The kernel as one task sees it that has just been given its ends. -/
def Os.lend (o : Os) (ends : List BorrowedFd) : Os :=
  { o with fd := fun n => if n ∈ ends then o.fd n else none }

section Descriptors

variable {o o' : Os} {T : FdTable} {r w n : BorrowedFd} {p : ℕ} {c : SysCall} {e : Event sys}
  {ends : List BorrowedFd}

theorem table_ne_none : o.table n ≠ none ↔ o.fd n ≠ none := by
  simp [Os.table]

theorem fillEnd_of_table (h : o.table n = some .fillEnd) : ∃ p, o.fd n = some (.fillEnd p) := by
  simp only [Os.table, comp_apply] at h
  rcases hn : o.fd n with _ | _ | p | _ <;> simp_all [FdObject.kind]

theorem drainEnd_of_table (h : o.table n = some .drainEnd) : ∃ p, o.fd n = some (.drainEnd p) := by
  simp only [Os.table, comp_apply] at h
  rcases hn : o.fd n with _ | p | _ | _ <;> simp_all [FdObject.kind]

/-- The descriptors of the kernel behave as a table of descriptors. -/
theorem os_descriptors (h : os o e o') : descriptors o.table e o'.table := by
  rcases e with ⟨_ | _ | _ | fd | _ | _ | _ | _ | _ | _, a⟩
  case pipeWith flags =>
    rcases a with e | ⟨drainFd, fillFd⟩
    · cases h
      rfl
    · obtain ⟨hd, hf, hne, p, cap, -, rfl⟩ := h
      refine ⟨by simp [Os.table, hd], by simp [Os.table, hf], hne, ?_⟩
      simp only [Os.table, comp_update]
      rfl
  case fcntlSetpipeSize =>
    rcases a with e | size
    · cases h
      rfl
    · obtain ⟨p, cap, -, -, rfl⟩ := h
      rfl
  case fcntlGetpipeSize =>
    rcases a with e | size
    · cases h
      rfl
    · obtain ⟨-, rfl⟩ := h
      rfl
  case close =>
    cases h
    simp only [descriptors, Os.table, comp_update]
    rfl
  case splice =>
    rcases h with ⟨⟨p, source, buf, -, -, rfl⟩, -⟩ | ⟨⟨p, buf, sink, -, -, rfl⟩, -⟩ |
      ⟨-, -, -, rfl⟩ <;> rfl
  all_goals
    cases h
    rfl

theorem Licit.tame (h : Licit (o.lend ends).table r w T c) (hr : r ∈ ends) (hw : w ∈ ends)
    (hopen : ∀ n ∈ ends, o.fd n = some .other) : Tame ends T c := by
  have hmine {n : BorrowedFd} (hn : (o.lend ends).table n = none) : n ∉ ends := by
    intro hmem
    simp [Os.table, Os.lend, hmem, hopen n hmem] at hn
  cases c with
  | fcntlSetpipeSize | fcntlGetpipeSize | close => exact ⟨hmine h.1, h.2⟩
  | splice =>
    obtain ⟨⟨rfl, hoff, -, hT⟩ | ⟨rfl, hoff, -, hT⟩, -⟩ := h
    · exact .inl ⟨hr, hoff, hT⟩
    · exact .inr ⟨hw, hoff, hT⟩
  | pollReadReady fd =>
    obtain rfl : fd = r := h
    exact hr
  | pollWriteReady fd | pollShutdown fd =>
    obtain rfl : fd = w := h
    exact hw
  | tryIo fd interest =>
    cases interest with
    | readable =>
      obtain rfl : fd = r := h
      exact hr
    | writable =>
      obtain rfl : fd = w := h
      exact hw
  | pipeWith | suspend => trivial

end Descriptors

/-! ### Private kernels -/

section Tenancy

variable {D : Type} {ends : D → List BorrowedFd} {l l' : D → Os} {o₀ o o' : Os} {d : D} {v : Os}
  {n drainFd fillFd : BorrowedFd} {p cap : ℕ}

/-- The descriptors that the kernel `o` has open are those of the tasks, each of whom has its own
in a private kernel `l d`, and those that were open in `o₀` before. -/
structure Leases (ends : D → List BorrowedFd) (o₀ : Os) (l : D → Os) (o : Os) : Prop where
  fd : ∀ d n, (l d).fd n ≠ none → o.fd n = (l d).fd n
  lent : ∀ d, ∀ n ∈ ends d, (l d).fd n = some .other
  apart : ∀ d d' n, d' ≠ d → (l d).fd n ≠ none → (l d').fd n = none
  pipes : ∀ d d' n n' p, d' ≠ d → (l d).Names n p → ¬ (l d').Names n' p
  strangers : ∀ n, (∀ d, (l d).fd n = none) → o.fd n = o₀.fd n
  opened : ∀ d n, (l d).fd n ≠ none → n ∉ ends d → o₀.fd n = none
  before : ∀ d, ∀ n ∈ ends d, o₀.fd n = some .other
  fresh : ∀ d n p, (l d).Names n p → ∀ m, ¬ o₀.Names m p

/-- What a task can see of the bytes is in its private kernel as it is in `o`; all else is as it was
in `o₀`. -/
structure Mirrors (ends : D → List BorrowedFd) (o₀ : Os) (l : D → Os) (o : Os) : Prop where
  pipe : ∀ d n p, (l d).Names n p → o.pipe p = (l d).pipe p
  capacity : ∀ d n p, (l d).Names n p → o.capacity p = (l d).capacity p
  source : ∀ d, ∀ n ∈ ends d, o.source n = (l d).source n
  sink : ∀ d, ∀ n ∈ ends d, o.sink n = (l d).sink n
  sources : ∀ n, (∀ d, n ∉ ends d) → o.source n = o₀.source n
  sinks : ∀ n, (∀ d, n ∉ ends d) → o.sink n = o₀.sink n
  buffers : ∀ n p, o₀.Names n p → o.pipe p = o₀.pipe p ∧ o.capacity p = o₀.capacity p

def Tenancy (ends : D → List BorrowedFd) (o₀ : Os) (l : D → Os) (o : Os) : Prop :=
  Leases ends o₀ l o ∧ Mirrors ends o₀ l o

/-- To begin with, the tasks have nothing but their ends. -/
theorem tenancy_lend (hopen : ∀ d, ∀ n ∈ ends d, o.fd n = some .other)
    (hapart : ∀ d d' n, d' ≠ d → n ∈ ends d → n ∉ ends d') :
    Tenancy ends o (fun d => o.lend (ends d)) o := by
  have hmine (d : D) (n : BorrowedFd) (hn : (o.lend (ends d)).fd n ≠ none) : n ∈ ends d := by
    by_contra hmem
    simp [Os.lend, hmem] at hn
  have hnone (d : D) (n : BorrowedFd) (p : ℕ) : ¬ (o.lend (ends d)).Names n p := by
    by_cases hmem : n ∈ ends d <;> simp [Os.Names, Os.lend, hmem, hopen d n]
  refine ⟨⟨?_, ?_, ?_, ?_, ?_, ?_, hopen, ?_⟩, ⟨?_, ?_, ?_, ?_, ?_, ?_, ?_⟩⟩
  · intro d n hn
    simp [Os.lend, hmine d n hn]
  · intro d n hn
    simp [Os.lend, hn, hopen d n hn]
  · intro d d' n hd hn
    simp [Os.lend, hapart d d' n hd (hmine d n hn)]
  · exact fun d _ n _ p _ hn => absurd hn (hnone d n p)
  · exact fun _ _ => rfl
  · exact fun d n hn hmem => absurd (hmine d n hn) hmem
  · exact fun d n p hn => absurd hn (hnone d n p)
  · exact fun _ _ _ _ => rfl
  · exact fun _ _ _ _ => rfl
  · exact fun _ _ _ => rfl
  · exact fun _ _ _ => rfl
  · exact fun _ _ => rfl
  · exact fun _ _ => rfl
  · exact fun _ _ _ => ⟨rfl, rfl⟩

theorem Leases.names (h : Leases ends o₀ l o) {d : D} {n : BorrowedFd} {p : ℕ}
    (hn : (l d).Names n p) : o.Names n p := by
  have hopen : (l d).fd n ≠ none := by
    rcases hn with hn | hn <;> simp [hn]
  simpa only [Os.Names, h.fd d n hopen] using hn

/-- Nobody else has what a task has. -/
theorem Leases.ends_apart (h : Leases ends o₀ l o) {d d' : D} {n : BorrowedFd} (hd : d' ≠ d)
    (hn : n ∈ ends d) : n ∉ ends d' := by
  intro hn'
  have hopen : (l d).fd n ≠ none := by simp [h.lent d n hn]
  have hnone := h.apart d d' n hd hopen
  simp [h.lent d' n hn'] at hnone

/-- A descriptor of a pipe that was there before is still that. -/
theorem Leases.old (h : Leases ends o₀ l o) {n : BorrowedFd} {p : ℕ} (hn : o₀.Names n p) :
    o.Names n p := by
  have hnone (d : D) : (l d).fd n = none := by
    by_contra hopen
    by_cases hmem : n ∈ ends d
    · rcases hn with hn | hn <;> cases (h.before d n hmem).symm.trans hn
    · rcases hn with hn | hn <;> cases (h.opened d n hopen hmem).symm.trans hn
  simpa only [Os.Names, h.strangers n hnone] using hn

/-- What is closed in the kernel is nobody's. -/
theorem Leases.free (h : Leases ends o₀ l o) {n : BorrowedFd} (hn : o.fd n = none) (d : D) :
    (l d).fd n = none := by
  by_contra hopen
  exact hopen ((h.fd d n hopen).symm.trans hn)

theorem Leases.free_ends (h : Leases ends o₀ l o) (hd : o.fd drainFd = none)
    (hf : o.fd fillFd = none) (d : D) (hn : n = drainFd ∨ n = fillFd) : (l d).fd n = none := by
  rcases hn with rfl | rfl
  · exact h.free hd d
  · exact h.free hf d

theorem Leases.congr (h : Leases ends o₀ l o) (hl : ∀ d, (l' d).fd = (l d).fd)
    (ho : o'.fd = o.fd) : Leases ends o₀ l' o' := by
  have hnames (d : D) (n : BorrowedFd) (p : ℕ) : (l' d).Names n p ↔ (l d).Names n p := by
    simp only [Os.Names, hl]
  refine ⟨?_, ?_, ?_, ?_, ?_, ?_, h.before, ?_⟩
  · simpa only [hl, ho] using h.fd
  · simpa only [hl] using h.lent
  · simpa only [hl] using h.apart
  · simpa only [hnames] using h.pipes
  · simpa only [hl, ho] using h.strangers
  · simpa only [hl] using h.opened
  · simpa only [hnames] using h.fresh

theorem Tenancy.world (h : Tenancy ends o₀ l o) {m : BorrowedFd} (hn : n ∈ ends d)
    (hp : (l d).Names m p) : o.world n n p = (l d).world n n p := by
  rw [Os.world, Os.world, h.2.source d n hn, h.2.pipe d m p hp, h.2.sink d n hn]

/-- What a task has open beside its ends is recorded as its own. -/
def Owned (ends : D → List BorrowedFd) (l : D → Os) (x : BorrowedFd → Option D) : Prop :=
  ∀ d n, (l d).fd n ≠ none → n ∉ ends d → x n = some d

theorem owned_lend : Owned ends (fun d => o.lend (ends d)) fun _ => none := by
  intro d n hopen hmem
  simp [Os.lend, hmem] at hopen

/-- A tame call touches no pipe but those that are recorded as the task's own. -/
theorem Owned.keeps {x : BorrowedFd → Option D} {c : SysCall} (h : Owned ends l x)
    (hl : Leases ends o₀ l o) (htame : Tame (ends d) (l d).table c) :
    Keeps (ends d) (fun n => x n = some d) c := by
  have own {n : BorrowedFd} (hopen : (l d).fd n ≠ none) (hother : (l d).fd n ≠ some .other) :
      x n = some d :=
    h d n hopen fun hmem => hother (hl.lent d n hmem)
  cases c with
  | fcntlSetpipeSize | fcntlGetpipeSize | close =>
    exact h d _ (table_ne_none.mp htame.2) htame.1
  | splice fdIn offIn fdOut offOut =>
    rcases htame with ⟨hin, -, hT⟩ | ⟨hout, -, hT⟩
    · obtain ⟨p, hp⟩ := fillEnd_of_table hT
      exact .inl ⟨hin, own (by simp [hp]) (by simp [hp])⟩
    · obtain ⟨p, hp⟩ := drainEnd_of_table hT
      exact .inr ⟨own (by simp [hp]) (by simp [hp]), hout⟩
  | pipeWith | pollReadReady | pollWriteReady | tryIo | pollShutdown | suspend => exact htame

variable [DecidableEq D]

/-- A task may change the bytes of its ends and of its pipes. -/
theorem Tenancy.write (h : Tenancy ends o₀ l o) (hv : v.fd = (l d).fd) (ho : o'.fd = o.fd)
    (hpipe : ∀ n p, (l d).Names n p → o'.pipe p = v.pipe p ∧ o'.capacity p = v.capacity p)
    (hends : ∀ n ∈ ends d, o'.source n = v.source n ∧ o'.sink n = v.sink n)
    (hpipes : ∀ p, (∀ n, ¬ (l d).Names n p) →
      o'.pipe p = o.pipe p ∧ o'.capacity p = o.capacity p)
    (hothers : ∀ n, n ∉ ends d → o'.source n = o.source n ∧ o'.sink n = o.sink n) :
    Tenancy ends o₀ (update l d v) o' := by
  obtain ⟨hl, hm⟩ := h
  have hfd (d' : D) : (update l d v d').fd = (l d').fd := by
    by_cases hd : d' = d
    · subst hd
      rw [update_self, hv]
    · rw [update_of_ne hd]
  have hnames {d' : D} {n : BorrowedFd} {p : ℕ} (hn : (update l d v d').Names n p) :
      (l d').Names n p := by
    simpa only [Os.Names, hfd] using hn
  have hbuffers (d' : D) (n : BorrowedFd) (p : ℕ) (hn : (l d').Names n p) :
      o'.pipe p = (update l d v d').pipe p ∧ o'.capacity p = (update l d v d').capacity p := by
    by_cases hd : d' = d
    · subst hd
      rw [update_self]
      exact hpipe n p hn
    · have hsame := hpipes p fun n' => hl.pipes d' d n n' p (Ne.symm hd) hn
      rw [update_of_ne hd, hsame.1, hsame.2]
      exact ⟨hm.pipe d' n p hn, hm.capacity d' n p hn⟩
  have hbytes (d' : D) (n : BorrowedFd) (hn : n ∈ ends d') :
      o'.source n = (update l d v d').source n ∧ o'.sink n = (update l d v d').sink n := by
    by_cases hd : d' = d
    · subst hd
      rw [update_self]
      exact hends n hn
    · have hsame := hothers n (hl.ends_apart (Ne.symm hd) hn)
      rw [update_of_ne hd, hsame.1, hsame.2]
      exact ⟨hm.source d' n hn, hm.sink d' n hn⟩
  refine ⟨hl.congr hfd ho, ⟨?_, ?_, ?_, ?_, ?_, ?_, ?_⟩⟩
  · exact fun d' n p hn => (hbuffers d' n p (hnames hn)).1
  · exact fun d' n p hn => (hbuffers d' n p (hnames hn)).2
  · exact fun d' n hn => (hbytes d' n hn).1
  · exact fun d' n hn => (hbytes d' n hn).2
  · exact fun n hn => (hothers n (hn d)).1.trans (hm.sources n hn)
  · exact fun n hn => (hothers n (hn d)).2.trans (hm.sinks n hn)
  · intro n p hn
    obtain ⟨hpipe, hcap⟩ := hpipes p fun m hname => hl.fresh d m p hname n hn
    rw [hpipe, hcap]
    exact hm.buffers n p hn

/-- A new pipe. -/
def Os.opening (o : Os) (drainFd fillFd : BorrowedFd) (p cap : ℕ) : Os :=
  { o with
    fd := update (update o.fd drainFd (some (.drainEnd p))) fillFd (some (.fillEnd p))
    pipe := update o.pipe p []
    capacity := update o.capacity p cap }

theorem opening_drain (hne : drainFd ≠ fillFd) :
    (o.opening drainFd fillFd p cap).fd drainFd = some (.drainEnd p) := by
  simp [Os.opening, update_of_ne hne]

theorem opening_fill : (o.opening drainFd fillFd p cap).fd fillFd = some (.fillEnd p) :=
  update_self _ _ _

theorem opening_other (hd : n ≠ drainFd) (hf : n ≠ fillFd) :
    (o.opening drainFd fillFd p cap).fd n = o.fd n := by
  simp [Os.opening, update_of_ne hf, update_of_ne hd]

theorem opening_names {q : ℕ} (hne : drainFd ≠ fillFd)
    (h : (o.opening drainFd fillFd p cap).Names n q) : q = p ∨ o.Names n q := by
  by_cases hf : n = fillFd
  · rw [hf, Os.Names, opening_fill] at h
    rcases h with h | h <;> cases h
    exact .inl rfl
  · by_cases hd : n = drainFd
    · rw [hd, Os.Names, opening_drain hne] at h
      rcases h with h | h <;> cases h
      exact .inl rfl
    · right
      simpa only [Os.Names, opening_other hd hf] using h

/-- The task `d` has opened a pipe. -/
def lease (l : D → Os) (d : D) (drainFd fillFd : BorrowedFd) (p cap : ℕ) : D → Os :=
  update l d ((l d).opening drainFd fillFd p cap)

theorem lease_self : lease l d drainFd fillFd p cap d = (l d).opening drainFd fillFd p cap :=
  update_self _ _ _

theorem lease_of_ne {d' : D} (h : d' ≠ d) : lease l d drainFd fillFd p cap d' = l d' :=
  update_of_ne h _ _

theorem lease_old {d' : D} (hn : ¬ (n = drainFd ∨ n = fillFd)) :
    (lease l d drainFd fillFd p cap d').fd n = (l d').fd n := by
  obtain ⟨hd, hf⟩ := not_or.mp hn
  by_cases h : d' = d
  · rw [h, lease_self, opening_other hd hf]
  · rw [lease_of_ne h]

theorem lease_names {d' : D} {q : ℕ} (hne : drainFd ≠ fillFd)
    (hn : (lease l d drainFd fillFd p cap d').Names n q) : d' = d ∧ q = p ∨ (l d').Names n q := by
  by_cases h : d' = d
  · subst h
    rw [lease_self] at hn
    exact (opening_names hne hn).imp_left fun hq => ⟨rfl, hq⟩
  · rw [lease_of_ne h] at hn
    exact .inr hn

/-- The new ends are open in one private kernel only. -/
theorem Leases.lease_new (h : Leases ends o₀ l o) (hd : o.fd drainFd = none)
    (hf : o.fd fillFd = none) {d' : D} (hn : n = drainFd ∨ n = fillFd)
    (hopen : (lease l d drainFd fillFd p cap d').fd n ≠ none) : d' = d := by
  by_contra hd'
  rw [lease_of_ne hd'] at hopen
  exact hopen (h.free_ends hd hf d' hn)

theorem Leases.opens (h : Leases ends o₀ l o) (hd : o.fd drainFd = none)
    (hf : o.fd fillFd = none) (hne : drainFd ≠ fillFd) (hp : ∀ n, ¬ o.Names n p) :
    Leases ends o₀ (lease l d drainFd fillFd p cap) (o.opening drainFd fillFd p cap) := by
  refine ⟨?_, ?_, ?_, ?_, ?_, ?_, h.before, ?_⟩
  · intro d' n hopen
    by_cases hn : n = drainFd ∨ n = fillFd
    · rw [h.lease_new hd hf hn hopen, lease_self]
      rcases hn with rfl | rfl
      · rw [opening_drain hne, opening_drain hne]
      · rw [opening_fill, opening_fill]
    · rw [lease_old hn] at hopen ⊢
      rw [opening_other (not_or.mp hn).1 (not_or.mp hn).2]
      exact h.fd d' n hopen
  · intro d' n hn
    have hfd := h.lent d' n hn
    rw [lease_old, hfd]
    intro hnew
    rw [h.free_ends hd hf d' hnew] at hfd
    cases hfd
  · intro d₁ d₂ n hd₂ hopen
    by_cases hn : n = drainFd ∨ n = fillFd
    · by_contra hopen₂
      exact hd₂ ((h.lease_new hd hf hn hopen₂).trans (h.lease_new hd hf hn hopen).symm)
    · rw [lease_old hn] at hopen ⊢
      exact h.apart d₁ d₂ n hd₂ hopen
  · intro d₁ d₂ n n' q hd₂ hn hn'
    rcases lease_names hne hn with ⟨rfl, rfl⟩ | hold
    · rcases lease_names hne hn' with ⟨rfl, -⟩ | hold'
      · exact hd₂ rfl
      · exact hp n' (h.names hold')
    · rcases lease_names hne hn' with ⟨-, rfl⟩ | hold'
      · exact hp n (h.names hold)
      · exact h.pipes d₁ d₂ n n' q hd₂ hold hold'
  · intro n hnone
    have hn : ¬ (n = drainFd ∨ n = fillFd) := by
      have hmine := hnone d
      rw [lease_self] at hmine
      rintro (rfl | rfl)
      · rw [opening_drain hne] at hmine
        cases hmine
      · rw [opening_fill] at hmine
        cases hmine
    rw [opening_other (not_or.mp hn).1 (not_or.mp hn).2]
    exact h.strangers n fun d' => by rw [← lease_old hn, hnone d']
  · intro d' n hopen hend
    by_cases hn : n = drainFd ∨ n = fillFd
    · rw [← h.strangers n fun d => h.free_ends hd hf d hn]
      rcases hn with rfl | rfl
      · exact hd
      · exact hf
    · rw [lease_old hn] at hopen
      exact h.opened d' n hopen hend
  · intro d' n q hname m hm
    rcases lease_names hne hname with ⟨-, rfl⟩ | hold
    · exact hp m (h.old hm)
    · exact h.fresh d' n q hold m hm

theorem Mirrors.opens (h : Mirrors ends o₀ l o) (hl : Leases ends o₀ l o) (hne : drainFd ≠ fillFd)
    (hp : ∀ n, ¬ o.Names n p) :
    Mirrors ends o₀ (lease l d drainFd fillFd p cap) (o.opening drainFd fillFd p cap) := by
  have hsource (d' : D) : (lease l d drainFd fillFd p cap d').source = (l d').source := by
    by_cases hd : d' = d
    · rw [hd, lease_self]
      rfl
    · rw [lease_of_ne hd]
  have hsink (d' : D) : (lease l d drainFd fillFd p cap d').sink = (l d').sink := by
    by_cases hd : d' = d
    · rw [hd, lease_self]
      rfl
    · rw [lease_of_ne hd]
  have hbuffer (d' : D) (q : ℕ) (hq : q ≠ p) :
      (lease l d drainFd fillFd p cap d').pipe q = (l d').pipe q ∧
        (lease l d drainFd fillFd p cap d').capacity q = (l d').capacity q := by
    by_cases hd : d' = d
    · rw [hd, lease_self]
      exact ⟨update_of_ne hq _ _, update_of_ne hq _ _⟩
    · rw [lease_of_ne hd]
      exact ⟨rfl, rfl⟩
  have hpipe (d' : D) (n : BorrowedFd) (q : ℕ)
      (hn : (lease l d drainFd fillFd p cap d').Names n q) :
      (o.opening drainFd fillFd p cap).pipe q = (lease l d drainFd fillFd p cap d').pipe q ∧
        (o.opening drainFd fillFd p cap).capacity q =
          (lease l d drainFd fillFd p cap d').capacity q := by
    rcases lease_names hne hn with ⟨rfl, rfl⟩ | hold
    · rw [lease_self]
      simp [Os.opening]
    · have hq : q ≠ p := by
        rintro rfl
        exact hp n (hl.names hold)
      rw [(hbuffer d' q hq).1, (hbuffer d' q hq).2, ← h.pipe d' n q hold, ← h.capacity d' n q hold]
      exact ⟨update_of_ne hq _ _, update_of_ne hq _ _⟩
  refine ⟨fun d' n q hn => (hpipe d' n q hn).1, fun d' n q hn => (hpipe d' n q hn).2, ?_, ?_,
    h.sources, h.sinks, ?_⟩
  · intro d' n hn
    rw [hsource]
    exact h.source d' n hn
  · intro d' n hn
    rw [hsink]
    exact h.sink d' n hn
  · intro n q hn
    have hq : q ≠ p := by
      rintro rfl
      exact hp n (hl.old hn)
    obtain ⟨hpipe, hcap⟩ := h.buffers n q hn
    exact ⟨(update_of_ne hq _ _).trans hpipe, (update_of_ne hq _ _).trans hcap⟩

theorem Tenancy.closes (h : Tenancy ends o₀ l o) (hn : (l d).fd n ≠ none) (hend : n ∉ ends d) :
    Tenancy ends o₀ (update l d { l d with fd := update (l d).fd n none })
      { o with fd := update o.fd n none } := by
  obtain ⟨hl, hm⟩ := h
  generalize hu : update l d { l d with fd := update (l d).fd n none } = u
  have hsame (d' : D) : (u d').pipe = (l d').pipe ∧ (u d').capacity = (l d').capacity ∧
      (u d').source = (l d').source ∧ (u d').sink = (l d').sink := by
    subst hu
    by_cases hd : d' = d
    · subst hd
      rw [update_self]
      exact ⟨rfl, rfl, rfl, rfl⟩
    · rw [update_of_ne hd]
      exact ⟨rfl, rfl, rfl, rfl⟩
  have hgone (d' : D) : (u d').fd n = none := by
    subst hu
    by_cases hd : d' = d
    · subst hd
      rw [update_self]
      exact update_self _ _ _
    · rw [update_of_ne hd]
      exact hl.apart d d' n hd hn
  have hkept {m : BorrowedFd} (hm : m ≠ n) (d' : D) : (u d').fd m = (l d').fd m := by
    subst hu
    by_cases hd : d' = d
    · subst hd
      rw [update_self]
      exact update_of_ne hm _ _
    · rw [update_of_ne hd]
  have hle {d' : D} {m : BorrowedFd} (hopen : (u d').fd m ≠ none) :
      m ≠ n ∧ (l d').fd m ≠ none := by
    have hmn : m ≠ n := by
      rintro rfl
      exact hopen (hgone d')
    exact ⟨hmn, hkept hmn d' ▸ hopen⟩
  have hnames {d' : D} {m : BorrowedFd} {q : ℕ} (hname : (u d').Names m q) :
      (l d').Names m q := by
    have hopen : (u d').fd m ≠ none := by
      rcases hname with hname | hname <;> simp [hname]
    simpa only [Os.Names, hkept (hle hopen).1] using hname
  refine ⟨⟨?_, ?_, ?_, ?_, ?_, ?_, hl.before, ?_⟩,
    ⟨?_, ?_, ?_, ?_, hm.sources, hm.sinks, hm.buffers⟩⟩
  · intro d' m hopen
    obtain ⟨hmn, hopen⟩ := hle hopen
    rw [hkept hmn]
    exact (update_of_ne hmn _ _).trans (hl.fd d' m hopen)
  · intro d' m hmem
    have hmn : m ≠ n := by
      rintro rfl
      by_cases hd : d' = d
      · exact hend (hd ▸ hmem)
      · have hnone := hl.apart d d' m hd hn
        rw [hl.lent d' m hmem] at hnone
        cases hnone
    rw [hkept hmn]
    exact hl.lent d' m hmem
  · intro d₁ d₂ m hd₂ hopen
    obtain ⟨hmn, hopen⟩ := hle hopen
    rw [hkept hmn]
    exact hl.apart d₁ d₂ m hd₂ hopen
  · exact fun d₁ d₂ m m' q hd₂ hm hm' => hl.pipes d₁ d₂ m m' q hd₂ (hnames hm) (hnames hm')
  · intro m hnone
    by_cases hmn : m = n
    · subst hmn
      exact (update_self _ _ _).trans (hl.opened d m hn hend).symm
    · refine (update_of_ne hmn _ _).trans (hl.strangers m fun d' => ?_)
      rw [← hkept hmn, hnone]
  · exact fun d' m hopen => hl.opened d' m (hle hopen).2
  · exact fun d' m q hname => hl.fresh d' m q (hnames hname)
  · intro d' m q hname
    rw [(hsame d').1]
    exact hm.pipe d' m q (hnames hname)
  · intro d' m q hname
    rw [(hsame d').2.1]
    exact hm.capacity d' m q (hnames hname)
  · intro d' m hmem
    rw [(hsame d').2.2.1]
    exact hm.source d' m hmem
  · intro d' m hmem
    rw [(hsame d').2.2.2]
    exact hm.sink d' m hmem

/-- Bytes have moved between the end `n` and the pipe `p`. -/
def Os.put (o : Os) (n : BorrowedFd) (p : ℕ) (source : Source) (buf : List UInt8) (sink : Sink) :
    Os :=
  { o with
    source := update o.source n source
    pipe := update o.pipe p buf
    sink := update o.sink n sink }

theorem put_of_source {source : Source} {buf : List UInt8} : o.put n p source buf (o.sink n) =
    { o with source := update o.source n source, pipe := update o.pipe p buf } := by
  simp [Os.put]

theorem put_of_sink {buf : List UInt8} {sink : Sink} : o.put n p (o.source n) buf sink =
    { o with sink := update o.sink n sink, pipe := update o.pipe p buf } := by
  simp [Os.put]

theorem Tenancy.puts (h : Tenancy ends o₀ l o) {m : BorrowedFd} (source : Source)
    (buf : List UInt8) (sink : Sink) (hn : n ∈ ends d) (hp : (l d).Names m p) :
    Tenancy ends o₀ (update l d ((l d).put n p source buf sink)) (o.put n p source buf sink) := by
  refine h.write rfl rfl ?_ ?_ ?_ ?_
  · intro k q hq
    refine ⟨?_, h.2.capacity d k q hq⟩
    by_cases hqp : q = p
    · simp [Os.put, hqp]
    · simp [Os.put, update_of_ne hqp, h.2.pipe d k q hq]
  · intro k hk
    by_cases hkn : k = n
    · simp [Os.put, hkn]
    · simp [Os.put, update_of_ne hkn, h.2.source d k hk, h.2.sink d k hk]
  · intro q hq
    have hqp : q ≠ p := by
      rintro rfl
      exact hq m hp
    exact ⟨update_of_ne hqp _ _, rfl⟩
  · intro k hk
    have hkn : k ≠ n := by
      rintro rfl
      exact hk hn
    exact ⟨update_of_ne hkn _ _, update_of_ne hkn _ _⟩

theorem Tenancy.resizes (h : Tenancy ends o₀ l o) (hp : (l d).Names n p) :
    Tenancy ends o₀ (update l d { l d with capacity := update (l d).capacity p cap })
      { o with capacity := update o.capacity p cap } := by
  refine h.write rfl rfl ?_ ?_ ?_ fun _ _ => ⟨rfl, rfl⟩
  · intro k q hq
    refine ⟨h.2.pipe d k q hq, ?_⟩
    by_cases hqp : q = p
    · simp [hqp]
    · simp [update_of_ne hqp, h.2.capacity d k q hq]
  · exact fun k hk => ⟨h.2.source d k hk, h.2.sink d k hk⟩
  · intro q hq
    have hqp : q ≠ p := by
      rintro rfl
      exact hq n hp
    exact ⟨rfl, update_of_ne hqp _ _⟩

/-- A tame splice is one of the task's private kernel. -/
theorem Tenancy.splices (h : Tenancy ends o₀ l o) {fdIn fdOut : BorrowedFd}
    {offIn offOut : Option ℕ} {len : ℕ} {flags : SpliceFlags} {a : SpliceAnswer}
    (htame : Tame (ends d) (l d).table (.splice fdIn offIn fdOut offOut len flags))
    (he : os o ⟨.splice fdIn offIn fdOut offOut len flags, a⟩ o') :
    ∃ v, os (l d) ⟨.splice fdIn offIn fdOut offOut len flags, a⟩ v ∧
      Tenancy ends o₀ (update l d v) o' := by
  have hlent {n : BorrowedFd} (hn : n ∈ ends d) : o.fd n = some .other :=
    (h.1.fd d n (by simp [h.1.lent d n hn])).trans (h.1.lent d n hn)
  rcases htame with ⟨hin, hoff, hfill⟩ | ⟨hout, hoff, hdrain⟩
  · obtain ⟨p, hp⟩ := fillEnd_of_table hfill
    have hpo : o.fd fdOut = some (.fillEnd p) := (h.1.fd d fdOut (by simp [hp])).trans hp
    rcases he with ⟨⟨q, source, buf, hq, hk, rfl⟩, -⟩ | ⟨⟨q, -, -, hq, -⟩, -⟩ | ⟨-, hnot, -⟩
    · cases hpo.symm.trans hq
      have hnames : (l d).Names fdOut p := .inr hp
      have hputs := h.puts source buf (o.sink fdIn) hin hnames
      rw [put_of_source, h.2.sink d fdIn hin, put_of_source] at hputs
      rw [h.2.capacity d fdOut p hnames, h.world hin hnames, h.2.sink d fdIn hin] at hk
      exact ⟨_, .inl ⟨⟨p, source, buf, hp, hk, rfl⟩, hoff⟩, hputs⟩
    · cases (hlent hin).symm.trans hq
    · exact absurd hpo (hnot p)
  · obtain ⟨p, hp⟩ := drainEnd_of_table hdrain
    have hpo : o.fd fdIn = some (.drainEnd p) := (h.1.fd d fdIn (by simp [hp])).trans hp
    rcases he with ⟨⟨q, -, -, hq, -⟩, -⟩ | ⟨⟨q, buf, sink, hq, hk, rfl⟩, -⟩ | ⟨-, -, hnot, -⟩
    · cases (hlent hout).symm.trans hq
    · cases hpo.symm.trans hq
      have hnames : (l d).Names fdIn p := .inl hp
      have hputs := h.puts (o.source fdOut) buf sink hout hnames
      rw [put_of_sink, h.2.source d fdOut hout, put_of_sink] at hputs
      rw [h.2.capacity d fdIn p hnames, h.world hout hnames, h.2.source d fdOut hout] at hk
      exact ⟨_, .inr (.inl ⟨⟨p, buf, sink, hp, hk, rfl⟩, hoff⟩), hputs⟩
    · exact absurd hpo (hnot p)

/-- What a task does on the kernel of all, it does on its own, and no other task can tell. -/
theorem Tenancy.step (h : Tenancy ends o₀ l o) {e : Event sys}
    (htame : Tame (ends d) (l d).table e.call) (he : os o e o') :
    ∃ v, os (l d) e v ∧ Tenancy ends o₀ (update l d v) o' := by
  have idle : Tenancy ends o₀ (update l d (l d)) o := by rwa [update_eq_self]
  have names {n : BorrowedFd} {p : ℕ} (hn : (l d).table n ≠ none) (hp : o.Names n p) :
      (l d).Names n p := by
    simpa only [Os.Names, h.1.fd d n (table_ne_none.mp hn)] using hp
  rcases e with ⟨_ | ⟨n, size⟩ | n | fd | _ | _ | _ | _ | _ | _, a⟩
  case pipeWith flags =>
    rcases a with e | ⟨drainFd, fillFd⟩
    · cases he
      exact ⟨l d, rfl, idle⟩
    · obtain ⟨hd, hf, hne, p, cap, hp, rfl⟩ := he
      have hfds : drainFd.asFd ≠ fillFd.asFd := by
        intro heq
        exact hne (by cases drainFd; cases fillFd; cases heq; rfl)
      exact ⟨_, ⟨h.1.free hd d, h.1.free hf d, hne, p, cap, fun n hn => hp n (h.1.names hn), rfl⟩,
        h.1.opens hd hf hfds hp, h.2.opens h.1 hfds hp⟩
  case fcntlSetpipeSize =>
    rcases a with e | size
    · cases he
      exact ⟨l d, rfl, idle⟩
    · obtain ⟨p, cap, hp, hle, rfl⟩ := he
      have hnames := names htame.2 hp
      rw [h.2.pipe d n p hnames] at hle
      exact ⟨_, ⟨p, cap, hnames, hle, rfl⟩, h.resizes hnames⟩
  case fcntlGetpipeSize =>
    rcases a with e | size
    · cases he
      exact ⟨l d, rfl, idle⟩
    · obtain ⟨⟨p, hp⟩, rfl⟩ := he
      exact ⟨l d, ⟨⟨p, names htame.2 hp⟩, rfl⟩, idle⟩
  case close =>
    cases he
    exact ⟨_, rfl, h.closes (table_ne_none.mp htame.2) htame.1⟩
  case splice => exact h.splices htame he
  all_goals
    cases he
    exact ⟨l d, rfl, idle⟩

/-- Nor does a kernel that fails no call fail one of a private kernel. -/
theorem Tenancy.step_smooth (h : Tenancy ends o₀ l o) {e : Event sys}
    (htame : Tame (ends d) (l d).table e.call) (he : smooth o e o') :
    ∃ v, smooth (l d) e v ∧ Tenancy ends o₀ (update l d v) o' := by
  obtain ⟨hos, hunfailing, hobliges⟩ := he
  obtain ⟨v, hv, htenancy⟩ := h.step htame hos
  refine ⟨v, ⟨hv, hunfailing, ?_⟩, htenancy⟩
  rcases e with ⟨_ | _ | _ | _ | ⟨fdIn, offIn, fdOut, offOut, len, flags⟩ | _ | _ | ⟨fd, interest⟩ |
    _ | _, a⟩
  case splice =>
    rcases a with ⟨e | n, off, off'⟩
    · exact hobliges
    · intro p hp
      exact hobliges p ((h.1.fd d fdIn (by simp [hp])).trans hp)
  case tryIo => cases interest <;> cases a <;> exact hobliges
  case suspend => cases a <;> exact hobliges
  all_goals exact trivial

/-! ### Owners -/

/-- The record: the ends of a new pipe are its maker's until they are closed. -/
def opens (x : BorrowedFd → Option D) (d : D) : Event sys → BorrowedFd → Option D
  | ⟨.pipeWith _, .ok (drainFd, fillFd)⟩ =>
    update (update x drainFd.asFd (some d)) fillFd.asFd (some d)
  | ⟨.close fd, _⟩ => update x fd.asFd none
  | _ => x

theorem Owned.step {x : BorrowedFd → Option D} {e : Event sys} (h : Owned ends l x)
    (hl : Leases ends o₀ l o) (htame : Tame (ends d) (l d).table e.call) (he : os o e o')
    (hv : os (l d) e v) : Owned ends (update l d v) (opens x d e) := by
  have htable := os_descriptors hv
  -- off the descriptors that the event opens or closes, all is as before
  have old {d' : D} {n : BorrowedFd} (hn : v.table n = (l d).table n)
      (hopen : (update l d v d').fd n ≠ none) : (l d').fd n ≠ none := by
    by_cases hd : d' = d
    · rw [hd] at hopen ⊢
      rw [update_self, ← table_ne_none, hn] at hopen
      exact table_ne_none.mp hopen
    · rwa [update_of_ne hd] at hopen
  intro d' n hopen hmem
  rcases e with ⟨_ | _ | _ | fd | _ | _ | _ | _ | _ | _, a⟩
  case pipeWith flags =>
    rcases a with e | ⟨drainFd, fillFd⟩
    · exact h d' n (old (congrFun htable n) hopen) hmem
    · obtain ⟨hd, hf, -⟩ := he
      obtain ⟨-, -, -, htable⟩ := htable
      by_cases hn : n = drainFd.asFd ∨ n = fillFd.asFd
      · have hself : d' = d := by
          by_contra hne
          rw [update_of_ne hne] at hopen
          exact hopen (hl.free_ends hd hf d' hn)
        rw [hself]
        rcases hn with rfl | rfl <;> simp [opens, update_apply]
      · obtain ⟨hnd, hnf⟩ := not_or.mp hn
        simp only [opens, update_of_ne hnd, update_of_ne hnf]
        refine h d' n (old ?_ hopen) hmem
        rw [htable, update_of_ne hnf, update_of_ne hnd]
  case close =>
    have hne : n ≠ fd.asFd := by
      rintro rfl
      by_cases hself : d' = d
      · rw [hself, update_self, ← table_ne_none, htable, update_self] at hopen
        exact hopen rfl
      · rw [update_of_ne hself] at hopen
        exact hopen (hl.apart d d' _ hself (table_ne_none.mp htame.2))
    simp only [opens, update_of_ne hne]
    refine h d' n (old ?_ hopen) hmem
    rw [htable, update_of_ne hne]
  all_goals exact h d' n (old (congrFun htable n) hopen) hmem

end Tenancy

end Splicer
