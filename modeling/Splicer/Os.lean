import Splicer.Descriptors
import Splicer.Kernel

/-! A kernel of many descriptors, pipes and streams, and the part of it that one transfer sees. -/
namespace Splicer

open Interaction Function

inductive FdObject where
  | drainEnd (pipe : ℕ)
  | fillEnd (pipe : ℕ)
  | other
  deriving DecidableEq, Repr

/-- Descriptors name pipe ends or other files; each of the latter has bytes to read and a place to
write them to. -/
structure Os where
  fd : BorrowedFd → Option FdObject
  pipe : ℕ → List UInt8
  capacity : ℕ → ℕ
  source : BorrowedFd → Source
  sink : BorrowedFd → Sink

namespace Os

/-- What a transfer from `r` to `w` through the pipe `p` sees. -/
def world (o : Os) (r w : BorrowedFd) (p : ℕ) : World := ⟨o.source r, o.pipe p, o.sink w⟩

def Names (o : Os) (n : BorrowedFd) (p : ℕ) : Prop :=
  o.fd n = some (.drainEnd p) ∨ o.fd n = some (.fillEnd p)

end Os

/-- A splice into the pipe whose fill end is `fdOut`. -/
def SplicesIn (o : Os) (fdIn : BorrowedFd) (offIn : Option ℕ) (fdOut : BorrowedFd) (len : ℕ)
    (a : SpliceAnswer) (o' : Os) : Prop :=
  ∃ p source buf, o.fd fdOut = some (.fillEnd p) ∧
    kernel (o.capacity p) (o.world fdIn fdIn p) ⟨.spliceIn offIn len, ⟨a.ret, a.offIn⟩⟩
      ⟨source, buf, o.sink fdIn⟩ ∧
    o' = { o with source := update o.source fdIn source, pipe := update o.pipe p buf }

/-- A splice out of the pipe whose drain end is `fdIn`. -/
def SplicesOut (o : Os) (fdIn fdOut : BorrowedFd) (offOut : Option ℕ) (len : ℕ)
    (a : SpliceAnswer) (o' : Os) : Prop :=
  ∃ p buf sink, o.fd fdIn = some (.drainEnd p) ∧
    kernel (o.capacity p) (o.world fdOut fdOut p) ⟨.spliceOut offOut len, ⟨a.ret, a.offOut⟩⟩
      ⟨o.source fdOut, buf, sink⟩ ∧
    o' = { o with sink := update o.sink fdOut sink, pipe := update o.pipe p buf }

/-- A new pipe is empty, and is named by its two ends alone; a splice goes through the pipe that
one of its descriptors names. The size that `fcntl(2)` answers is a nominal one: it says nothing of
the bytes that fit. -/
def os : Env sys Os := fun o e o' =>
  match e with
  | ⟨.pipeWith _, .ok (drainFd, fillFd)⟩ =>
    o.fd drainFd.asFd = none ∧ o.fd fillFd.asFd = none ∧ drainFd ≠ fillFd ∧
      ∃ p cap, (∀ n, ¬ o.Names n p) ∧
        o' = { o with
          fd := update (update o.fd drainFd.asFd (some (.drainEnd p))) fillFd.asFd
            (some (.fillEnd p))
          pipe := update o.pipe p []
          capacity := update o.capacity p cap }
  | ⟨.fcntlSetpipeSize fd _, .ok _⟩ =>
    ∃ p cap, o.Names fd p ∧ (o.pipe p).length ≤ cap ∧
      o' = { o with capacity := update o.capacity p cap }
  | ⟨.fcntlGetpipeSize fd, .ok _⟩ => (∃ p, o.Names fd p) ∧ o' = o
  | ⟨.close fd, _⟩ => o' = { o with fd := update o.fd fd.asFd none }
  | ⟨.splice fdIn offIn fdOut offOut len _, a⟩ =>
    SplicesIn o fdIn offIn fdOut len a o' ∧ offOut = none ∨
      SplicesOut o fdIn fdOut offOut len a o' ∧ offIn = none ∨
      (∃ e, a.ret = .error e) ∧ (∀ p, o.fd fdOut ≠ some (.fillEnd p)) ∧
        (∀ p, o.fd fdIn ≠ some (.drainEnd p)) ∧ o' = o
  | _ => o' = o

/-- The pipe's ends name `p`. -/
structure Plugged (o : Os) (p : ℕ) (pipe : Pipe) : Prop where
  drain : ∀ fd, pipe.drainFd = some fd → o.fd fd.asFd = some (.drainEnd p)
  fill : ∀ fd, pipe.fillFd = some fd → o.fd fd.asFd = some (.fillEnd p)

/-- The two ends of a transfer are open, and are no pipes. -/
structure Ends (o : Os) (r w : BorrowedFd) : Prop where
  reader : o.fd r = some .other
  writer : o.fd w = some .other

/-- All that a transfer from `r` to `w` through `pipe` needs of the kernel. -/
structure Rigged (o : Os) (r w : BorrowedFd) (p : ℕ) (pipe : Pipe) : Prop
  extends Ends o r w, Plugged o p pipe

/-- No bytes but the reader's, the writer's and the pipe's have changed. -/
structure Aside (r w : BorrowedFd) (p : ℕ) (o o' : Os) : Prop where
  capacity : o'.capacity = o.capacity
  pipe : ∀ q, q ≠ p → o'.pipe q = o.pipe q
  source : ∀ n, n ≠ r → o'.source n = o.source n
  sink : ∀ n, n ≠ w → o'.sink n = o.sink n

/-- Nor has any descriptor. -/
structure Beside (r w : BorrowedFd) (p : ℕ) (o o' : Os) : Prop extends Aside r w p o o' where
  fd : o'.fd = o.fd

section Refinement

variable {o o' : Os} {r w : AsyncFd} {p cap : ℕ} {pipe : Pipe} {e : Event calls} {c : Call}

theorem Aside.refl (r w : BorrowedFd) (p : ℕ) (o : Os) : Aside r w p o o :=
  ⟨rfl, fun _ _ => rfl, fun _ _ => rfl, fun _ _ => rfl⟩

theorem Beside.refl (r w : BorrowedFd) (p : ℕ) (o : Os) : Beside r w p o o :=
  ⟨.refl r w p o, rfl⟩

theorem kernel_spliceIn_sink {s s' : Source} {b b' : List UInt8} {k k' : Sink} {off : Option ℕ}
    {len : ℕ} {a : Spliced} (h : kernel cap ⟨s, b, k⟩ ⟨.spliceIn off len, a⟩ ⟨s', b', k⟩) :
    kernel cap ⟨s, b, k'⟩ ⟨.spliceIn off len, a⟩ ⟨s', b', k'⟩ := by
  rcases a with ⟨e | n, off'⟩
  · simpa [kernel] using h
  · simpa [kernel] using h

theorem kernel_spliceOut_source {s s' : Source} {b b' : List UInt8} {k k' : Sink} {off : Option ℕ}
    {len : ℕ} {a : Spliced} (h : kernel cap ⟨s, b, k⟩ ⟨.spliceOut off len, a⟩ ⟨s, b', k'⟩) :
    kernel cap ⟨s', b, k⟩ ⟨.spliceOut off len, a⟩ ⟨s', b', k'⟩ := by
  rcases a with ⟨e | n, off'⟩
  · simpa [kernel] using h
  · simpa [kernel] using h

theorem splicesIn_refines {r w : BorrowedFd} {fd : BorrowedFd} {off : Option ℕ} {len : ℕ}
    {a : SpliceAnswer} (hfd : o.fd fd = some (.fillEnd p)) (h : SplicesIn o r off fd len a o') :
    kernel (o.capacity p) (o.world r w p) ⟨.spliceIn off len, ⟨a.ret, a.offIn⟩⟩ (o'.world r w p) ∧
      Beside r w p o o' := by
  obtain ⟨q, source, buf, hq, hk, rfl⟩ := h
  cases hfd.symm.trans hq
  refine ⟨?_, ⟨rfl, fun q hq => update_of_ne hq _ _, fun n hn => update_of_ne hn _ _,
    fun _ _ => rfl⟩, rfl⟩
  simpa only [Os.world, update_self] using kernel_spliceIn_sink hk

theorem splicesOut_refines {r w : BorrowedFd} {fd : BorrowedFd} {off : Option ℕ} {len : ℕ}
    {a : SpliceAnswer} (hfd : o.fd fd = some (.drainEnd p)) (h : SplicesOut o fd w off len a o') :
    kernel (o.capacity p) (o.world r w p) ⟨.spliceOut off len, ⟨a.ret, a.offOut⟩⟩
      (o'.world r w p) ∧ Beside r w p o o' := by
  obtain ⟨q, buf, sink, hq, hk, rfl⟩ := h
  cases hfd.symm.trans hq
  refine ⟨?_, ⟨rfl, fun q hq => update_of_ne hq _ _, fun _ _ => rfl,
    fun n hn => update_of_ne hn _ _⟩, rfl⟩
  simpa only [Os.world, update_self] using kernel_spliceOut_source hk

/-- The answer of an implemented call is the kernel's answer to the call. -/
def Refines (r w : BorrowedFd) (p : ℕ) (o : Os) (c : Call) (out : Outcome sys (Answer c.channel))
    (o' : Os) : Prop :=
  ∀ a, out = .val a →
    kernel (o.capacity p) (o.world r w p) ⟨c, a⟩ (o'.world r w p) ∧ Beside r w p o o'

theorem implement_refines (h : Rigged o r.asFd w.asFd p pipe) (c : Call) :
    (implement r w pipe c).wp os (fun _ _ => True) (Refines r.asFd w.asFd p o c) o := by
  have same {c : Call} {a : Answer c.channel} (hk : kernel (o.capacity p)
      (o.world r.asFd w.asFd p) ⟨c, a⟩ (o.world r.asFd w.asFd p)) :
      Refines r.asFd w.asFd p o c (.val a) o := by
    rintro _ ⟨⟩
    exact ⟨hk, .refl _ _ _ _⟩
  cases c with
  | pollReadReady | tryIoRead =>
    cases r with
    | socket fd =>
      refine ⟨trivial, ?_⟩
      rintro a o' rfl
      exact same rfl
    | file fd => exact same rfl
  | pollWriteReady | tryIoWrite =>
    cases w with
    | socket fd =>
      refine ⟨trivial, ?_⟩
      rintro a o' rfl
      exact same rfl
    | file fd => exact same rfl
  | pollShutdown =>
    refine ⟨trivial, ?_⟩
    rintro a o' rfl
    exact same rfl
  | spliceIn offIn maxLen =>
    cases hf : pipe.fillFd with
    | none =>
      simp only [implement, hf]
      rintro a ⟨⟩
    | some fd =>
      have hfd := h.fill fd hf
      simp only [implement, hf]
      refine ⟨trivial, ?_⟩
      rintro a o' (⟨hin, -⟩ | ⟨⟨q, -, -, hq, -⟩, -⟩ | ⟨-, hnot, -⟩)
      · rintro _ ⟨⟩
        exact splicesIn_refines hfd hin
      · cases h.reader.symm.trans hq
      · exact absurd hfd (hnot p)
  | spliceOut offOut maxLen =>
    cases hd : pipe.drainFd with
    | none =>
      simp only [implement, hd]
      rintro a ⟨⟩
    | some fd =>
      have hfd := h.drain fd hd
      simp only [implement, hd]
      refine ⟨trivial, ?_⟩
      rintro a o' (⟨⟨q, -, -, hq, -⟩, -⟩ | ⟨hout, -⟩ | ⟨-, -, hnot, -⟩)
      · cases h.writer.symm.trans hq
      · rintro _ ⟨⟩
        exact splicesOut_refines hfd hout
      · exact absurd hfd (hnot p)

/-- Seen through `Live` and the instances of the two ends, the kernel is the one of the transfer. -/
theorem through_os (hrig : Rigged o r.asFd w.asFd p pipe)
    (h : (os.through (implement r w pipe)) o e o') :
    kernel (o.capacity p) (o.world r.asFd w.asFd p) e (o'.world r.asFd w.asFd p) ∧
      Beside r.asFd w.asFd p o o' := by
  obtain ⟨es, hr, ha⟩ := h
  exact Prog.wp_post (implement_refines hrig e.call) hr ha e.answer rfl

end Refinement

end Splicer
