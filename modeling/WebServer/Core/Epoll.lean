/-
An epoll instance: the sockets, the interest in each of them, and the list of those that are ready.

The kernel puts a socket of interest on the ready list when bytes or the end of the stream arrive, and looks at it once
when the interest is added. `epoll_wait` reports sockets of the ready list that can be read at that moment. A
socket that is watched for edges leaves the list when it is reported; one that is watched for its level stays.

- `Watched`: a socket of interest that can be read is on the ready list, or its owner still has to deal with it
  (`pending`). There is one lemma for each operation.
- `Watched.quiet`: where `epoll_wait` blocks, nothing can be read but on sockets that the owner still deals with.
-/
import WebServer.Core.Buf
import Mathlib.Tactic

namespace WebServer

/-! ## Sockets -/

/-- a stream socket, from the side of the process that holds it -/
structure Sock where
  /-- all that the peer has sent -/
  arrived : Bytes
  /-- how many of these bytes have been read -/
  taken : ℕ
  /-- the peer has closed its end -/
  eof : Bool
  /-- all that has been written to the peer -/
  outbox : Bytes
deriving DecidableEq, Repr

namespace Sock

def unread (k : Sock) : Bytes := k.arrived.drop k.taken

def readable (k : Sock) : Bool := !k.unread.isEmpty || k.eof

theorem readable_iff {k : Sock} : k.readable = true ↔ k.unread ≠ [] ∨ k.eof = true := by
  unfold readable
  cases k.unread <;> simp

theorem readable_eq_false {k : Sock} : k.readable = false ↔ k.unread = [] ∧ k.eof = false := by
  unfold readable
  cases k.unread <;> simp

/-- `n` bytes are read, and `bs` is written -/
def answer (k : Sock) (n : ℕ) (bs : Bytes) : Sock := { k with taken := k.taken + n, outbox := k.outbox ++ bs }

theorem readable_of_answer {k : Sock} {n : ℕ} {bs : Bytes} (h : (k.answer n bs).readable = true) :
    k.readable = true := by
  rw [readable_iff] at *
  refine h.imp_left fun hne hnil => hne ?_
  calc (k.answer n bs).unread = k.unread.drop n := List.drop_drop.symm
    _ = [] := by rw [hnil, List.drop_nil]

end Sock

/-! ## The instance -/

inductive Trigger where
  | level
  | edge
deriving DecidableEq, Repr

structure Epoll (ι : Type*) where
  sock : ι → Sock
  interest : ι → Option Trigger
  ready : ι → Bool

namespace Epoll

variable {ι : Type*}

/-- the sockets that `epoll_wait` may report -/
def reportable (e : Epoll ι) (i : ι) : Bool := e.ready i && (e.sock i).readable

/-! ## No readable socket is forgotten -/

def Watched (pending : ι → Prop) (e : Epoll ι) : Prop :=
  ∀ i, (e.interest i).isSome = true → (e.sock i).readable = true → e.ready i = true ∨ pending i

variable {e : Epoll ι} {pending pending' : ι → Prop} {i : ι}

/-- the owner is done with some sockets: they cannot be read any more, or are of no interest -/
theorem Watched.mono (h : Watched pending e)
    (hp : ∀ i, (e.interest i).isSome = true → (e.sock i).readable = true → pending i → pending' i) :
    Watched pending' e :=
  fun j hj hr => (h j hj hr).imp_right (hp j hj hr)

/-- **Where `epoll_wait` blocks, nothing is left to read** but what the process still deals with. -/
theorem Watched.quiet (h : Watched pending e) (hq : e.reportable i = false) (hi : (e.interest i).isSome = true)
    (hp : ¬ pending i) : (e.sock i).readable = false := by
  by_contra hr
  rw [Bool.not_eq_false] at hr
  rcases h i hi hr with hready | hpend
  · rw [reportable, hready, hr] at hq
    cases hq
  · exact hp hpend

/-! ## Operations -/

variable [DecidableEq ι]

/-- the process reads from or writes to a socket -/
def set (e : Epoll ι) (i : ι) (k : Sock) : Epoll ι := { e with sock := Function.update e.sock i k }

/-- something arrives at a socket -/
def deliver (e : Epoll ι) (i : ι) (k : Sock) : Epoll ι :=
  { e with
    sock := Function.update e.sock i k
    ready := Function.update e.ready i ((e.interest i).isSome || e.ready i) }

def arrive (e : Epoll ι) (i : ι) (bs : Bytes) : Epoll ι :=
  e.deliver i { e.sock i with arrived := (e.sock i).arrived ++ bs }

def hangup (e : Epoll ι) (i : ι) : Epoll ι := e.deliver i { e.sock i with eof := true }

/-- EPOLL_CTL_ADD, which fails where there is an interest already -/
def add (e : Epoll ι) (i : ι) (tr : Trigger) : Epoll ι :=
  if (e.interest i).isSome then e
  else
    { e with
      interest := Function.update e.interest i (some tr)
      ready := Function.update e.ready i (e.sock i).readable }

/-- EPOLL_CTL_DEL -/
def del (e : Epoll ι) (i : ι) : Epoll ι :=
  { e with interest := Function.update e.interest i none, ready := Function.update e.ready i false }

/-- `epoll_wait` reports `batch` -/
def report (e : Epoll ι) (batch : List ι) : Epoll ι :=
  { e with ready := fun i => e.ready i && !(decide (i ∈ batch) && decide (e.interest i = some .edge)) }

/-! ## The operations keep every readable socket watched -/

theorem Watched.deliver (h : Watched pending e) (i : ι) (k : Sock) : Watched pending (e.deliver i k) := by
  intro j hj hr
  by_cases hji : j = i
  · subst hji
    have hint : (e.interest j).isSome = true := hj
    exact Or.inl (by simp [Epoll.deliver, hint])
  · simp only [Epoll.deliver, Function.update_of_ne hji] at hr ⊢
    exact h j hj hr

theorem Watched.set (h : Watched pending e) {k : Sock} (hk : k.readable = true → (e.sock i).readable = true) :
    Watched pending (e.set i k) := by
  intro j hj hr
  by_cases hji : j = i
  · subst hji
    simp only [Epoll.set, Function.update_self] at hr
    exact h j hj (hk hr)
  · simp only [Epoll.set, Function.update_of_ne hji] at hr
    exact h j hj hr

theorem Watched.add (h : Watched pending e) (i : ι) (tr : Trigger) : Watched pending (e.add i tr) := by
  unfold Epoll.add
  split_ifs with hi
  · exact h
  · intro j hj hr
    by_cases hji : j = i
    · subst hji
      exact Or.inl (by simpa using hr)
    · simp only [Function.update_of_ne hji] at hj ⊢
      exact h j hj hr

/-- a new socket is put under a descriptor that was free, and watched -/
theorem Watched.accept (h : Watched pending e) (hi : (e.interest i).isSome = false) (k : Sock) (tr : Trigger) :
    Watched pending ((e.set i k).add i tr) := by
  refine Watched.add (fun j hj hr => ?_) i tr
  have hji : j ≠ i := by
    rintro rfl
    exact absurd (hi.symm.trans hj) Bool.false_ne_true
  simp only [Epoll.set, Function.update_of_ne hji] at hr
  exact h j hj hr

theorem Watched.del (h : Watched pending e) (i : ι) : Watched pending (e.del i) := by
  intro j hj hr
  by_cases hji : j = i
  · subst hji
    simp [Epoll.del] at hj
  · simp only [Epoll.del, Function.update_of_ne hji] at hj ⊢
    exact h j hj hr

/-- a report makes the sockets that leave the list the business of the process -/
theorem Watched.report (h : Watched pending e) (batch : List ι)
    (hp : ∀ i, pending i → pending' i) (hb : ∀ i ∈ batch, e.interest i = some .edge → pending' i) :
    Watched pending' (e.report batch) := by
  intro j hj hr
  rcases h j hj hr with hready | hpend
  · by_cases hleave : j ∈ batch ∧ e.interest j = some .edge
    · exact Or.inr (hb j hleave.1 hleave.2)
    · left
      rw [not_and_or] at hleave
      simp only [Epoll.report, hready, Bool.true_and]
      simpa using hleave
  · exact Or.inr (hp j hpend)

end Epoll

end WebServer
