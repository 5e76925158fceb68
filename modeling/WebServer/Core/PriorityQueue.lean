/-
A priority queue, as its users see it: `top` is an element before which none comes, `pop` removes it, `push` adds one.

The elements are kept in the order in which they leave the queue, and the order is part of the type. How an
implementation lays them out shows in none of the operations.

- `top_spec`, `push_perm`: which elements the operations take and leave.
- `push_cases`, `push_first`: the first element after a `push` is an old one or the new one; it is the new one if that
  comes before all old ones.
- `drain_eq`: popping until the queue is empty gives the elements in order.
-/
import Mathlib.Data.List.Sort

namespace WebServer

structure PriorityQueue {α : Type*} (r : α → α → Prop) where
  elems : List α
  sorted : elems.Pairwise r

namespace PriorityQueue

variable {α : Type*} {r : α → α → Prop}

def empty : PriorityQueue r := ⟨[], List.Pairwise.nil⟩

def size (q : PriorityQueue r) : ℕ := q.elems.length

def top (q : PriorityQueue r) : Option α := q.elems.head?

def pop (q : PriorityQueue r) : PriorityQueue r := ⟨q.elems.tail, q.sorted.tail⟩

def push [DecidableRel r] [Std.Total r] [IsTrans α r] (q : PriorityQueue r) (x : α) : PriorityQueue r :=
  ⟨q.elems.orderedInsert r x, q.sorted.orderedInsert x q.elems⟩

/-- `while (!q.empty())` the top is printed and popped, for at most `fuel` elements -/
def drain : ℕ → PriorityQueue r → List α
  | 0, _ => []
  | fuel + 1, q =>
    match q.top with
    | none => []
    | some x => x :: drain fuel q.pop

/-! ## Elements -/

theorem top_spec {q : PriorityQueue r} {x : α} (h : q.top = some x) :
    q.elems = x :: q.pop.elems ∧ ∀ y ∈ q.pop.elems, r x y := by
  obtain ⟨l, hl⟩ := List.head?_eq_some_iff.1 h
  have hpop : q.pop.elems = l := (congrArg List.tail hl : q.elems.tail = l)
  have hsorted := q.sorted
  rw [hl, List.pairwise_cons] at hsorted
  rw [hpop]
  exact ⟨hl, hsorted.1⟩

theorem top_mem {q : PriorityQueue r} {x : α} (h : q.top = some x) : x ∈ q.elems := by
  rw [(top_spec h).1]
  exact List.mem_cons_self

theorem size_pop {q : PriorityQueue r} {x : α} (h : q.top = some x) : q.size = q.pop.size + 1 := by
  rw [size, (top_spec h).1, List.length_cons]
  rfl

theorem top_isSome {q : PriorityQueue r} (h : 0 < q.size) : ∃ x, q.top = some x := by
  obtain ⟨x, l, hl⟩ := List.exists_cons_of_length_pos h
  exact ⟨x, by rw [top, hl, List.head?_cons]⟩

theorem drain_eq (q : PriorityQueue r) : drain q.size q = q.elems := by
  generalize hn : q.size = n
  induction n generalizing q with
  | zero => exact (List.length_eq_zero_iff.1 hn).symm
  | succ n ih =>
    obtain ⟨x, hx⟩ := top_isSome (hn.symm ▸ Nat.succ_pos n : 0 < q.size)
    have hsize : q.pop.size = n := Nat.succ.inj ((size_pop hx).symm.trans hn)
    simp only [drain, hx]
    rw [ih q.pop hsize, ← (top_spec hx).1]

theorem top_rel [Std.Total r] {q : PriorityQueue r} {x y : α} (h : q.top = some x) (hy : y ∈ q.elems) : r x y := by
  obtain ⟨helems, hrest⟩ := top_spec h
  rw [helems] at hy
  rcases List.mem_cons.1 hy with rfl | hy
  · exact or_self_iff.1 (Std.Total.total y y)
  · exact hrest y hy

/-! ## Adding an element -/

variable [DecidableRel r] [Std.Total r] [IsTrans α r]

theorem push_perm (q : PriorityQueue r) (x : α) : (q.push x).elems.Perm (x :: q.elems) :=
  List.perm_orderedInsert r x q.elems

theorem size_push (q : PriorityQueue r) (x : α) : (q.push x).size = q.size + 1 := (q.push_perm x).length_eq

theorem mem_push {q : PriorityQueue r} {x y : α} : y ∈ (q.push x).elems ↔ y = x ∨ y ∈ q.elems := by
  rw [(q.push_perm x).mem_iff, List.mem_cons]

/-- the first element is an old one, or it is the new one and all old ones are left -/
theorem push_cases {q : PriorityQueue r} {x t : α} (h : (q.push x).top = some t) :
    t ∈ q.elems ∨ (t = x ∧ (q.push x).pop.elems.Perm q.elems) := by
  rcases mem_push.1 (top_mem h) with rfl | hmem
  · have hperm := q.push_perm t
    rw [(top_spec h).1] at hperm
    exact Or.inr ⟨rfl, hperm.cons_inv⟩
  · exact Or.inl hmem

/-- a new element that comes before all old ones is the first -/
theorem push_first {q : PriorityQueue r} {x t : α} (h : (q.push x).top = some t) (hx : ∀ y ∈ q.elems, ¬ r y x) :
    t = x ∧ (q.push x).pop.elems.Perm q.elems := by
  rcases push_cases h with hold | hnew
  · exact absurd (top_rel h (mem_push.2 (Or.inl rfl))) (hx t hold)
  · exact hnew

end PriorityQueue

end WebServer
