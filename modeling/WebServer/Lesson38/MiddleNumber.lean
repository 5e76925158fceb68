/-
`middleNumber` of lesson38/test.cpp: the median of an array by two priority queues.

Every number goes to `q1` first, whose top is the smallest. If `q1` then has two elements more than `q2`, its top moves to
`q2`, whose top is the largest, and the tops are swapped while they are in the wrong order. The numbers are `int`s and
only compared; the average of the two middle ones is taken in `int` arithmetic.

- `Balanced`: the queues hold the numbers read so far, the smaller half in `q2`.
- `addNumber_balanced`: an iteration keeps that, and its inner loop runs at most once.
- `Balanced.sorted`: the numbers in order are those of `q2` and then those of `q1`.
- `middleNumber_balances`: the state after every iteration, and the middle elements at the end.
-/
import WebServer.Core.CString
import WebServer.Core.Loop
import WebServer.Core.PriorityQueue

namespace WebServer.Lesson38

open WebServer

/-! ## Model -/

structure Heaps where
  /-- `priority_queue<int, vector<int>, greater<int>>` -/
  q1 : PriorityQueue fun x y : ℤ => x ≤ y
  /-- `priority_queue<int, vector<int>, less<int>>` -/
  q2 : PriorityQueue fun x y : ℤ => x ≥ y

/-- subtraction of `size_t` values -/
def sizeSub (m n : ℕ) : ℕ := if n ≤ m then m - n else 2 ^ 64 + m - n

/-- the `push` and the `if` of an iteration -/
def pushNumber (x : ℤ) (h : Heaps) : Heaps :=
  let q1 := h.q1.push x
  if sizeSub q1.size 1 > h.q2.size then
    match q1.top with
    | some t => ⟨q1.pop, h.q2.push t⟩
    | none => ⟨q1, h.q2⟩
  else ⟨q1, h.q2⟩

/-- one round of the inner `while` -/
def swapTops (h : Heaps) : Heaps ⊕ Heaps :=
  match h.q1.top, h.q2.top with
  | some x, some y => if x < y then .inl ⟨h.q1.pop.push y, h.q2.pop.push x⟩ else .inr h
  | _, _ => .inr h

/-- an iteration whose inner loop evaluates its condition at most `fuel` times -/
def addNumber (fuel : ℕ) (h : Heaps) (x : ℤ) : Option Heaps := Loop.iterate swapTops fuel (pushNumber x h)

/-- the `for` loop -/
def addNumbers (fuel : ℕ) (a : List ℤ) : Option Heaps := a.foldlM (addNumber fuel) ⟨.empty, .empty⟩

/-- the three lines of output -/
structure Output where
  middle : ℤ
  upper : List ℤ
  lower : List ℤ
deriving DecidableEq, Repr

/-- the first line; `none` if `top` is called on an empty queue -/
def printMiddle (h : Heaps) : Option ℤ :=
  if h.q1.size > h.q2.size then h.q1.top
  else
    match h.q1.top, h.q2.top with
    | some x, some y => some ((int32 (x + y)).tdiv 2)
    | _, _ => none

def middleNumber (fuel : ℕ) (a : List ℤ) : Option Output :=
  match addNumbers fuel a with
  | none => none
  | some h => (printMiddle h).map fun m => ⟨m, h.q1.drain h.q1.size, h.q2.drain h.q2.size⟩

/-! ## One iteration -/

/-- `a` are the numbers read so far -/
structure Balanced (a : List ℤ) (h : Heaps) : Prop where
  perm : (h.q1.elems ++ h.q2.elems).Perm a
  sizes : h.q1.size = h.q2.size ∨ h.q1.size = h.q2.size + 1
  ordered : ∀ y ∈ h.q2.elems, ∀ x ∈ h.q1.elems, y ≤ x

variable {a : List ℤ} {h : Heaps}

theorem sizeSub_push (h : Heaps) (x : ℤ) : sizeSub (h.q1.push x).size 1 = h.q1.size := by
  rw [PriorityQueue.size_push, sizeSub, if_pos (Nat.le_add_left 1 _), Nat.add_sub_cancel]

/-- the inner loop ends when no element of `q2` is larger than one of `q1` -/
theorem swapTops_ordered (h : Heaps) (ho : ∀ y ∈ h.q2.elems, ∀ x ∈ h.q1.elems, y ≤ x) : swapTops h = .inr h := by
  unfold swapTops
  cases hx : h.q1.top with
  | none => rfl
  | some x =>
    cases hy : h.q2.top with
    | none => rfl
    | some y => exact if_neg (not_lt.2 (ho y (PriorityQueue.top_mem hy) x (PriorityQueue.top_mem hx)))

theorem pushNumber_equal (hs : h.q1.size = h.q2.size) (x : ℤ) : pushNumber x h = ⟨h.q1.push x, h.q2⟩ := by
  simp only [pushNumber, sizeSub_push, hs]
  exact if_neg (lt_irrefl _)

theorem pushNumber_larger (hs : h.q1.size = h.q2.size + 1) {x t : ℤ} (ht : (h.q1.push x).top = some t) :
    pushNumber x h = ⟨(h.q1.push x).pop, h.q2.push t⟩ := by
  simp only [pushNumber, sizeSub_push, hs, ht]
  exact if_pos (Nat.lt_succ_self _)

theorem Balanced.perm_cons (hb : Balanced a h) (x : ℤ) : (x :: (h.q1.elems ++ h.q2.elems)).Perm (a ++ [x]) :=
  (hb.perm.cons x).trans (List.perm_append_singleton x a).symm

/-- a number below an element of `q2` is below all of `q1` -/
theorem Balanced.below (hb : Balanced a h) {x y : ℤ} (hy : y ∈ h.q2.elems) (hxy : x < y) : ∀ z ∈ h.q1.elems, ¬ z ≤ x :=
  fun z hz => not_le.2 (hxy.trans_le (hb.ordered y hy z hz))

/-- with queues of the same size, and the new number is not below `q2` -/
theorem Balanced.stay (hb : Balanced a h) (hs : h.q1.size = h.q2.size) {x : ℤ} (hx : ∀ y ∈ h.q2.elems, y ≤ x) :
    Balanced (a ++ [x]) ⟨h.q1.push x, h.q2⟩ where
  perm := by
    have hpush : ((h.q1.push x).elems ++ h.q2.elems).Perm (x :: (h.q1.elems ++ h.q2.elems)) :=
      (h.q1.push_perm x).append_right _
    exact hpush.trans (hb.perm_cons x)
  sizes := Or.inr (by rw [PriorityQueue.size_push, hs])
  ordered := by
    intro y hy z hz
    rcases PriorityQueue.mem_push.1 hz with rfl | hz
    · exact hx y hy
    · exact hb.ordered y hy z hz

/-- with queues of the same size, and the new number is below the top `y` of `q2`: the two are swapped -/
theorem Balanced.swap (hb : Balanced a h) (hs : h.q1.size = h.q2.size) {x y : ℤ} (hy : h.q2.top = some y) (hxy : x < y)
    (ht : (h.q1.push x).top = some x) :
    Balanced (a ++ [x]) ⟨(h.q1.push x).pop.push y, h.q2.pop.push x⟩ := by
  have hy1 : ∀ z ∈ h.q1.elems, y ≤ z := hb.ordered y (PriorityQueue.top_mem hy)
  obtain ⟨hq2, hmax⟩ := PriorityQueue.top_spec hy
  -- all of the old `q1` is left, since `x` is smaller than all of it
  have hleft : (h.q1.push x).pop.elems.Perm h.q1.elems :=
    (PriorityQueue.push_first ht (hb.below (PriorityQueue.top_mem hy) hxy)).2
  refine ⟨?_, ?_, ?_⟩
  · have hupper : ((h.q1.push x).pop.push y).elems.Perm (y :: h.q1.elems) :=
      (PriorityQueue.push_perm _ y).trans (hleft.cons y)
    have hlower : (h.q2.pop.push x).elems.Perm (x :: h.q2.pop.elems) := PriorityQueue.push_perm _ x
    have hmiddle : (y :: h.q1.elems ++ x :: h.q2.pop.elems).Perm (x :: (h.q1.elems ++ h.q2.elems)) := by
      rw [hq2]
      exact List.perm_middle.trans (List.perm_middle.symm.cons x)
    exact (hupper.append hlower).trans (hmiddle.trans (hb.perm_cons x))
  · right
    have hsize1 := PriorityQueue.size_pop ht
    have hsize2 := PriorityQueue.size_pop hy
    rw [PriorityQueue.size_push] at hsize1
    rw [PriorityQueue.size_push, PriorityQueue.size_push]
    omega
  · intro w hw z hz
    rw [PriorityQueue.mem_push] at hw hz
    rw [hleft.mem_iff] at hz
    have hwy : w ≤ y := by
      rcases hw with rfl | hw
      · exact hxy.le
      · exact hmax w hw
    rcases hz with rfl | hz
    · exact hwy
    · exact hwy.trans (hy1 z hz)

/-- with one element more in `q1`, the smallest of it and the new number moves to `q2` -/
theorem Balanced.move (hb : Balanced a h) (hs : h.q1.size = h.q2.size + 1) {x t : ℤ}
    (ht : (h.q1.push x).top = some t) : Balanced (a ++ [x]) ⟨(h.q1.push x).pop, h.q2.push t⟩ := by
  obtain ⟨hq1, hmin⟩ := PriorityQueue.top_spec ht
  refine ⟨?_, ?_, ?_⟩
  · have hpush : (t :: (h.q1.push x).pop.elems).Perm (x :: h.q1.elems) := hq1 ▸ h.q1.push_perm x
    have hmoved : ((h.q1.push x).pop.elems ++ (h.q2.push t).elems).Perm
        (t :: (h.q1.push x).pop.elems ++ h.q2.elems) :=
      ((h.q2.push_perm t).append_left _).trans List.perm_middle
    exact hmoved.trans ((hpush.append_right _).trans (hb.perm_cons x))
  · left
    have hsize := PriorityQueue.size_pop ht
    rw [PriorityQueue.size_push] at hsize
    rw [PriorityQueue.size_push, ← hs]
    exact Nat.succ.inj hsize.symm
  · intro y hy z hz
    rcases PriorityQueue.mem_push.1 hy with rfl | hy
    · exact hmin z hz
    · rcases PriorityQueue.push_cases ht with hold | ⟨-, hleft⟩
      · exact (hb.ordered y hy t hold).trans (hmin z hz)
      · exact hb.ordered y hy z (hleft.mem_iff.1 hz)

/-- **An iteration.** The numbers read so far stay balanced, and the inner loop evaluates its condition at most twice, so
its body runs at most once. -/
theorem addNumber_balanced (hb : Balanced a h) (x : ℤ) :
    ∃ h', addNumber 2 h x = some h' ∧ Balanced (a ++ [x]) h' := by
  unfold addNumber
  obtain ⟨t, ht⟩ : ∃ t, (h.q1.push x).top = some t :=
    PriorityQueue.top_isSome (by rw [PriorityQueue.size_push]; exact Nat.succ_pos _)
  rcases hb.sizes with hs | hs
  · rw [pushNumber_equal hs]
    by_cases hx : ∀ y ∈ h.q2.elems, y ≤ x
    · have hstay := hb.stay hs hx
      exact ⟨_, Loop.iterate_inr (swapTops_ordered _ hstay.ordered) 1, hstay⟩
    · -- the top of `q2` is larger than `x`, and `x` is smaller than all of `q1`
      push Not at hx
      obtain ⟨y', hy', hlt⟩ := hx
      obtain ⟨y, hy⟩ : ∃ y, h.q2.top = some y := PriorityQueue.top_isSome (List.length_pos_of_mem hy')
      have hmax := PriorityQueue.top_rel hy hy'
      have hxy : x < y := hlt.trans_le hmax
      obtain ⟨rfl, -⟩ := PriorityQueue.push_first ht (hb.below (PriorityQueue.top_mem hy) hxy)
      have hswap := hb.swap hs hy hxy ht
      have hround : swapTops ⟨h.q1.push t, h.q2⟩ = .inl ⟨(h.q1.push t).pop.push y, h.q2.pop.push t⟩ := by
        simp only [swapTops, ht, hy]
        exact if_pos hxy
      refine ⟨_, ?_, hswap⟩
      rw [Loop.iterate_inl hround]
      exact Loop.iterate_inr (swapTops_ordered _ hswap.ordered) 0
  · rw [pushNumber_larger hs ht]
    have hmove := hb.move hs ht
    exact ⟨_, Loop.iterate_inr (swapTops_ordered _ hmove.ordered) 1, hmove⟩

/-! ## The whole loop -/

theorem addNumbers_balanced (a : List ℤ) : ∃ h, addNumbers 2 a = some h ∧ Balanced a h := by
  induction a using List.reverseRecOn with
  | nil =>
    refine ⟨⟨.empty, .empty⟩, rfl, List.Perm.refl _, Or.inl rfl, ?_⟩
    intro y hy
    exact absurd hy List.not_mem_nil
  | append_singleton a x ih =>
    obtain ⟨h, hrun, hb⟩ := ih
    obtain ⟨h', hstep, hb'⟩ := addNumber_balanced hb x
    refine ⟨h', ?_, hb'⟩
    unfold addNumbers at hrun ⊢
    rw [List.foldlM_append, hrun]
    simpa using hstep

/-- the numbers in order -/
theorem Balanced.sorted (hb : Balanced a h) : (h.q2.elems.reverse ++ h.q1.elems).Pairwise (· ≤ ·) := by
  rw [List.pairwise_append]
  refine ⟨List.pairwise_reverse.2 h.q2.sorted, h.q1.sorted, fun y hy x hx => ?_⟩
  exact hb.ordered y (List.mem_reverse.1 hy) x hx

theorem Balanced.eq_sorted (hb : Balanced a h) {s : List ℤ} (hs : s.Pairwise (· ≤ ·)) (hp : s.Perm a) :
    s = h.q2.elems.reverse ++ h.q1.elems := by
  have hperm : (h.q2.elems.reverse ++ h.q1.elems).Perm a :=
    ((List.reverse_perm _).append_right _).trans (List.perm_append_comm.trans hb.perm)
  exact (hp.trans hperm.symm).eq_of_pairwise' hs hb.sorted

theorem Balanced.size_eq (hb : Balanced a h) : h.q1.size + h.q2.size = a.length := by
  rw [← hb.perm.length_eq, List.length_append]
  rfl

/-- the middle elements of the numbers in order are the tops -/
theorem Balanced.middle (hb : Balanced a h) {s : List ℤ} (hs : s.Pairwise (· ≤ ·)) (hp : s.Perm a) :
    h.q1.top = s[a.length / 2]? ∧ (a.length % 2 = 0 → 0 < a.length → h.q2.top = s[a.length / 2 - 1]?) := by
  have hsize := hb.size_eq
  have hlen : h.q2.elems.reverse.length = h.q2.size := List.length_reverse
  have hhalf : a.length / 2 = h.q2.size := by
    rcases hb.sizes with hq | hq <;> omega
  rw [hb.eq_sorted hs hp, hhalf]
  constructor
  · rw [List.getElem?_append_right hlen.le, hlen, Nat.sub_self]
    exact List.head?_eq_getElem?
  · intro heven hpos
    have hq2 : h.q2.size - 1 < h.q2.elems.length := Nat.sub_lt (by omega) Nat.one_pos
    have hfirst : h.q2.elems.length - 1 - (h.q2.size - 1) = 0 := Nat.sub_self _
    rw [List.getElem?_append_left (List.length_reverse.symm ▸ hq2), List.getElem?_reverse hq2, hfirst]
    exact List.head?_eq_getElem?

/-- **The median by two queues.** For every array `a`: after every iteration (`a.take i` was read) the queues hold exactly
the numbers read, `q1` has as many elements as `q2` or one more, so the subtraction of the next iteration does not wrap,
no element of `q2` is larger than one of `q1`, and the inner loop has run at most once in each iteration. At the end
`q1.top()` is the middle element of the numbers in order if there is one, and `q2.top()` and `q1.top()` are the two middle
ones otherwise. -/
theorem middleNumber_balances (a : List ℤ) :
    (∀ i, ∃ h, addNumbers 2 (a.take i) = some h ∧ (h.q1.elems ++ h.q2.elems).Perm (a.take i) ∧
      (h.q1.size = h.q2.size ∨ h.q1.size = h.q2.size + 1) ∧ (∀ y ∈ h.q2.elems, ∀ x ∈ h.q1.elems, y ≤ x) ∧
      ∀ x, sizeSub (h.q1.push x).size 1 = (h.q1.push x).size - 1) ∧
    ∃ h, addNumbers 2 a = some h ∧ ∀ s : List ℤ, s.Pairwise (· ≤ ·) → s.Perm a →
      (a.length % 2 = 1 → h.q1.top = s[a.length / 2]?) ∧
      (a.length % 2 = 0 → 0 < a.length → h.q2.top = s[a.length / 2 - 1]? ∧ h.q1.top = s[a.length / 2]?) := by
  refine ⟨fun i => ?_, ?_⟩
  · obtain ⟨h, hrun, hb⟩ := addNumbers_balanced (a.take i)
    refine ⟨h, hrun, hb.perm, hb.sizes, hb.ordered, fun x => ?_⟩
    rw [sizeSub_push, PriorityQueue.size_push, Nat.add_sub_cancel]
  · obtain ⟨h, hrun, hb⟩ := addNumbers_balanced a
    refine ⟨h, hrun, fun s hs hp => ⟨fun _ => (hb.middle hs hp).1, fun heven hpos => ?_⟩⟩
    exact ⟨(hb.middle hs hp).2 heven hpos, (hb.middle hs hp).1⟩

/-- **What is printed.** The middle element or the `int` average of the two middle ones, then the larger half in order and
the smaller half in descending order. -/
theorem middleNumber_prints {a : List ℤ} (ha : a ≠ []) {s : List ℤ} (hs : s.Pairwise (· ≤ ·)) (hp : s.Perm a) :
    ∃ o, middleNumber 2 a = some o ∧ o.upper = s.drop (a.length / 2) ∧ o.lower = (s.take (a.length / 2)).reverse ∧
      (a.length % 2 = 1 → s[a.length / 2]? = some o.middle) ∧
      (a.length % 2 = 0 → ∃ x y, s[a.length / 2]? = some x ∧ s[a.length / 2 - 1]? = some y ∧
        o.middle = (int32 (x + y)).tdiv 2) := by
  obtain ⟨h, hrun, hb⟩ := addNumbers_balanced a
  obtain ⟨htop1, htop2⟩ := hb.middle hs hp
  have hsize := hb.size_eq
  have hpos : 0 < a.length := List.length_pos_iff.2 ha
  have hlen : h.q2.elems.reverse.length = a.length / 2 := by
    have hrev : h.q2.elems.reverse.length = h.q2.size := List.length_reverse
    rcases hb.sizes with hq | hq <;> omega
  have hupper : h.q1.elems = s.drop (a.length / 2) := by rw [hb.eq_sorted hs hp, ← hlen, List.drop_left]
  have hlower : h.q2.elems = (s.take (a.length / 2)).reverse := by
    rw [hb.eq_sorted hs hp, ← hlen, List.take_left, List.reverse_reverse]
  have hprinted : ∀ m, printMiddle h = some m →
      middleNumber 2 a = some ⟨m, s.drop (a.length / 2), (s.take (a.length / 2)).reverse⟩ := by
    intro m hm
    simp only [middleNumber, hrun, hm, Option.map_some, PriorityQueue.drain_eq]
    rw [hupper, hlower]
  obtain ⟨x, hx⟩ : ∃ x, h.q1.top = some x := PriorityQueue.top_isSome (by rcases hb.sizes with hq | hq <;> omega)
  rcases Nat.mod_two_eq_zero_or_one a.length with heven | hodd
  · obtain ⟨y, hy⟩ : ∃ y, h.q2.top = some y := PriorityQueue.top_isSome (by rcases hb.sizes with hq | hq <;> omega)
    have hnot : ¬ h.q1.size > h.q2.size := by rcases hb.sizes with hq | hq <;> omega
    have hm : printMiddle h = some ((int32 (x + y)).tdiv 2) := by
      rw [printMiddle, if_neg hnot, hx, hy]
    refine ⟨_, hprinted _ hm, rfl, rfl, fun hodd => ?_, fun _ => ?_⟩
    · omega
    · exact ⟨x, y, htop1.symm.trans hx, (htop2 heven hpos).symm.trans hy, rfl⟩
  · have hgt : h.q1.size > h.q2.size := by rcases hb.sizes with hq | hq <;> omega
    have hm : printMiddle h = some x := by rw [printMiddle, if_pos hgt, hx]
    refine ⟨_, hprinted _ hm, rfl, rfl, fun _ => htop1.symm.trans hx, fun heven => ?_⟩
    omega

example : middleNumber 2 [5, 1, 4, 1] = some ⟨2, [4, 5], [1, 1]⟩ := by decide

end WebServer.Lesson38
