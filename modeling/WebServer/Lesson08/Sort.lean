/-
The two sorting functions of lesson08: `bubbleSort` (bubble.cpp) and `selectSort` (select.cpp).

Both compare and swap cells of the array in two nested loops. A pass of `bubbleSort` moves the largest of the first cells
to their end, so the end of the array is sorted; a pass of `selectSort` moves the smallest of the last cells to their
beginning, so the beginning is. The arrays hold `int`s, which are only compared and copied; `len - 1` does not overflow
for a `len` above the smallest `int`.

- `Settled`: the largest cells are at the end of the first `n`, in order. `bubblePass_settles` adds one to them.
- `Selected`: the smallest cells are at the beginning, in order. `selectPass_selects` adds one to them.
- `sorts_agree`: both functions sort the first `len` cells, touch no other, and leave the same array.
-/
import WebServer.Core.Exchange

namespace WebServer.Lesson08

open WebServer.Exchange

/-! ## Model -/

/-- one run of the inner loop of `bubbleSort` -/
def bubblePass (len : ℤ) (i : ℕ) : Cells ℤ → Cells ℤ := forRange (len - 1 - i).toNat fun j => exchange j (j + 1)

def bubbleSort (len : ℤ) : Cells ℤ → Cells ℤ := forRange (len - 1).toNat (bubblePass len)

/-- one run of the inner loop of `selectSort`, in which `i` is `j + 1 + k` -/
def selectPass (len : ℤ) (j : ℕ) : Cells ℤ → Cells ℤ :=
  forRange (len - (j + 1)).toNat fun k => exchange j (j + 1 + k)

def selectSort (len : ℤ) : Cells ℤ → Cells ℤ := forRange (len - 1).toNat (selectPass len)

/-! ## Bubble sort -/

variable {n : ℕ} {c d : Cells ℤ}

/-- the largest of the first `m + 1` cells is the last of them -/
def MaxLast (m : ℕ) (c : Cells ℤ) : Prop := ∀ k ≤ m, c.val k ≤ c.val m

theorem bubble_maxLast (m : ℕ) (c : Cells ℤ) : MaxLast m (forRange m (fun j => exchange j (j + 1)) c) := by
  apply forRange_inv (I := MaxLast)
  · intro k hk
    rw [Nat.le_zero.1 hk]
  · intro j _ d hmax k hk
    rcases Nat.lt_trichotomy k j with hlt | rfl | hgt
    · rw [exchange_val_of_ne hlt.ne (by omega)]
      exact (hmax k hlt.le).trans (le_exchange_right j (j + 1) d)
    · exact exchange_le k (k + 1) d
    · rw [show k = j + 1 by omega]

/-- the last `i` of the first `n` cells are the largest, in order -/
def Settled (n i : ℕ) (c : Cells ℤ) : Prop := ∀ k l, k ≤ l → n ≤ l + i → l < n → c.val k ≤ c.val l

theorem bubblePass_rearranged (n i : ℕ) (c : Cells ℤ) (hi : i < n) : Rearranged 0 (n - i) c (bubblePass n i c) := by
  apply forRange_rearranged
  intro j hj d
  exact exchange_rearranged ⟨Nat.zero_le j, by omega⟩ ⟨Nat.zero_le _, by omega⟩ d

/-- a pass adds the largest of the other cells -/
theorem bubblePass_settles {i : ℕ} (hi : i < n) (h : Settled n i c) : Settled n (i + 1) (bubblePass n i c) := by
  have hpass := bubblePass_rearranged n i c hi
  have hmax := bubble_maxLast (n - 1 - i) c
  have hcount : ((n : ℤ) - 1 - i).toNat = n - 1 - i := by omega
  intro k l hkl hl hln
  by_cases hlast : n ≤ l + i
  · -- `l` is settled already; `k` is, or holds the old value of another cell of the beginning
    have hkept : (bubblePass n i c).val l = c.val l := hpass.val_eq (Or.inr (by omega))
    rw [hkept]
    by_cases hk : k < n - i
    · obtain ⟨k', hk', hval⟩ := hpass.val_mem ⟨Nat.zero_le k, hk⟩
      rw [hval]
      exact h k' l (by omega) hlast hln
    · rw [hpass.val_eq (Or.inr (not_lt.1 hk))]
      exact h k l hkl hlast hln
  · obtain rfl : l = n - 1 - i := by omega
    rw [bubblePass, hcount]
    exact hmax k hkl

theorem bubbleSort_sorts (n : ℕ) (c : Cells ℤ) : Rearranged 0 n c (bubbleSort n c) ∧ Sorted n (bubbleSort n c) := by
  have hsettled : Settled n ((n : ℤ) - 1).toNat (bubbleSort n c) := by
    apply forRange_inv (I := Settled n)
    · intro k l _ hl hln
      omega
    · intro i hi d hd
      exact bubblePass_settles (by omega) hd
  refine ⟨?_, fun k l hkl hl => ?_⟩
  · apply forRange_rearranged
    intro i hi d
    exact (bubblePass_rearranged n i d (by omega)).mono le_rfl (Nat.sub_le n i)
  · rcases Nat.eq_zero_or_pos l with rfl | hpos
    · rw [Nat.le_zero.1 hkl]
    · exact hsettled k l hkl (by omega) hl

/-! ## Selection sort -/

/-- the smallest of the `m + 1` cells from `j` on is the first of them -/
def MinFirst (j m : ℕ) (c : Cells ℤ) : Prop := ∀ l, j ≤ l → l ≤ j + m → c.val j ≤ c.val l

theorem select_minFirst (j m : ℕ) (c : Cells ℤ) : MinFirst j m (forRange m (fun k => exchange j (j + 1 + k)) c) := by
  apply forRange_inv (I := MinFirst j)
  · intro l hl hl'
    rw [show l = j by omega]
  · intro k _ d hmin l hl hl'
    rcases Nat.lt_or_eq_of_le hl' with hlt | rfl
    · rcases Nat.lt_or_eq_of_le hl with hgt | rfl
      · rw [exchange_val_of_ne hgt.ne' (by omega)]
        exact (exchange_left_le j (j + 1 + k) d).trans (hmin l hl (by omega))
      · exact le_rfl
    · rw [show j + (k + 1) = j + 1 + k by omega]
      exact exchange_le j (j + 1 + k) d

/-- the first `j` cells are the smallest of the first `n`, in order -/
def Selected (n j : ℕ) (c : Cells ℤ) : Prop := ∀ k l, k ≤ l → k < j → l < n → c.val k ≤ c.val l

theorem selectPass_rearranged (n j : ℕ) (c : Cells ℤ) (hj : j < n) : Rearranged j n c (selectPass n j c) := by
  apply forRange_rearranged
  intro k hk d
  exact exchange_rearranged ⟨le_rfl, hj⟩ ⟨by omega, by omega⟩ d

/-- a pass adds the smallest of the other cells -/
theorem selectPass_selects {j : ℕ} (hj : j < n) (h : Selected n j c) : Selected n (j + 1) (selectPass n j c) := by
  have hpass := selectPass_rearranged n j c hj
  have hmin := select_minFirst j (n - (j + 1)) c
  have hcount : ((n : ℤ) - (j + 1)).toNat = n - (j + 1) := by omega
  intro k l hkl hk hln
  by_cases hfirst : k < j
  · -- `k` is selected already; `l` is, or holds the old value of another cell of the end
    have hkept : (selectPass n j c).val k = c.val k := hpass.val_eq (Or.inl hfirst)
    rw [hkept]
    by_cases hl : j ≤ l
    · obtain ⟨l', hl', hval⟩ := hpass.val_mem ⟨hl, hln⟩
      rw [hval]
      exact h k l' (by omega) hfirst hl'.2
    · rw [hpass.val_eq (Or.inl (not_le.1 hl))]
      exact h k l hkl hfirst hln
  · obtain rfl : k = j := by omega
    rw [selectPass, hcount]
    exact hmin l hkl (by omega)

theorem selectSort_sorts (n : ℕ) (c : Cells ℤ) : Rearranged 0 n c (selectSort n c) ∧ Sorted n (selectSort n c) := by
  have hselected : Selected n ((n : ℤ) - 1).toNat (selectSort n c) := by
    apply forRange_inv (I := Selected n)
    · intro k l _ hk
      omega
    · intro j hj d hd
      exact selectPass_selects (by omega) hd
  refine ⟨?_, fun k l hkl hl => ?_⟩
  · apply forRange_rearranged
    intro j hj d
    exact (selectPass_rearranged n j d (by omega)).mono (Nat.zero_le j) le_rfl
  · rcases Nat.lt_or_eq_of_le hkl with hlt | rfl
    · exact hselected k l hkl (by omega) hl
    · exact le_rfl

/-! ## Both -/

/-- the first `len` cells are put in order, and no other cell is read or written -/
structure Sorts (len : ℤ) (c d : Cells ℤ) : Prop where
  sorted : (d.take len.toNat).Pairwise (· ≤ ·)
  perm : (d.take len.toNat).Perm (c.take len.toNat)
  touched : ∀ k ∈ d.touched, k ∈ c.touched ∨ k < len.toNat
  rest : ∀ k, len.toNat ≤ k → d.val k = c.val k

/-- the loops for a `len` that is not positive do nothing -/
theorem sort_toNat (len : ℤ) : bubbleSort len = bubbleSort len.toNat ∧ selectSort len = selectSort len.toNat := by
  rcases le_or_gt 0 len with hlen | hlen
  · rw [Int.toNat_of_nonneg hlen]
    exact ⟨rfl, rfl⟩
  · have hnone : (len - 1).toNat = 0 := by omega
    have hzero : ((len.toNat : ℤ) - 1).toNat = 0 := by omega
    unfold bubbleSort selectSort
    rw [hnone, hzero]
    exact ⟨rfl, rfl⟩

theorem Sorts.of_rearranged {len : ℤ} (h : Rearranged 0 len.toNat c d ∧ Sorted len.toNat d) : Sorts len c d where
  sorted := h.2.take
  perm := h.1.take_perm
  touched := fun k hk => (h.1.touched k hk).imp_right And.right
  rest := fun _ hk => h.1.val_eq (Or.inr hk)

/-- **The two sorting functions.** For every array and every `len`: both leave the first `len` elements as the
non-decreasing permutation of what they were, read and write cells below `len` only, and produce the same array. -/
theorem sorts_agree (len : ℤ) (c : Cells ℤ) :
    Sorts len c (bubbleSort len c) ∧ Sorts len c (selectSort len c) ∧
      (bubbleSort len c).val = (selectSort len c).val := by
  obtain ⟨hbubble, hselect⟩ := sort_toNat len
  have hb := bubbleSort_sorts len.toNat c
  have hs := selectSort_sorts len.toNat c
  rw [hbubble, hselect]
  exact ⟨Sorts.of_rearranged hb, Sorts.of_rearranged hs, eq_of_sorted hb.1 hs.1 hb.2 hs.2⟩

example : (bubbleSort 4 ⟨fun i => [3, 1, 2, 1, 0].getD i 7, []⟩).take 6 = [1, 1, 2, 3, 0, 7] := by decide

end WebServer.Lesson08
