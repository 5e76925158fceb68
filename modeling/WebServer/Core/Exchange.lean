/-
Sorting in place by exchanges: an array whose accesses are recorded, the comparison of two cells that swaps them if they
are in the wrong order, and loops over a counter.

- `forRange_inv`: the invariant rule for a counted loop.
- `Rearranged lo hi`: the cells from `lo` to `hi` were permuted, the others were neither read nor written.
- `exchange_rearranged`, `forRange_rearranged`: exchanges inside an interval, and loops of them, rearrange it.
- `eq_of_sorted`: two arrays that hold the same cells in order are the same.
-/
import Mathlib.Data.List.Sort
import Mathlib.Logic.Equiv.Basic

namespace WebServer.Exchange

/-! ## Counted loops -/

/-- `for (int i = 0; i < n; i++)` -/
def forRange {σ : Type*} : ℕ → (ℕ → σ → σ) → σ → σ
  | 0, _, s => s
  | n + 1, body, s => body n (forRange n body s)

/-- **The invariant rule for counted loops.** -/
theorem forRange_inv {σ : Type*} {body : ℕ → σ → σ} {I : ℕ → σ → Prop} {s : σ} (h0 : I 0 s) {n : ℕ}
    (hstep : ∀ i < n, ∀ t, I i t → I (i + 1) (body i t)) : I n (forRange n body s) := by
  induction n with
  | zero => exact h0
  | succ n ih =>
    apply hstep n (Nat.lt_succ_self n)
    apply ih
    intro i hi
    exact hstep i (hi.trans (Nat.lt_succ_self n))

/-! ## Arrays -/

/-- memory from the first cell of an array on, and the indices that were read or written -/
structure Cells (α : Type*) where
  val : ℕ → α
  touched : List ℕ

namespace Cells

variable {α : Type*}

def load (c : Cells α) (i : ℕ) : α × Cells α := (c.val i, { c with touched := i :: c.touched })

def store (c : Cells α) (i : ℕ) (x : α) : Cells α := ⟨Function.update c.val i x, i :: c.touched⟩

/-- the first `n` elements -/
def take (c : Cells α) (n : ℕ) : List α := (List.range n).map c.val

end Cells

variable {α : Type*} {c d e : Cells α} {lo hi : ℕ}

/-! ## Rearranged intervals -/

/-- only cells from `lo` to `hi` were read or written, and their values are the old ones in another order -/
structure Rearranged (lo hi : ℕ) (c d : Cells α) : Prop where
  perm : ∃ σ : Equiv.Perm ℕ, (∀ k, k < lo ∨ hi ≤ k → σ k = k) ∧ d.val = c.val ∘ σ
  touched : ∀ k ∈ d.touched, k ∈ c.touched ∨ (lo ≤ k ∧ k < hi)

theorem Rearranged.refl (lo hi : ℕ) (c : Cells α) : Rearranged lo hi c c :=
  ⟨⟨Equiv.refl ℕ, fun _ _ => rfl, rfl⟩, fun _ hk => Or.inl hk⟩

theorem Rearranged.trans (h : Rearranged lo hi c d) (h' : Rearranged lo hi d e) : Rearranged lo hi c e := by
  obtain ⟨σ, hσ, hd⟩ := h.perm
  obtain ⟨τ, hτ, he⟩ := h'.perm
  refine ⟨⟨τ.trans σ, fun k hk => ?_, ?_⟩, fun k hk => ?_⟩
  · rw [Equiv.trans_apply, hτ k hk, hσ k hk]
  · rw [he, hd]
    rfl
  · rcases h'.touched k hk with hd | hin
    · exact h.touched k hd
    · exact Or.inr hin

theorem Rearranged.mono (h : Rearranged lo hi c d) {lo' hi' : ℕ} (hlo : lo' ≤ lo) (hhi : hi ≤ hi') :
    Rearranged lo' hi' c d := by
  obtain ⟨σ, hσ, hd⟩ := h.perm
  refine ⟨⟨σ, fun k hk => ?_, hd⟩, fun k hk => ?_⟩
  · apply hσ
    exact hk.imp (fun hlt => hlt.trans_le hlo) fun hle => hhi.trans hle
  · exact (h.touched k hk).imp_right fun hin => ⟨hlo.trans hin.1, hin.2.trans_le hhi⟩

/-- a loop of rearrangements -/
theorem forRange_rearranged {body : ℕ → Cells α → Cells α} {n : ℕ}
    (h : ∀ i < n, ∀ d, Rearranged lo hi d (body i d)) (c : Cells α) : Rearranged lo hi c (forRange n body c) := by
  apply forRange_inv (I := fun _ d => Rearranged lo hi c d)
  · exact Rearranged.refl lo hi c
  · intro i hi d hd
    exact hd.trans (h i hi d)

/-- a cell outside keeps its value -/
theorem Rearranged.val_eq (h : Rearranged lo hi c d) {k : ℕ} (hk : k < lo ∨ hi ≤ k) : d.val k = c.val k := by
  obtain ⟨σ, hσ, hd⟩ := h.perm
  rw [hd, Function.comp_apply, hσ k hk]

/-- a permutation that moves nothing outside an interval stays inside it -/
theorem perm_mem {σ : Equiv.Perm ℕ} (h : ∀ k, k < lo ∨ hi ≤ k → σ k = k) {k : ℕ} (hk : lo ≤ k ∧ k < hi) :
    lo ≤ σ k ∧ σ k < hi := by
  by_contra hout
  have hfix : σ (σ k) = σ k := h (σ k) (by omega)
  have hself : σ k = k := σ.injective hfix
  rw [hself] at hout
  exact hout hk

/-- a cell inside holds the old value of a cell inside -/
theorem Rearranged.val_mem (h : Rearranged lo hi c d) {k : ℕ} (hk : lo ≤ k ∧ k < hi) :
    ∃ l, (lo ≤ l ∧ l < hi) ∧ d.val k = c.val l := by
  obtain ⟨σ, hσ, hd⟩ := h.perm
  exact ⟨σ k, perm_mem hσ hk, congrFun hd k⟩

/-- **The elements are the old ones.** -/
theorem Rearranged.take_perm {n : ℕ} (h : Rearranged 0 n c d) : (d.take n).Perm (c.take n) := by
  obtain ⟨σ, hσ, hd⟩ := h.perm
  have hσ' : ∀ k, k < 0 ∨ n ≤ k → σ.symm k = k := by
    intro k hk
    rw [Equiv.symm_apply_eq, hσ k hk]
  have hindices : ((List.range n).map σ).Perm (List.range n) := by
    rw [List.perm_ext_iff_of_nodup (List.nodup_range.map σ.injective) List.nodup_range]
    intro k
    rw [List.mem_map, List.mem_range]
    constructor
    · rintro ⟨l, hl, rfl⟩
      exact (perm_mem hσ ⟨Nat.zero_le l, List.mem_range.1 hl⟩).2
    · intro hk
      refine ⟨σ.symm k, ?_, Equiv.apply_symm_apply σ k⟩
      exact List.mem_range.2 (perm_mem hσ' ⟨Nat.zero_le k, hk⟩).2
  have htake : d.take n = ((List.range n).map σ).map c.val := by rw [Cells.take, hd, List.map_map]
  rw [htake]
  exact hindices.map c.val

/-! ## Exchanges -/

variable [LinearOrder α]

/-- `if (array[i] > array[j])` the two are swapped through `temp` -/
def exchange (i j : ℕ) (c : Cells α) : Cells α :=
  let (x, c) := c.load i
  let (y, c) := c.load j
  if x > y then
    let (temp, c) := c.load i
    let (z, c) := c.load j
    (c.store i z).store j temp
  else c

theorem exchange_val (i j : ℕ) (c : Cells α) :
    (exchange i j c).val = if c.val i > c.val j then c.val ∘ Equiv.swap i j else c.val := by
  unfold exchange
  dsimp only [Cells.load, Cells.store]
  split_ifs
  · funext k
    rcases eq_or_ne k j with rfl | hj
    · simp
    · rcases eq_or_ne k i with rfl | hi
      · simp [hj]
      · simp [hj, hi, Equiv.swap_apply_of_ne_of_ne]
  · rfl

theorem exchange_touched {i j : ℕ} {c : Cells α} {k : ℕ} (h : k ∈ (exchange i j c).touched) :
    k ∈ c.touched ∨ k = i ∨ k = j := by
  unfold exchange at h
  dsimp only [Cells.load, Cells.store] at h
  split_ifs at h <;> simp only [List.mem_cons] at h <;> tauto

theorem exchange_rearranged {i j : ℕ} (hi' : lo ≤ i ∧ i < hi) (hj' : lo ≤ j ∧ j < hi) (c : Cells α) :
    Rearranged lo hi c (exchange i j c) := by
  refine ⟨?_, fun k hk => ?_⟩
  · rw [exchange_val]
    split_ifs
    · refine ⟨Equiv.swap i j, fun k hk => ?_, rfl⟩
      apply Equiv.swap_apply_of_ne_of_ne
      · rintro rfl
        omega
      · rintro rfl
        omega
    · exact ⟨Equiv.refl ℕ, fun _ _ => rfl, rfl⟩
  · rcases exchange_touched hk with hold | rfl | rfl
    · exact Or.inl hold
    · exact Or.inr hi'
    · exact Or.inr hj'

/-- the two cells after an exchange -/
theorem exchange_le (i j : ℕ) (c : Cells α) : (exchange i j c).val i ≤ (exchange i j c).val j := by
  rw [exchange_val]
  split_ifs with hgt
  · rw [Function.comp_apply, Function.comp_apply, Equiv.swap_apply_left, Equiv.swap_apply_right]
    exact hgt.le
  · exact not_lt.1 hgt

/-- an exchange leaves the larger of the two in the second cell -/
theorem le_exchange_right (i j : ℕ) (c : Cells α) : c.val i ≤ (exchange i j c).val j := by
  rw [exchange_val]
  split_ifs with hgt
  · rw [Function.comp_apply, Equiv.swap_apply_right]
  · exact not_lt.1 hgt

theorem exchange_left_le (i j : ℕ) (c : Cells α) : (exchange i j c).val i ≤ c.val i := by
  rw [exchange_val]
  split_ifs with hgt
  · rw [Function.comp_apply, Equiv.swap_apply_left]
    exact hgt.le
  · exact le_rfl

theorem exchange_val_of_ne {i j k : ℕ} (hi : k ≠ i) (hj : k ≠ j) (c : Cells α) : (exchange i j c).val k = c.val k := by
  rw [exchange_val]
  split_ifs
  · rw [Function.comp_apply, Equiv.swap_apply_of_ne_of_ne hi hj]
  · rfl

/-! ## Sorted arrays -/

/-- the first `n` elements are in order -/
def Sorted (n : ℕ) (c : Cells α) : Prop := ∀ k l, k ≤ l → l < n → c.val k ≤ c.val l

theorem Sorted.take {n : ℕ} (h : Sorted n c) : (c.take n).Pairwise (· ≤ ·) := by
  rw [Cells.take, List.pairwise_map]
  apply List.pairwise_lt_range.imp_of_mem
  intro k l _ hl hlt
  exact h k l hlt.le (List.mem_range.1 hl)

/-- **There is one way to put an array in order.** -/
theorem eq_of_sorted {n : ℕ} (hd : Rearranged 0 n c d) (he : Rearranged 0 n c e) (hds : Sorted n d) (hes : Sorted n e) :
    d.val = e.val := by
  have hperm : (d.take n).Perm (e.take n) := hd.take_perm.trans he.take_perm.symm
  have htake : d.take n = e.take n := hperm.eq_of_pairwise' hds.take hes.take
  funext k
  by_cases hk : k < n
  · exact List.map_inj_left.1 htake k (List.mem_range.2 hk)
  · have hout : k < 0 ∨ n ≤ k := Or.inr (not_lt.1 hk)
    rw [hd.val_eq hout, he.val_eq hout]

end WebServer.Exchange
