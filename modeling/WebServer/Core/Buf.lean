/-
Fixed-size byte blocks, as a C `char` array is used: single stores, block copies, and strings that end at a zero byte.

A block of `n` bytes is read through `get`, which gives 0 past the end, and changed through `set` and `write`, which
lose what falls outside. Every lemma about a changed block goes through `get`, so that a caller never unfolds the
representation.

- `slice b i j`: the bytes at i, i+1, ..., j-1.
- `cstr b i`: the C string that starts at i (up to the first zero byte, or to the end of the block).
- `cstr_set_zero`: storing a zero at k cuts every string that spans k there, and leaves every other string alone.
- `cstr_write`: a block copy behind a string's end leaves the string alone.
-/
import Mathlib.Tactic
import Mathlib.Data.List.TakeWhile

namespace WebServer

/-- a string of bytes -/
abbrev Bytes := List UInt8

/-- the bytes of a text in ASCII -/
def ascii (s : String) : Bytes := s.toList.map fun c => UInt8.ofNat c.toNat

/-- a block of `n` bytes -/
def Buf (n : ℕ) : Type := Fin n → UInt8

namespace Buf

variable {n : ℕ}

/-- the byte at `i`; past the end of the block there is a zero -/
def get (b : Buf n) (i : ℕ) : UInt8 := if h : i < n then b ⟨i, h⟩ else 0

/-- store `v` at `i`; a store outside the block is lost -/
def set (b : Buf n) (i : ℕ) (v : UInt8) : Buf n := fun j => if j.val = i then v else b j

/-- a store at a signed offset -/
def setInt (b : Buf n) (i : ℤ) (v : UInt8) : Buf n := if 0 ≤ i then b.set i.toNat v else b

/-- copy the bytes of `l` to `i`, `i + 1`, ... -/
def write (b : Buf n) (i : ℕ) (l : Bytes) : Buf n := fun j => if i ≤ j.val then (l[j.val - i]?).getD (b j) else b j

/-- a block of zeros (`bzero`) -/
def zero : Buf n := fun _ => 0

/-- the bytes at `i`, ..., `j - 1` -/
def slice (b : Buf n) (i j : ℕ) : Bytes := (List.range' i (j - i)).map b.get

/-- the C string at `i` -/
def cstr (b : Buf n) (i : ℕ) : Bytes := (b.slice i n).takeWhile (· ≠ 0)

/-! ## Reading a changed block -/

theorem get_of_le (b : Buf n) {i : ℕ} (h : n ≤ i) : b.get i = 0 := by
  simp [get, Nat.not_lt.2 h]

@[simp] theorem get_zero (i : ℕ) : (zero : Buf n).get i = 0 := by
  unfold get; split <;> rfl

theorem get_set (b : Buf n) (i j : ℕ) (v : UInt8) :
    (b.set i v).get j = if j = i ∧ i < n then v else b.get j := by
  unfold get set
  by_cases hj : j < n
  · by_cases hji : j = i
    · subst hji; simp [hj]
    · simp [hj, hji]
  · have : ¬ (j = i ∧ i < n) := fun h => hj (h.1 ▸ h.2)
    simp [hj, this]

theorem get_set_zero (b : Buf n) (i j : ℕ) : (b.set i 0).get j = if j = i then 0 else b.get j := by
  rw [get_set]
  by_cases hj : j = i
  · subst hj
    by_cases hn : j < n
    · simp [hn]
    · simp [hn, get_of_le b (Nat.not_lt.1 hn)]
  · simp [hj]

theorem get_set_ne (b : Buf n) {i j : ℕ} (v : UInt8) (h : j ≠ i) : (b.set i v).get j = b.get j := by
  rw [get_set]; simp [h]

theorem get_write (b : Buf n) (i j : ℕ) (l : Bytes) (hl : i + l.length ≤ n) :
    (b.write i l).get j = if i ≤ j then (l[j - i]?).getD (b.get j) else b.get j := by
  unfold get write
  by_cases hj : j < n
  · simp [hj]
  · have : l.length ≤ j - i := by omega
    simp only [hj, dite_false, List.getElem?_eq_none this, Option.getD_none, ite_self]

theorem get_write_lt (b : Buf n) {i j : ℕ} (l : Bytes) (h : j < i) : (b.write i l).get j = b.get j := by
  unfold get write
  split <;> simp [Nat.not_le.2 h]

theorem get_write_ge (b : Buf n) {i j : ℕ} (l : Bytes) (h : i + l.length ≤ j) :
    (b.write i l).get j = b.get j := by
  unfold get write
  have : l.length ≤ j - i := by omega
  split <;> simp [List.getElem?_eq_none this]

@[simp] theorem write_nil (b : Buf n) (i : ℕ) : b.write i [] = b := by
  funext j
  simp [write]

/-- two stores, one behind the other -/
theorem write_append (b : Buf n) (i : ℕ) (l m : Bytes) :
    b.write i (l ++ m) = (b.write i l).write (i + l.length) m := by
  funext j
  unfold write
  by_cases h1 : i + l.length ≤ j.val
  · have h2 : i ≤ j.val := by omega
    rw [if_pos h2, if_pos h1, if_pos h2, List.getElem?_append_right (by omega),
      List.getElem?_eq_none (l := l) (by omega), Option.getD_none, Nat.sub_add_eq]
  · rw [if_neg h1]
    split_ifs with h2
    · rw [List.getElem?_append_left (by omega)]
    · rfl

/-! ## Slices -/

@[simp] theorem length_slice (b : Buf n) (i j : ℕ) : (b.slice i j).length = j - i := by simp [slice]

theorem getElem_slice (b : Buf n) (i j k : ℕ) (h : k < (b.slice i j).length) : (b.slice i j)[k] = b.get (i + k) := by
  simp [slice, List.getElem_range']

theorem slice_eq_nil (b : Buf n) {i j : ℕ} (h : j ≤ i) : b.slice i j = [] := by
  simp [slice, Nat.sub_eq_zero_of_le h]

theorem slice_cons (b : Buf n) {i j : ℕ} (h : i < j) : b.slice i j = b.get i :: b.slice (i + 1) j := by
  unfold slice
  obtain ⟨k, hk⟩ : ∃ k, j - i = k + 1 := ⟨j - i - 1, by omega⟩
  rw [hk, List.range'_succ, List.map_cons, show j - (i + 1) = k by omega]

theorem slice_append (b : Buf n) {i j k : ℕ} (h : i ≤ j) (h' : j ≤ k) :
    b.slice i j ++ b.slice j k = b.slice i k := by
  unfold slice
  rw [← List.map_append, show k - i = (j - i) + (k - j) by omega, ← List.range'_append]
  congr 3; omega

theorem slice_congr {m : ℕ} {b : Buf n} {b' : Buf m} {i j : ℕ} (h : ∀ k, i ≤ k → k < j → b.get k = b'.get k) :
    b.slice i j = b'.slice i j := by
  unfold slice
  apply List.map_congr_left
  intro k hk
  rw [List.mem_range'_1] at hk
  exact h k hk.1 (by omega)

theorem mem_slice {b : Buf n} {i j : ℕ} {v : UInt8} : v ∈ b.slice i j ↔ ∃ k, i ≤ k ∧ k < j ∧ b.get k = v := by
  simp only [slice, List.mem_map, List.mem_range'_1]
  constructor
  · rintro ⟨k, hk, rfl⟩; exact ⟨k, hk.1, by omega, rfl⟩
  · rintro ⟨k, h1, h2, rfl⟩; exact ⟨k, ⟨h1, by omega⟩, rfl⟩

/-- a slice that is a concatenation is the concatenation of two slices -/
theorem slice_eq_append {b : Buf n} {i j : ℕ} {l t : Bytes} (h : b.slice i j = l ++ t) :
    b.slice i (i + l.length) = l ∧ b.slice (i + l.length) j = t := by
  have hlen : j - i = l.length + t.length := by simpa using congrArg List.length h
  by_cases hl : l.length = 0
  · have : l = [] := List.eq_nil_of_length_eq_zero hl
    subst this
    exact ⟨by simp [slice_eq_nil], by simpa using h⟩
  · rw [← slice_append b (Nat.le_add_right i l.length) (show i + l.length ≤ j by omega)] at h
    exact List.append_inj h (by simp)

theorem slice_set (b : Buf n) {i j k : ℕ} (v : UInt8) (h : k < i ∨ j ≤ k) : (b.set k v).slice i j = b.slice i j :=
  slice_congr fun m h1 h2 => get_set_ne b v (by omega)

/-- a block copy is read back by the slice it was copied to -/
theorem slice_write (b : Buf n) (i : ℕ) (l : Bytes) (h : i + l.length ≤ n) :
    (b.write i l).slice i (i + l.length) = l := by
  apply List.ext_getElem
  · simp
  · intro k h1 h2
    rw [getElem_slice, get_write b i (i + k) l h]
    simp [h2]

/-! ## C strings -/

/-- the string at `i` is `l` when the block has the bytes of `l` there, none of them 0, and a zero after them -/
theorem cstr_eq {b : Buf n} {i : ℕ} {l : Bytes} (hi : i + l.length ≤ n) (hl : b.slice i (i + l.length) = l)
    (h0 : (0 : UInt8) ∉ l) (hend : b.get (i + l.length) = 0) : b.cstr i = l := by
  unfold cstr
  rw [← slice_append b (Nat.le_add_right i l.length) hi, hl, List.takeWhile_append_of_pos]
  · by_cases hn : i + l.length < n
    · rw [slice_cons b hn]; simp [hend]
    · rw [slice_eq_nil b (by omega)]; simp
  · intro a ha
    have hne : a ≠ 0 := fun h => h0 (h ▸ ha)
    simpa using hne

/-- the string at `i` ends inside the bytes up to `j` when one of them, or the one at `j`, is 0 -/
theorem cstr_eq_takeWhile {b : Buf n} {i j : ℕ} (hij : i ≤ j) (hj : j ≤ n)
    (h : b.get j = 0 ∨ (0 : UInt8) ∈ b.slice i j) : b.cstr i = (b.slice i j).takeWhile (· ≠ 0) := by
  unfold cstr
  rw [← slice_append b hij hj, List.takeWhile_append]
  split_ifs with hall
  · -- no byte before `j` is 0, so the one at `j` is
    have hne : (0 : UInt8) ∉ b.slice i j := by
      have := List.takeWhile_eq_self_iff.1 (List.IsPrefix.eq_of_length (List.takeWhile_prefix _) hall)
      intro h0
      simpa using this 0 h0
    have h0 : b.get j = 0 := h.resolve_right hne
    have htail : (b.slice j n).takeWhile (· ≠ 0) = [] := by
      by_cases hjn : j < n
      · rw [slice_cons b hjn]; simp [h0]
      · rw [slice_eq_nil b (by omega)]; rfl
    rw [htail, List.append_nil]
    exact (List.IsPrefix.eq_of_length (List.takeWhile_prefix _) hall).symm
  · rfl

theorem length_cstr_le (b : Buf n) (i : ℕ) : (b.cstr i).length ≤ n - i := by
  unfold cstr
  calc ((b.slice i n).takeWhile (· ≠ 0)).length ≤ (b.slice i n).length := (List.takeWhile_sublist _).length_le
    _ = n - i := length_slice b i n

theorem zero_notMem_cstr (b : Buf n) (i : ℕ) : (0 : UInt8) ∉ b.cstr i := fun h => by
  have := List.mem_takeWhile_imp h
  simp at this

theorem cstr_add_le (b : Buf n) {i : ℕ} (hi : i ≤ n) : i + (b.cstr i).length ≤ n := by
  have := length_cstr_le b i; omega

theorem cstr_of_le (b : Buf n) {i : ℕ} (hi : n ≤ i) : b.cstr i = [] := by
  have := length_cstr_le b i
  exact List.eq_nil_of_length_eq_zero (by omega)

theorem slice_cstr (b : Buf n) {i : ℕ} (hi : i ≤ n) : b.slice i (i + (b.cstr i).length) = b.cstr i := by
  have hpre : b.cstr i <+: b.slice i n := List.takeWhile_prefix _
  have hlen := cstr_add_le b hi
  have hsplit := slice_append b (Nat.le_add_right i (b.cstr i).length) hlen
  obtain ⟨t, ht⟩ := hpre
  rw [← hsplit] at ht
  exact ((List.append_inj ht (by simp)).1).symm

theorem get_cstr_end (b : Buf n) (i : ℕ) : b.get (i + (b.cstr i).length) = 0 := by
  by_cases hi : i + (b.cstr i).length < n
  · have hsplit := slice_append b (Nat.le_add_right i (b.cstr i).length) hi.le
    rw [slice_cstr b (by omega), slice_cons b hi] at hsplit
    by_contra hne
    -- a nonzero byte after the string would belong to it
    have htw : b.cstr i = (b.slice i n).takeWhile (· ≠ 0) := rfl
    rw [← hsplit, List.takeWhile_append_of_pos, List.takeWhile_cons] at htw
    · rw [if_pos (by simpa using hne)] at htw
      have := congrArg List.length htw
      simp at this
    · intro a ha
      have hne : a ≠ 0 := fun h => zero_notMem_cstr b i (h ▸ ha)
      simpa using hne
  · exact get_of_le b (by omega)

/-- the string at `i` is determined by the bytes up to its end -/
theorem cstr_congr {b b' : Buf n} {i : ℕ} (h : ∀ k, i ≤ k → k ≤ i + (b.cstr i).length → b'.get k = b.get k) :
    b'.cstr i = b.cstr i := by
  by_cases hi : i ≤ n
  · apply cstr_eq (cstr_add_le b hi)
    · conv_rhs => rw [← slice_cstr b hi]
      exact slice_congr fun k h1 h2 => h k h1 h2.le
    · exact zero_notMem_cstr b i
    · rw [h _ (Nat.le_add_right _ _) le_rfl, get_cstr_end]
  · rw [cstr_of_le b (by omega), cstr_of_le b' (by omega)]

theorem cstr_eq_nil_iff (b : Buf n) (i : ℕ) : b.cstr i = [] ↔ b.get i = 0 := by
  constructor
  · intro h; simpa [h] using get_cstr_end b i
  · intro h
    by_cases hi : i < n
    · unfold cstr; rw [slice_cons b hi]; simp [h]
    · exact cstr_of_le b (by omega)

theorem get_cstr (b : Buf n) {i k : ℕ} (h : k < (b.cstr i).length) : b.get (i + k) = (b.cstr i)[k] := by
  have hi : i ≤ n := by
    by_contra hn
    rw [cstr_of_le b (by omega)] at h; simp at h
  have h2 := getElem_slice b i (i + (b.cstr i).length) k (by simpa using h)
  rw [← h2]
  simp only [slice_cstr b hi]

/-- a string ends at the first zero -/
theorem cstr_le_of_zero (b : Buf n) {i k : ℕ} (h : i ≤ k) (hk : b.get k = 0) : i + (b.cstr i).length ≤ k := by
  by_contra hlt
  have hin : k - i < (b.cstr i).length := by omega
  have hbyte := b.get_cstr hin
  rw [Nat.add_sub_cancel' h, hk] at hbyte
  exact b.zero_notMem_cstr i (hbyte ▸ List.getElem_mem hin)

/-- a string's tail is the string at the later offset -/
theorem cstr_drop (b : Buf n) {i k : ℕ} (h : k ≤ (b.cstr i).length) : b.cstr (i + k) = (b.cstr i).drop k := by
  by_cases hi : i ≤ n
  · have hlen := cstr_add_le b hi
    have hl : ((b.cstr i).drop k).length = (b.cstr i).length - k := List.length_drop
    apply cstr_eq
    · rw [hl]; omega
    · rw [hl, show i + k + ((b.cstr i).length - k) = i + (b.cstr i).length by omega]
      apply List.ext_getElem
      · simp; omega
      · intro m h1 h2
        rw [getElem_slice, List.getElem_drop, show i + k + m = i + (k + m) by omega, get_cstr]
    · exact fun h0 => zero_notMem_cstr b i (List.mem_of_mem_drop h0)
    · rw [hl, show i + k + ((b.cstr i).length - k) = i + (b.cstr i).length by omega, get_cstr_end]
  · have : b.cstr i = [] := cstr_of_le b (by omega)
    rw [this, cstr_of_le b (by omega)]; simp

/-- **A zero stored at `k` cuts the strings that span `k`** and leaves every other string alone -/
theorem cstr_set_zero (b : Buf n) (i k : ℕ) :
    (b.set k 0).cstr i = if i ≤ k then (b.cstr i).take (k - i) else b.cstr i := by
  split_ifs with hk
  · by_cases hlen : (b.cstr i).length ≤ k - i
    · -- the store is at or behind the end of the string
      rw [List.take_of_length_le hlen]
      apply cstr_congr
      intro m h1 h2
      rw [get_set_zero]
      split_ifs with hm
      · rw [show m = i + (b.cstr i).length by omega, get_cstr_end]
      · rfl
    · have hi : i ≤ n := by
        by_contra hn
        rw [cstr_of_le b (by omega)] at hlen; simp at hlen
      have hadd := cstr_add_le b hi
      have hl : ((b.cstr i).take (k - i)).length = k - i := by rw [List.length_take]; omega
      apply cstr_eq
      · rw [hl]; omega
      · rw [hl, show i + (k - i) = k by omega, slice_set b 0 (Or.inr le_rfl)]
        apply List.ext_getElem
        · rw [hl]; simp
        · intro m h1 h2
          rw [getElem_slice, List.getElem_take, get_cstr]
      · exact fun h0 => zero_notMem_cstr b i (List.mem_of_mem_take h0)
      · rw [hl, show i + (k - i) = k by omega, get_set_zero]; simp
  · apply cstr_congr
    intro m h1 h2
    rw [get_set_zero, if_neg (by omega)]

/-- a block copy behind the end of a string leaves the string alone -/
theorem cstr_write (b : Buf n) {i k : ℕ} (l : Bytes) (h : i + (b.cstr i).length < k) :
    (b.write k l).cstr i = b.cstr i :=
  cstr_congr fun _ _ h2 => get_write_lt b l (by omega)

end Buf

end WebServer
