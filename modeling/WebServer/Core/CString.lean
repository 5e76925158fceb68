/-
The C library functions on strings that a parser of text in a byte block uses, and the conversions between C's integer
types, over byte strings without the terminating zero.

`strcasecmp` and `strncasecmp` are given as the tests `== 0` that callers make of them, in the C locale. `strpbrk` and
`strchr` give an offset from the start of the string instead of a pointer. `strtol` is base 10 on a 64-bit long and
saturates. The block versions (`Buf.strpbrk`, `Buf.strchr`) take and give offsets in the block.
-/
import WebServer.Core.Buf

namespace WebServer

/-! ## Bytes -/

def nul : UInt8 := 0
def tab : UInt8 := 9
def lf : UInt8 := 10
def cr : UInt8 := 13
def space : UInt8 := 32
def slash : UInt8 := 47
def dot : UInt8 := 46

/-- the accept set " \t" -/
def blanks : Bytes := [space, tab]

/-- `tolower` in the C locale -/
def lower (b : UInt8) : UInt8 := if 65 ≤ b ∧ b ≤ 90 then b + 32 else b

def isDigit (b : UInt8) : Bool := 48 ≤ b ∧ b ≤ 57

/-- `isspace` in the C locale -/
def isSpace (b : UInt8) : Bool := b = 32 ∨ (9 ≤ b ∧ b ≤ 13)

/-! ## Comparisons and searches -/

/-- `strcasecmp(s, t) == 0` -/
def strcasecmp (s t : Bytes) : Bool := s.map lower = t.map lower

/-- `strncasecmp(s, t, n) == 0` -/
def strncasecmp (s t : Bytes) (n : ℕ) : Bool := (s.take n).map lower = (t.take n).map lower

/-- offset of the first byte of `s` that is in `accept` -/
def strpbrk (s accept : Bytes) : Option ℕ := s.findIdx? (fun b => decide (b ∈ accept))

/-- offset of the first `c` in `s` -/
def strchr (s : Bytes) (c : UInt8) : Option ℕ := s.findIdx? (fun b => decide (b = c))

/-- length of the longest start of `s` with bytes in `accept` only -/
def strspn (s accept : Bytes) : ℕ := (s.takeWhile (fun b => decide (b ∈ accept))).length

/-- the value of a string of decimal digits -/
def digitsVal (l : Bytes) : ℕ := l.foldl (fun v d => 10 * v + (d.toNat - 48)) 0

/-- `strtol(s, _, 10)` -/
def strtol (s : Bytes) : ℤ :=
  let s := s.dropWhile isSpace
  match s with
  | 45 :: t => max (-(digitsVal (t.takeWhile isDigit) : ℤ)) (-2 ^ 63)
  | 43 :: t => min (digitsVal (t.takeWhile isDigit) : ℤ) (2 ^ 63 - 1)
  | t => min (digitsVal (t.takeWhile isDigit) : ℤ) (2 ^ 63 - 1)

/-- the number that stands at the beginning of a text, of any size -/
def denoted (s : Bytes) : ℤ :=
  match s.dropWhile isSpace with
  | 45 :: t => -(digitsVal (t.takeWhile isDigit) : ℤ)
  | 43 :: t => digitsVal (t.takeWhile isDigit)
  | t => digitsVal (t.takeWhile isDigit)

/-- the decimal text of an `int` (`%d`) -/
def decimal (x : ℤ) : Bytes :=
  (if x < 0 then [45] else []) ++ (Nat.toDigits 10 x.natAbs).map fun c => UInt8.ofNat c.toNat

def Buf.strpbrk {n : ℕ} (b : Buf n) (i : ℕ) (accept : Bytes) : Option ℕ :=
  (WebServer.strpbrk (b.cstr i) accept).map (i + ·)

def Buf.strchr {n : ℕ} (b : Buf n) (i : ℕ) (c : UInt8) : Option ℕ := (WebServer.strchr (b.cstr i) c).map (i + ·)

/-! ## Integer conversions -/

/-- conversion to a 32-bit `int` -/
def int32 (x : ℤ) : ℤ := Int.bmod x (2 ^ 32)

/-- conversion to a 64-bit `size_t` -/
def sizeT (x : ℤ) : ℕ := (x % 2 ^ 64).toNat

theorem int32_eq {x : ℤ} (h1 : -2 ^ 31 ≤ x) (h2 : x < 2 ^ 31) : int32 x = x := by
  unfold int32 Int.bmod
  norm_num at *
  split <;> omega

theorem int32_natCast {x : ℕ} (h : x < 2 ^ 31) : int32 (x : ℤ) = x := int32_eq (by omega) (by exact_mod_cast h)

theorem int32_add (x y : ℤ) : int32 (int32 x + y) = int32 (x + y) := Int.bmod_add_bmod

/-- `int32` stays in the range of an `int` and differs from its argument by a multiple of 2^32 -/
theorem int32_spec (x : ℤ) : -2 ^ 31 ≤ int32 x ∧ int32 x < 2 ^ 31 ∧ ∃ k : ℤ, int32 x = x + k * 2 ^ 32 := by
  unfold int32
  refine ⟨?_, ?_, -Int.bdiv x (2 ^ 32), ?_⟩
  · have := Int.le_bmod (x := x) (m := 2 ^ 32) (by norm_num); norm_num at *; omega
  · have := Int.bmod_lt (x := x) (m := 2 ^ 32) (by norm_num); norm_num at *; omega
  · have := Int.bmod_add_bdiv x (2 ^ 32); norm_num at *; omega

/-- a wrapped sum compared with a small bound -/
theorem int32_le_iff {x : ℤ} {t : ℕ} (h1 : -2 ^ 31 ≤ x) (h2 : x < 2 ^ 32) (ht : (t : ℤ) < 2 ^ 31) :
    int32 x ≤ t ↔ x ≤ t ∨ 2 ^ 31 ≤ x := by
  unfold int32 Int.bmod
  norm_num at *
  split <;> omega

theorem sizeT_natCast {x : ℕ} (h : x < 2 ^ 64) : sizeT (x : ℤ) = x := by
  unfold sizeT
  rw [Int.emod_eq_of_lt (by omega) (by exact_mod_cast h)]
  simp

/-! ## Searches find the first match -/

theorem strpbrk_append {m t : Bytes} {b : UInt8} {accept : Bytes} (hm : ∀ x ∈ m, x ∉ accept) (hb : b ∈ accept) :
    strpbrk (m ++ b :: t) accept = some m.length := by
  unfold strpbrk
  rw [List.findIdx?_append]
  have h1 : m.findIdx? (fun b => decide (b ∈ accept)) = none := by
    rw [List.findIdx?_eq_none_iff]; intro x hx; simpa using hm x hx
  simp [h1, List.findIdx?_cons, hb]

/-- the first byte of `accept` in `s`, and what is before and after it -/
theorem strpbrk_split {s accept : Bytes} {i : ℕ} (h : strpbrk s accept = some i) :
    ∃ m b t, s = m ++ b :: t ∧ m.length = i ∧ b ∈ accept ∧ ∀ x ∈ m, x ∉ accept := by
  obtain ⟨hlt, hb, hbefore⟩ := List.findIdx?_eq_some_iff_getElem.1 h
  refine ⟨s.take i, s[i], s.drop (i + 1), ?_, ?_, of_decide_eq_true hb, fun x hx => ?_⟩
  · rw [List.getElem_cons_drop, List.take_append_drop]
  · rw [List.length_take, Nat.min_eq_left hlt.le]
  · obtain ⟨j, hj, rfl⟩ := List.mem_take_iff_getElem.1 hx
    simpa using hbefore j (lt_min_iff.1 hj).1

theorem strpbrk_lt {s accept : Bytes} {i : ℕ} (h : strpbrk s accept = some i) : i < s.length := by
  obtain ⟨hlt, -⟩ := List.findIdx?_eq_some_iff_getElem.1 h
  exact hlt

theorem strchr_lt {s : Bytes} {c : UInt8} {i : ℕ} (h : strchr s c = some i) : i < s.length := by
  obtain ⟨hlt, -⟩ := List.findIdx?_eq_some_iff_getElem.1 h
  exact hlt

theorem strchr_getElem {s : Bytes} {c : UInt8} {i : ℕ} (h : strchr s c = some i) :
    s.head? ≠ none ∧ (s.drop i).head? = some c := by
  obtain ⟨hlt, hc, -⟩ := List.findIdx?_eq_some_iff_getElem.1 h
  refine ⟨?_, ?_⟩
  · cases s with
    | nil => simp at hlt
    | cons a s => simp
  · rw [List.head?_drop, List.getElem?_eq_getElem hlt]; simpa using hc

theorem strspn_le (s accept : Bytes) : strspn s accept ≤ s.length := (List.takeWhile_sublist _).length_le

/-! ## Case-insensitive equality -/

theorem strcasecmp_iff {s t : Bytes} : strcasecmp s t = true ↔ s.map lower = t.map lower := by simp [strcasecmp]

/-- a string equal to `t` ignoring case has only bytes that some byte of `t` equals ignoring case -/
theorem mem_of_strcasecmp {s t : Bytes} (h : strcasecmp s t = true) {x : UInt8} (hx : x ∈ s) :
    lower x ∈ t.map lower := by
  rw [← strcasecmp_iff.1 h]
  exact List.mem_map_of_mem hx

theorem length_of_strncasecmp {s t : Bytes} {n : ℕ} (h : strncasecmp s t n = true) (hn : n ≤ t.length) :
    n ≤ s.length := by
  have h1 : (s.take n).map lower = (t.take n).map lower := by simpa [strncasecmp] using h
  have := congrArg List.length h1
  simp only [List.length_map, List.length_take] at this
  omega

/-- strings that agree in their first `n` bytes agree in fewer -/
theorem strncasecmp_mono {s t : Bytes} {n m : ℕ} (h : strncasecmp s t n = true) (hm : m ≤ n) :
    strncasecmp s t m = true := by
  have h1 : (s.take n).map lower = (t.take n).map lower := by simpa [strncasecmp] using h
  have h2 := congrArg (List.take m) h1
  simpa [strncasecmp, ← List.map_take, List.take_take, Nat.min_eq_left hm] using h2

/-- a string that starts like `t` does not start like `u`, if these two differ -/
theorem not_strncasecmp {s t u : Bytes} {n m k : ℕ} (h : strncasecmp s t n = true) (hn : k ≤ n) (hm : k ≤ m)
    (hk : strncasecmp u t k = false) : strncasecmp s u m = false := by
  by_contra hu
  have h1 := strncasecmp_mono h hn
  have h2 := strncasecmp_mono (Bool.eq_true_of_not_eq_false hu) hm
  simp only [strncasecmp, decide_eq_true_eq, decide_eq_false_iff_not] at h1 h2 hk
  exact hk (h2.symm.trans h1)

/-- what the first match of `strchr` points to -/
theorem drop_strchr {s : Bytes} {c : UInt8} {k : ℕ} (h : strchr s c = some k) : s.drop k = s.dropWhile (· ≠ c) := by
  induction s generalizing k with
  | nil => cases h
  | cons a s ih =>
    unfold strchr at h ih
    rw [List.findIdx?_cons] at h
    by_cases ha : a = c
    · simp only [ha, decide_true, if_true, Option.some.injEq] at h
      subst h
      simp [ha]
    · simp only [ha, decide_false, Bool.false_eq_true, if_false, Option.map_eq_some_iff] at h
      obtain ⟨j, hj, rfl⟩ := h
      simp [ha, ih hj]

theorem strchr_of_mem {s : Bytes} {c : UInt8} (h : c ∈ s) : ∃ k, strchr s c = some k := by
  refine Option.ne_none_iff_exists'.1 fun hn => ?_
  have := List.findIdx?_eq_none_iff.1 hn c h
  simp at this

/-! ## Decimal numbers -/

theorem isSpace_of_isDigit (d : UInt8) (h : isDigit d = true) : isSpace d = false := by
  simp only [isDigit, isSpace, decide_eq_true_eq, decide_eq_false_iff_not] at *
  grind

/-- `strtol` gives the number in the text, cut to the range of a `long` -/
theorem strtol_denoted (s : Bytes) : strtol s = max (min (denoted s) (2 ^ 63 - 1)) (-2 ^ 63) := by
  unfold strtol denoted
  dsimp only
  split
  · rw [min_eq_left (by omega)]
  · rw [max_eq_left (by omega)]
  · rw [max_eq_left (by omega)]

theorem digitsVal_lt {l : Bytes} (hl : ∀ d ∈ l, isDigit d = true) : digitsVal l < 10 ^ l.length := by
  have hfold : ∀ (l : Bytes) (v : ℕ), (∀ d ∈ l, isDigit d = true) →
      l.foldl (fun v d => 10 * v + (d.toNat - 48)) v < (v + 1) * 10 ^ l.length := by
    intro l
    induction l with
    | nil => intro v _; simp
    | cons d l ih =>
      intro v hd
      have hdigit : d.toNat ≤ 57 := by
        have := hd d List.mem_cons_self
        simp only [isDigit, decide_eq_true_eq] at this
        exact this.2
      have hstep : (10 * v + (d.toNat - 48) + 1) * 10 ^ l.length ≤ 10 * (v + 1) * 10 ^ l.length :=
        Nat.mul_le_mul_right _ (by omega)
      calc (d :: l).foldl (fun v d => 10 * v + (d.toNat - 48)) v
          < (10 * v + (d.toNat - 48) + 1) * 10 ^ l.length := ih _ fun x hx => hd x (List.mem_cons_of_mem _ hx)
        _ ≤ 10 * (v + 1) * 10 ^ l.length := hstep
        _ = (v + 1) * 10 ^ (d :: l).length := by rw [List.length_cons, pow_succ]; ring
  have := hfold l 0 hl
  rwa [Nat.zero_add, Nat.one_mul] at this

/-- a text of `n` characters denotes a number of at most `n` digits -/
theorem abs_denoted_lt (s : Bytes) : |denoted s| < 10 ^ s.length := by
  have hdigits : ∀ t : Bytes, t.length ≤ s.length → (digitsVal (t.takeWhile isDigit) : ℤ) < 10 ^ s.length := by
    intro t ht
    have h1 := digitsVal_lt (l := t.takeWhile isDigit) fun _ hd => List.mem_takeWhile_imp hd
    have h2 : (t.takeWhile isDigit).length ≤ s.length := (List.takeWhile_sublist _).length_le.trans ht
    exact_mod_cast lt_of_lt_of_le h1 (Nat.pow_le_pow_right (by decide) h2)
  have hlen : (s.dropWhile isSpace).length ≤ s.length := (List.dropWhile_suffix _).length_le
  unfold denoted
  split
  · rename_i t ht
    rw [ht, List.length_cons] at hlen
    rw [abs_neg, abs_of_nonneg (by positivity)]
    exact hdigits t (by omega)
  · rename_i t ht
    rw [ht, List.length_cons] at hlen
    rw [abs_of_nonneg (by positivity)]
    exact hdigits t (by omega)
  · rw [abs_of_nonneg (by positivity)]
    exact hdigits _ hlen

/-- a number of at most nine characters is an `int` -/
theorem int32_strtol {s : Bytes} (h : s.length ≤ 9) : int32 (strtol s) = denoted s ∧ |denoted s| < 10 ^ 9 := by
  have hlt : |denoted s| < 10 ^ 9 := (abs_denoted_lt s).trans_le (pow_le_pow_right₀ (by norm_num) h)
  obtain ⟨h1, h2⟩ := abs_lt.1 hlt
  refine ⟨?_, hlt⟩
  rw [strtol_denoted, min_eq_left (by norm_num at *; omega), max_eq_left (by norm_num at *; omega)]
  exact int32_eq (by norm_num at *; omega) (by norm_num at *; omega)

theorem denoted_digits {l : Bytes} (hl : ∀ d ∈ l, isDigit d = true) : denoted l = digitsVal l := by
  have htw : l.takeWhile isDigit = l := List.takeWhile_eq_self_iff.2 hl
  cases l with
  | nil => rfl
  | cons d l =>
    have hd := hl d List.mem_cons_self
    have hsp : isSpace d = false := isSpace_of_isDigit d hd
    have h45 : d ≠ 45 := by rintro rfl; revert hd; decide
    have h43 : d ≠ 43 := by rintro rfl; revert hd; decide
    unfold denoted
    rw [List.dropWhile_cons, if_neg (by simp [hsp])]
    split
    · rename_i heq; exact absurd (List.cons.inj heq).1 h45
    · rename_i heq; exact absurd (List.cons.inj heq).1 h43
    · rw [htw]

end WebServer
