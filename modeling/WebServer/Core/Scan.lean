/-
Searching a text, and reading back a number that was printed.

`strstr` and `strcspn` give offsets, as `strchr` does. `scanInt` is the conversion %d of `fscanf` on a stream whose
writer is still there: where the text ends before the number does, the call waits for more.

- `strchr_append`, `strcspn_eq`, `strstr_append`: where a byte or a text is found first.
- `strtol_decimal`: `strtol` reads back what %d prints, whatever follows it.
- `scanInt_decimal`, `scanInts_decimal`: so does `fscanf` once the byte behind the number is there; while only white
  space is there, it waits (`scanInts_wait`).
-/
import WebServer.Core.CString
import Mathlib.Tactic

namespace WebServer

/-! ## Searching -/

/-- the offset of the first copy of `t` in `s` -/
def strstr (s t : Bytes) : Option ℕ := s.tails.findIdx? fun u => t.isPrefixOf u

/-- the number of bytes before the first one of `reject` -/
def strcspn (s reject : Bytes) : ℕ := (s.takeWhile (fun b => decide (b ∉ reject))).length

theorem strchr_eq_none {s : Bytes} {c : UInt8} (h : c ∉ s) : strchr s c = none := by
  unfold strchr
  rw [List.findIdx?_eq_none_iff]
  intro x hx
  exact decide_eq_false fun hc => h (hc ▸ hx)

theorem strchr_skip {m : Bytes} {c : UInt8} (hm : c ∉ m) (t : Bytes) :
    strchr (m ++ t) c = (strchr t c).map (· + m.length) := by
  have hnone := strchr_eq_none hm
  unfold strchr at *
  rw [List.findIdx?_append, hnone, Option.none_or]

theorem strchr_append {m t : Bytes} {c : UInt8} (hm : c ∉ m) : strchr (m ++ c :: t) c = some m.length := by
  rw [strchr_skip hm]
  simp [strchr, List.findIdx?_cons]

theorem all_ne {m : Bytes} {c : UInt8} (hm : c ∉ m) : ∀ x ∈ m, decide (x ≠ c) = true :=
  fun _ hx => decide_eq_true fun h => hm (h ▸ hx)

/-- the bytes before the first `c` -/
theorem takeWhile_ne {c : UInt8} {m t : Bytes} (hm : c ∉ m) : (m ++ c :: t).takeWhile (· ≠ c) = m := by
  rw [List.takeWhile_append_of_pos (all_ne hm), List.takeWhile_cons, if_neg (by simp), List.append_nil]

/-- the bytes from the first `c` on -/
theorem dropWhile_ne {c : UInt8} {m t : Bytes} (hm : c ∉ m) : (m ++ c :: t).dropWhile (· ≠ c) = c :: t := by
  rw [List.dropWhile_append_of_pos (all_ne hm), List.dropWhile_cons, if_neg (by simp)]

theorem strchr_split {s : Bytes} {c : UInt8} {k : ℕ} (h : strchr s c = some k) :
    ∃ m t, s = m ++ c :: t ∧ m.length = k ∧ c ∉ m := by
  obtain ⟨hk, hc, hm⟩ := List.findIdx?_eq_some_iff_getElem.1 h
  refine ⟨s.take k, s.drop (k + 1), ?_, List.length_take_of_le hk.le, ?_⟩
  · rw [← of_decide_eq_true hc, ← List.drop_eq_getElem_cons hk, List.take_append_drop]
  · intro hmem
    obtain ⟨i, hi, rfl⟩ := List.getElem_of_mem hmem
    rw [List.length_take_of_le hk.le] at hi
    exact hm i hi (by simp)

/-- `strcspn` with one byte stops where `strchr` finds it -/
theorem strcspn_eq {s : Bytes} {c : UInt8} {k : ℕ} (h : strchr s c = some k) : strcspn s [c] = k := by
  obtain ⟨m, t, rfl, rfl, hm⟩ := strchr_split h
  have hpos : ∀ x ∈ m, decide (x ∉ [c]) = true := by
    intro x hx
    exact decide_eq_true fun h => hm (List.mem_singleton.1 h ▸ hx)
  unfold strcspn
  rw [List.takeWhile_append_of_pos hpos]
  simp

theorem strstr_append {m t u : Bytes} {x : UInt8} (hm : x ∉ m) :
    strstr (m ++ (x :: t ++ u)) (x :: t) = some m.length := by
  unfold strstr
  induction m with
  | nil =>
    rw [List.nil_append, List.cons_append, List.tails_cons, List.findIdx?_cons, if_pos]
    · rfl
    · exact List.isPrefixOf_iff_prefix.2 ⟨u, rfl⟩
  | cons b m ih =>
    rw [List.mem_cons, not_or] at hm
    rw [List.cons_append, List.tails_cons, List.findIdx?_cons, if_neg, ih hm.2]
    · rfl
    · simp [hm.1]

/-- `lower` moves capital letters only -/
theorem eq_of_lower {b c : UInt8} (h : lower b = c) (hc : c < 97) : b = c := by
  unfold lower at h
  split_ifs at h with hup
  · grind
  · exact h

theorem eq_of_map_lower {s t : Bytes} (h : s.map lower = t) (ht : ∀ c ∈ t, c < 97) : s = t := by
  subst h
  refine (List.map_id s).symm.trans (List.map_congr_left fun b hb => ?_)
  exact eq_of_lower rfl (ht _ (List.mem_map_of_mem hb))

/-! ## Printed numbers -/

/-- the digits of a natural number -/
def digitsOf (n : ℕ) : Bytes := (Nat.toDigits 10 n).map fun c => UInt8.ofNat c.toNat

theorem decimal_natCast (n : ℕ) : decimal n = digitsOf n := by
  unfold decimal digitsOf
  rw [if_neg (by omega), List.nil_append, Int.natAbs_natCast]

theorem decimal_of_neg {x : ℤ} (h : x < 0) : decimal x = 45 :: digitsOf x.natAbs := by
  unfold decimal digitsOf
  rw [if_pos h, List.singleton_append]

theorem digitsOf_ne_nil (n : ℕ) : digitsOf n ≠ [] := by
  unfold digitsOf
  rw [Ne, List.map_eq_nil_iff, ← List.length_eq_zero_iff]
  exact (Nat.length_toDigits_pos (b := 10)).ne'

/-- a digit and its byte have the same code, between 48 and 57 -/
theorem toNat_digit {n : ℕ} {c : Char} (h : c ∈ Nat.toDigits 10 n) :
    (UInt8.ofNat c.toNat).toNat = c.toNat ∧ 48 ≤ c.toNat ∧ c.toNat ≤ 57 := by
  have hd := Nat.isDigit_of_mem_toDigits (by decide) (by decide) h
  simp only [Char.isDigit, Bool.and_eq_true, decide_eq_true_eq] at hd
  have h1 : 48 ≤ c.toNat := hd.1
  have h2 : c.toNat ≤ 57 := hd.2
  exact ⟨by rw [UInt8.toNat_ofNat']; omega, h1, h2⟩

theorem isDigit_digitsOf {n : ℕ} {b : UInt8} (h : b ∈ digitsOf n) : isDigit b = true := by
  obtain ⟨c, hc, rfl⟩ := List.mem_map.1 h
  obtain ⟨he, h1, h2⟩ := toNat_digit hc
  simp only [isDigit, decide_eq_true_eq, UInt8.le_iff_toNat_le, he]
  exact ⟨h1, h2⟩

theorem digitsVal_digitsOf (n : ℕ) : digitsVal (digitsOf n) = n := by
  have hfold : ∀ (l : List Char) (v : ℕ), (∀ c ∈ l, c ∈ Nat.toDigits 10 n) →
      (l.map fun c => UInt8.ofNat c.toNat).foldl (fun v d => 10 * v + (d.toNat - 48)) v = Nat.ofDigitChars 10 l v := by
    intro l
    induction l with
    | nil => intro v _; rfl
    | cons c l ih =>
      intro v hl
      rw [List.map_cons, List.foldl_cons, (toNat_digit (hl c List.mem_cons_self)).1,
        ih _ fun x hx => hl x (List.mem_cons_of_mem _ hx)]
      rfl
  calc digitsVal (digitsOf n) = Nat.ofDigitChars 10 (Nat.toDigits 10 n) 0 := hfold _ 0 fun _ h => h
    _ = n := Nat.ofDigitChars_toDigits (by decide) (by decide)

/-! ## Reading them back -/

/-- the first byte of a text that is not a digit -/
def EndsNumber (t : Bytes) : Prop := ∀ b ∈ t.head?, isDigit b = false

theorem takeWhile_digits {n : ℕ} {t : Bytes} (ht : EndsNumber t) :
    (digitsOf n ++ t).takeWhile isDigit = digitsOf n ∧ (digitsOf n ++ t).dropWhile isDigit = t := by
  have hd : ∀ b ∈ digitsOf n, isDigit b = true := fun b hb => isDigit_digitsOf hb
  rw [List.takeWhile_append_of_pos hd, List.dropWhile_append_of_pos hd]
  cases t with
  | nil => simp
  | cons b t =>
    have hb : isDigit b = false := ht b rfl
    simp [hb]

/-- the first digit is no space and no sign -/
theorem digitsOf_cons (n : ℕ) : ∃ d t, digitsOf n = d :: t ∧ isSpace d = false ∧ d ≠ 45 ∧ d ≠ 43 := by
  cases h : digitsOf n with
  | nil => exact absurd h (digitsOf_ne_nil n)
  | cons d t =>
    have hd : isDigit d = true := isDigit_digitsOf (n := n) (by rw [h]; exact List.mem_cons_self)
    refine ⟨d, t, rfl, isSpace_of_isDigit d hd, ?_, ?_⟩ <;>
      · rintro rfl
        exact absurd hd (by decide)

theorem dropWhile_space {ws t : Bytes} (hws : ∀ b ∈ ws, isSpace b = true) :
    (ws ++ t).dropWhile isSpace = t.dropWhile isSpace :=
  List.dropWhile_append_of_pos hws

theorem strtol_decimal {ws t : Bytes} {x : ℤ} (hws : ∀ b ∈ ws, isSpace b = true) (ht : EndsNumber t)
    (h1 : -2 ^ 63 ≤ x) (h2 : x < 2 ^ 63) : strtol (ws ++ (decimal x ++ t)) = x := by
  unfold strtol
  rw [dropWhile_space hws]
  rcases Int.lt_or_le x 0 with hx | hx
  · rw [decimal_of_neg hx, List.cons_append, List.dropWhile_cons, if_neg (by decide)]
    change max (-(digitsVal ((digitsOf x.natAbs ++ t).takeWhile isDigit) : ℤ)) (-2 ^ 63) = x
    rw [(takeWhile_digits ht).1, digitsVal_digitsOf]
    omega
  · lift x to ℕ using hx
    obtain ⟨d, l, hl, hsp, h45, h43⟩ := digitsOf_cons x
    rw [decimal_natCast]
    have hds : (digitsOf x ++ t).dropWhile isSpace = digitsOf x ++ t := by
      rw [hl, List.cons_append, List.dropWhile_cons, if_neg (by simp [hsp])]
    rw [hds]
    dsimp only
    split
    · rename_i heq
      rw [hl] at heq
      exact absurd (List.cons.inj heq).1 h45
    · rename_i heq
      rw [hl] at heq
      exact absurd (List.cons.inj heq).1 h43
    · rw [(takeWhile_digits ht).1, digitsVal_digitsOf]
      omega

inductive Scanned where
  /-- the text ends where the number may still go on -/
  | wait
  /-- what comes first is no number -/
  | mismatch
  | value (x : ℤ) (rest : Bytes)
deriving DecidableEq, Repr

/-- an optional sign taken off -/
def unsigned : Bytes → Bytes
  | 45 :: t => t
  | 43 :: t => t
  | t => t

/-- %d of `fscanf`, stored in an int -/
def scanInt (s : Bytes) : Scanned :=
  let body := unsigned (s.dropWhile isSpace)
  if body.dropWhile isDigit = [] then .wait
  else if body.takeWhile isDigit = [] then .mismatch
  else .value (int32 (strtol s)) (body.dropWhile isDigit)

theorem unsigned_decimal (x : ℤ) (t : Bytes) : unsigned (decimal x ++ t) = digitsOf x.natAbs ++ t := by
  rcases Int.lt_or_le x 0 with hx | hx
  · rw [decimal_of_neg hx]
    rfl
  · lift x to ℕ using hx
    obtain ⟨d, l, hl, -, h45, h43⟩ := digitsOf_cons x
    rw [decimal_natCast, Int.natAbs_natCast, hl, List.cons_append]
    unfold unsigned
    split
    · rename_i heq; exact absurd (List.cons.inj heq).1 h45
    · rename_i heq; exact absurd (List.cons.inj heq).1 h43
    · rfl

theorem decimal_dropWhile_space (x : ℤ) (t : Bytes) : (decimal x ++ t).dropWhile isSpace = decimal x ++ t := by
  rcases Int.lt_or_le x 0 with hx | hx
  · rw [decimal_of_neg hx, List.cons_append, List.dropWhile_cons, if_neg (by decide)]
  · lift x to ℕ using hx
    obtain ⟨d, l, hl, hsp, -, -⟩ := digitsOf_cons x
    rw [decimal_natCast, hl, List.cons_append, List.dropWhile_cons, if_neg (by simp [hsp])]

/-- **What %d prints, %d reads.** -/
theorem scanInt_decimal {ws t : Bytes} {x : ℤ} (hws : ∀ b ∈ ws, isSpace b = true) (ht : EndsNumber t) (hne : t ≠ [])
    (h1 : -2 ^ 31 ≤ x) (h2 : x < 2 ^ 31) : scanInt (ws ++ (decimal x ++ t)) = .value x t := by
  unfold scanInt
  rw [dropWhile_space hws, decimal_dropWhile_space, unsigned_decimal]
  dsimp only
  rw [(takeWhile_digits ht).1, (takeWhile_digits ht).2, if_neg hne, if_neg (digitsOf_ne_nil _),
    strtol_decimal hws ht (by omega) (by omega), int32_eq h1 h2]

/-- white space and nothing else: no number has begun -/
theorem scanInt_wait {ws : Bytes} (hws : ∀ b ∈ ws, isSpace b = true) : scanInt ws = .wait := by
  unfold scanInt
  rw [List.dropWhile_eq_nil_iff.2 hws]
  rfl

/-- `fscanf` with `n` conversions %d: the numbers read and the text behind them, or `none` while it waits -/
def scanInts : ℕ → Bytes → Option (List ℤ × Bytes)
  | 0, s => some ([], s)
  | n + 1, s =>
    match scanInt s with
    | .wait => none
    | .mismatch => some ([], s)
    | .value x t => (scanInts n t).map fun r => (x :: r.1, r.2)

theorem scanInts_wait {ws : Bytes} (hws : ∀ b ∈ ws, isSpace b = true) (n : ℕ) : scanInts (n + 1) ws = none := by
  rw [scanInts, scanInt_wait hws]

theorem scanInts_decimal {n : ℕ} {ws t : Bytes} {b : UInt8} {x : ℤ} (hws : ∀ b ∈ ws, isSpace b = true)
    (hb : isDigit b = false) (h1 : -2 ^ 31 ≤ x) (h2 : x < 2 ^ 31) :
    scanInts (n + 1) (ws ++ (decimal x ++ b :: t)) = (scanInts n (b :: t)).map fun r => (x :: r.1, r.2) := by
  have hend : EndsNumber (b :: t) := by
    intro c hc
    cases hc
    exact hb
  rw [scanInts, scanInt_decimal hws hend (List.cons_ne_nil b t) h1 h2]

end WebServer
