/-
What the line scanner `parseLine` finds in the bytes that are not yet looked at, stated on the bytes alone.

`nextLine s` splits s at the first CR or LF. There are four cases: a line ended by CR LF; a CR that is the last byte
received, so that the LF may still come; a CR before another byte, or a LF alone; and no line end at all. In the last
case the source answers LINE_OK, as for a complete line.

- `parseLine_eq`: `parseLine` is `nextLine` on the unread bytes: it moves `checkIndex` behind the line, or onto the CR
  or LF it stopped at, and writes zeros over the CR LF. The branch of the source for a LF after a CR of an earlier call
  is never taken, because no byte below `checkIndex` is a CR.
- `nextLine_complete_append`, `nextLine_stop_inv`, `nextLine_append_cr`: how the answer depends on bytes that arrive
  later.
-/
import WebServer.HttpConn.ReadSide

namespace WebServer.HttpConn

open WebServer

/-! ## Lines of a byte string -/

def crlf : Bytes := [cr, lf]

/-- neither CR nor LF -/
def inLine (b : UInt8) : Bool := b ≠ cr ∧ b ≠ lf

/-- no byte ends a line -/
def Clean (l : Bytes) : Prop := ∀ b ∈ l, inLine b = true

inductive Line where
  /-- `l` CR LF `rest` -/
  | complete (l rest : Bytes)
  /-- `l` CR, and nothing after it yet -/
  | waiting (l : Bytes)
  /-- `l` and then a CR before another byte than LF, or a LF -/
  | malformed (l : Bytes)
  /-- `l` and nothing after it -/
  | runOut (l : Bytes)
deriving DecidableEq, Repr

def nextLine (s : Bytes) : Line :=
  let l := s.takeWhile inLine
  match s.dropWhile inLine with
  | [] => .runOut l
  | b :: t =>
    if b = cr then
      match t with
      | [] => .waiting l
      | x :: rest => if x = lf then .complete l rest else .malformed l
    else .malformed l

theorem inLine_iff {b : UInt8} : inLine b = true ↔ b ≠ cr ∧ b ≠ lf := by simp [inLine]

theorem Clean.append {l m : Bytes} (hl : Clean l) (hm : Clean m) : Clean (l ++ m) := by
  intro b hb
  rcases List.mem_append.1 hb with h | h
  · exact hl b h
  · exact hm b h

theorem clean_takeWhile (s : Bytes) : Clean (s.takeWhile inLine) := fun _ hb => List.mem_takeWhile_imp hb

/-- bytes of a line before the ones looked at: the same answer with them in front -/
def Line.after (m : Bytes) : Line → Line
  | .complete l rest => .complete (m ++ l) rest
  | .waiting l => .waiting (m ++ l)
  | .malformed l => .malformed (m ++ l)
  | .runOut l => .runOut (m ++ l)

theorem nextLine_skip {m : Bytes} (hm : Clean m) (s : Bytes) : nextLine (m ++ s) = (nextLine s).after m := by
  unfold nextLine
  rw [List.takeWhile_append_of_pos hm, List.dropWhile_append_of_pos hm]
  dsimp only
  split
  · rfl
  · split_ifs
    · split
      · rfl
      · split_ifs <;> rfl
    · rfl

theorem nextLine_complete {l : Bytes} (hl : Clean l) (rest : Bytes) :
    nextLine (l ++ cr :: lf :: rest) = .complete l rest := by
  rw [nextLine_skip hl]; simp [nextLine, Line.after, inLine, cr, lf]

theorem nextLine_waiting {l : Bytes} (hl : Clean l) : nextLine (l ++ [cr]) = .waiting l := by
  rw [nextLine_skip hl]; simp [nextLine, Line.after, inLine, cr]

theorem nextLine_runOut {l : Bytes} (hl : Clean l) : nextLine l = .runOut l := by
  have := nextLine_skip hl []
  simpa [nextLine, Line.after] using this

/-- the four answers, each with the bytes it was given for -/
theorem nextLine_cases (s : Bytes) :
    (∃ l rest, nextLine s = .complete l rest ∧ s = l ++ cr :: lf :: rest ∧ Clean l) ∨
    (∃ l, nextLine s = .waiting l ∧ s = l ++ [cr] ∧ Clean l) ∨
    (∃ l t, nextLine s = .malformed l ∧ s = l ++ t ∧ Clean l ∧
      ((∃ x u, t = cr :: x :: u ∧ x ≠ lf) ∨ ∃ u, t = lf :: u)) ∨
    (nextLine s = .runOut s ∧ Clean s) := by
  have hs : s = s.takeWhile inLine ++ s.dropWhile inLine := List.takeWhile_append_dropWhile.symm
  have hc := clean_takeWhile s
  cases hd : s.dropWhile inLine with
  | nil =>
    rw [hd, List.append_nil] at hs
    refine Or.inr (Or.inr (Or.inr ⟨?_, ?_⟩))
    · simp [nextLine, hd, ← hs]
    · rw [hs]; exact hc
  | cons b t =>
    have hb : inLine b = false := by
      have := List.head?_dropWhile_not inLine s
      simpa [hd] using this
    rw [hd] at hs
    by_cases hcr : b = cr
    · subst hcr
      cases t with
      | nil => exact Or.inr (Or.inl ⟨_, by simp [nextLine, hd], hs, hc⟩)
      | cons x u =>
        by_cases hx : x = lf
        · subst hx
          exact Or.inl ⟨_, u, by simp [nextLine, hd], hs, hc⟩
        · exact Or.inr (Or.inr (Or.inl ⟨_, _, by simp [nextLine, hd, hx], hs, hc, Or.inl ⟨x, u, rfl, hx⟩⟩))
    · have hlf : b = lf := by simpa [inLine, hcr] using hb
      subst hlf
      exact Or.inr (Or.inr (Or.inl ⟨_, _, by simp [nextLine, hd, hcr], hs, hc, Or.inr ⟨t, rfl⟩⟩))

theorem nextLine_complete_inv {s l rest : Bytes} (h : nextLine s = .complete l rest) :
    s = l ++ cr :: lf :: rest ∧ Clean l := by
  rcases nextLine_cases s with ⟨l', r', h', hs, hc⟩ | ⟨l', h', -⟩ | ⟨l', t, h', -⟩ | ⟨h', -⟩
  · rw [h'] at h; cases h; exact ⟨hs, hc⟩
  all_goals rw [h'] at h; cases h

theorem nextLine_malformed {l t : Bytes} (hl : Clean l) (ht : (∃ x u, t = cr :: x :: u ∧ x ≠ lf) ∨ ∃ u, t = lf :: u) :
    nextLine (l ++ t) = .malformed l := by
  rw [nextLine_skip hl]
  rcases ht with ⟨x, u, rfl, hx⟩ | ⟨u, rfl⟩
  · simp [nextLine, Line.after, inLine, hx]
  · simp [nextLine, Line.after, inLine, cr, lf]

/-- a line that has ended stays the same whatever comes after it -/
theorem nextLine_complete_append {s l rest : Bytes} (h : nextLine s = .complete l rest) (q : Bytes) :
    nextLine (s ++ q) = .complete l (rest ++ q) := by
  obtain ⟨rfl, hc⟩ := nextLine_complete_inv h
  simpa using nextLine_complete hc (rest ++ q)

/-- the scanner stops between `l` and `t`, in front of a CR or a LF -/
theorem nextLine_stop_inv {s l : Bytes} (h : nextLine s = .waiting l ∨ nextLine s = .malformed l) :
    Clean l ∧ s = l ++ s.drop l.length ∧ s.drop l.length ≠ [] := by
  rcases nextLine_cases s with ⟨l', r', h', -⟩ | ⟨l', h', hs, hc⟩ | ⟨l', t, h', hs, hc, ht⟩ | ⟨h', -⟩
  · rw [h'] at h; rcases h with h | h <;> cases h
  · rw [h'] at h
    rcases h with h | h <;> cases h
    rw [hs]; simp [hc]
  · rw [h'] at h
    rcases h with h | h <;> cases h
    have ht' : t ≠ [] := by rcases ht with ⟨x, u, rfl, -⟩ | ⟨u, rfl⟩ <;> simp
    rw [hs]; simp [hc, ht']
  · rw [h'] at h; rcases h with h | h <;> cases h

/-- after one more CR the scanner stops where it stopped before, or at the end of the bytes it ran out of -/
theorem nextLine_append_cr {s l : Bytes}
    (h : nextLine s = .waiting l ∨ nextLine s = .malformed l ∨ nextLine s = .runOut l) :
    nextLine (s ++ [cr]) = .waiting l ∨ nextLine (s ++ [cr]) = .malformed l := by
  rcases nextLine_cases s with ⟨l', r', h', -⟩ | ⟨l', h', hs, hc⟩ | ⟨l', t, h', hs, hc, ht⟩ | ⟨h', hc⟩
  · rw [h'] at h; rcases h with h | h | h <;> cases h
  · rw [h'] at h
    rcases h with h | h | h <;> cases h
    right
    rw [hs, List.append_assoc]
    exact nextLine_malformed hc (Or.inl ⟨cr, [], rfl, by decide⟩)
  · rw [h'] at h
    rcases h with h | h | h <;> cases h
    right
    rw [hs, List.append_assoc]
    refine nextLine_malformed hc ?_
    rcases ht with ⟨x, u, rfl, hx⟩ | ⟨u, rfl⟩
    · exact Or.inl ⟨x, u ++ [cr], rfl, hx⟩
    · exact Or.inr ⟨u ++ [cr], rfl⟩
  · rw [h'] at h
    rcases h with h | h | h <;> cases h
    exact Or.inl (nextLine_waiting hc)

theorem nextLine_runOut_inv {s l : Bytes} (h : nextLine s = .runOut l) : l = s ∧ Clean s := by
  rcases nextLine_cases s with ⟨l', r', h', -⟩ | ⟨l', h', -⟩ | ⟨l', t, h', -⟩ | ⟨h', hc⟩
  all_goals rw [h'] at h; cases h
  exact ⟨rfl, hc⟩

/-! ## The scanner -/

/-- the bytes received and not yet looked at -/
def ReadSide.unread (r : ReadSide) : Bytes := r.readBuffer.slice r.checkIndex r.readIndex

/-- the scanner passes `k` bytes of a line -/
def ReadSide.skip (r : ReadSide) (k : ℕ) : ReadSide := { r with checkIndex := r.checkIndex + k }

/-- the scanner passes the last `k` bytes of a line and writes zeros over its CR LF -/
def ReadSide.pass (r : ReadSide) (k : ℕ) : ReadSide :=
  { r with
    readBuffer := (r.readBuffer.set (r.checkIndex + k) 0).set (r.checkIndex + k + 1) 0
    checkIndex := r.checkIndex + k + 2 }

/-- the status and the state in which the scanner leaves the line found at `checkIndex` -/
def ReadSide.afterLine (r : ReadSide) : Line → LineStatus × ReadSide
  | .complete l _ => (.lineOk, r.pass l.length)
  | .waiting l => (.lineOpen, r.skip l.length)
  | .malformed l => (.lineBad, r.skip l.length)
  | .runOut l => (.lineOk, r.skip l.length)

theorem afterLine_after (r : ReadSide) (b : UInt8) (a : Line) : r.afterLine (a.after [b]) = (r.skip 1).afterLine a := by
  cases a <;> simp [ReadSide.afterLine, Line.after, ReadSide.pass, ReadSide.skip, Nat.add_comm, Nat.add_left_comm]

theorem parseLineLoop_eq (k : ℕ) (r : ReadSide) (hk : k = r.readIndex - r.checkIndex)
    (hcr : ∀ i < r.checkIndex, r.readBuffer.get i ≠ cr) : parseLineLoop k r = r.afterLine (nextLine r.unread) := by
  induction k generalizing r with
  | zero =>
    have : r.unread = [] := Buf.slice_eq_nil _ (by omega)
    rw [this]; simp [parseLineLoop, nextLine, ReadSide.afterLine, ReadSide.skip]
  | succ k ih =>
    have hlt : r.checkIndex < r.readIndex := by omega
    have hun : r.unread = r.readBuffer.get r.checkIndex :: r.readBuffer.slice (r.checkIndex + 1) r.readIndex :=
      Buf.slice_cons _ hlt
    simp only [parseLineLoop]
    split_ifs with h1 h2 h3 h4 h5
    · -- a CR that is the last byte
      rw [hun, h1, Buf.slice_eq_nil _ (by omega)]
      simp [nextLine, ReadSide.afterLine, ReadSide.skip, inLine, cr]
    · rw [hun, h1, Buf.slice_cons _ (by omega), h3]
      simp [nextLine, ReadSide.afterLine, ReadSide.pass, inLine, cr]
    · rw [hun, h1, Buf.slice_cons _ (by omega)]
      simp [nextLine, ReadSide.afterLine, ReadSide.skip, inLine, h3]
    · exact absurd h5.2 (hcr _ (by omega))
    · rw [hun, h4]
      simp [nextLine, ReadSide.afterLine, ReadSide.skip, inLine, cr, lf]
    · have hb : inLine (r.readBuffer.get r.checkIndex) = true := inLine_iff.2 ⟨h1, h4⟩
      rw [ih { r with checkIndex := r.checkIndex + 1 } (by simp only; omega)]
      · have hsk := nextLine_skip (m := [r.readBuffer.get r.checkIndex]) (fun b hm => by simp_all)
          (r.readBuffer.slice (r.checkIndex + 1) r.readIndex)
        rw [hun, ← List.singleton_append, hsk, afterLine_after]
        rfl
      · intro i hi
        simp only at hi ⊢
        rcases Nat.lt_succ_iff_lt_or_eq.1 hi with h | h
        · exact hcr i h
        · rw [h]; exact h1

theorem parseLine_eq (r : ReadSide) (hcr : ∀ i < r.checkIndex, r.readBuffer.get i ≠ cr) :
    parseLine r = r.afterLine (nextLine r.unread) :=
  parseLineLoop_eq _ r rfl hcr

end WebServer.HttpConn
