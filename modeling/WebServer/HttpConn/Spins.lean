/-
The loop of `processRead` in the body state.

`parseLine` answers LINE_OK also when it runs out of bytes. In the body state such a round consumes nothing and changes
nothing once no byte is left, and the loop goes on for ever.

- `bodySpins`: fewer bytes than `contentLength` are there, and every CR among them is followed by a LF and every LF comes
  after a CR, so that the scanner stops nowhere.
- `content_none_iff`: the loop never ends exactly then.
- `content_some`: otherwise it waits or has the request, and `contentLength` is what it was.
-/
import WebServer.HttpConn.Rounds

namespace WebServer.HttpConn

open WebServer

/-! ## Bytes for which the loop spins -/

/-- every CR is followed by a LF, and every LF comes after a CR -/
def paired : Bytes → Bool
  | [] => true
  | [b] => inLine b
  | b :: x :: t => if b = cr then x = lf && paired t else inLine b && paired (x :: t)

/-- a body of length `n` of which `rest` is there -/
def bodySpins (n : ℤ) (rest : Bytes) : Bool := rest.length < n ∧ paired rest = true

theorem paired_cons {b : UInt8} (hb : inLine b = true) (t : Bytes) : paired (b :: t) = paired t := by
  have hcr := (inLine_iff.1 hb).1
  cases t with
  | nil => simp [paired, hb]
  | cons x t => simp [paired, hb, hcr]

theorem paired_append {l : Bytes} (hl : Clean l) (t : Bytes) : paired (l ++ t) = paired t := by
  induction l with
  | nil => rfl
  | cons b l ih =>
    rw [List.cons_append, paired_cons (hl b List.mem_cons_self)]
    exact ih fun x hx => hl x (List.mem_cons_of_mem b hx)

theorem paired_complete {s l rest : Bytes} (h : nextLine s = .complete l rest) : paired s = paired rest := by
  obtain ⟨rfl, hl⟩ := nextLine_complete_inv h
  rw [paired_append hl]
  simp [paired]

theorem paired_runOut {s l : Bytes} (h : nextLine s = .runOut l) : paired s = true := by
  obtain ⟨-, hs⟩ := nextLine_runOut_inv h
  rw [← List.append_nil s, paired_append hs]
  rfl

theorem paired_stop {s l : Bytes} (h : nextLine s = .waiting l ∨ nextLine s = .malformed l) : paired s = false := by
  rcases nextLine_cases s with ⟨l', r', h', -⟩ | ⟨l', h', hs, hc⟩ | ⟨l', t, h', hs, hc, ht⟩ | ⟨h', -⟩
  · rw [h'] at h
    rcases h with h | h <;> cases h
  · rw [hs, paired_append hc]
    rfl
  · rw [hs, paired_append hc]
    rcases ht with ⟨x, u, rfl, hx⟩ | ⟨u, rfl⟩
    · simp [paired, hx]
    · cases u <;> simp [paired, inLine, cr, lf]
  · rw [h'] at h
    rcases h with h | h <;> cases h

/-! ## The stream's loop -/

namespace Stream

/-- `contentLength` has at most nine digits, and the bytes are as many as a buffer holds -/
structure Fits (a : Stream) : Prop where
  length_ge : -10 ^ 9 ≤ a.contentLength
  length_lt : a.contentLength < 10 ^ 9
  total_le : a.total ≤ readBufferSize

theorem Fits.bodyDone_iff {a : Stream} (h : a.Fits) : a.bodyDone ↔ a.contentLength ≤ a.rest.length := by
  have h1 := h.length_ge
  have h2 := h.length_lt
  have h3 := h.total_le
  have hsize : readBufferSize = 2048 := rfl
  have htotal : a.total = a.pos + a.rest.length := rfl
  unfold bodyDone
  rw [ge_iff_le, int32_le_iff (by omega) (by omega) (by omega), htotal]
  constructor <;> intro h <;> omega

theorem Fits.passed {a : Stream} (h : a.Fits) {l rest : Bytes} (hl : nextLine a.rest = .complete l rest) :
    (a.passed l rest).Fits :=
  ⟨h.length_ge, h.length_lt, (total_passed hl).trans_le h.total_le⟩

theorem Fits.runOut {a : Stream} (h : a.Fits) : (a.moved a.rest []).Fits :=
  ⟨h.length_ge, h.length_lt, (total_moved (List.append_nil _).symm).trans_le h.total_le⟩

theorem Fits.newLine {a : Stream} (h : a.Fits) : a.newLine.Fits := ⟨h.length_ge, h.length_lt, h.total_le⟩

/-- no byte is left and the body is not complete: the round repeats its state -/
theorem run_repeats {a : Stream} (hs : a.state = .content) (hscan : a.scanned = []) (hrest : a.rest = [])
    (hd : ¬ a.bodyDone) : a.run .lineOpen = none := by
  apply Loop.outcome_fixed
  have hsame : a.newLine = a := by
    cases a
    simp_all [newLine, pos]
  have hmoved : a.moved [] [] = a := by
    cases a
    simp_all [moved]
  have htest : a.test .lineOpen = (.lineOk, a) := by
    rw [test_line (Or.inr (by decide)), hrest, nextLine_runOut (l := []) fun _ hb => absurd hb List.not_mem_nil]
    exact congrArg (Prod.mk LineStatus.lineOk) hmoved
  have hbody : a.body = (.noRequest, a) := by
    rw [body_content hs, if_neg hd, hsame]
  rw [round_eq, htest]
  simp only [hbody, hs, statusAfter, if_true]

/-- the scanner is at the start of a line of an incomplete body -/
theorem scan_none_iff (k : ℕ) {a : Stream} (hk : a.rest.length = k) (hs : a.state = .content) (hscan : a.scanned = [])
    (hfit : a.Fits) (hopen : a.rest.length < a.contentLength) : a.run .lineOpen = none ↔ paired a.rest = true := by
  induction k using Nat.strong_induction_on generalizing a with
  | _ k ih =>
  have hls : a.state ≠ .content ∨ LineStatus.lineOpen ≠ .lineOk := Or.inr (by decide)
  rcases nextLine_cases a.rest with ⟨l, rest, hl, hrest, -⟩ | ⟨l, hl, -⟩ | ⟨l, t, hl, -⟩ | ⟨hl, -⟩
  · -- a whole line of the body: the rest of it is shorter
    have hlen : a.rest.length = l.length + rest.length + 2 := by
      rw [hrest]
      simp
      omega
    have hshort : (rest.length : ℤ) < a.contentLength := by omega
    have hd : ¬ (a.passed l rest).bodyDone := (hfit.passed hl).bodyDone_iff.not.2 (not_le.2 hshort)
    rw [run_complete hls hl, proceed_open (a := a.passed l rest) hs hd, paired_complete hl]
    exact ih rest.length (by omega) rfl hs rfl (hfit.passed hl).newLine hshort
  · rw [run_stop hls (Or.inl hl), paired_stop (Or.inl hl)]
    simp
  · rw [run_stop hls (Or.inr hl), paired_stop (Or.inr hl)]
    simp
  · -- the scanner runs out of bytes
    have hd : ¬ (a.moved a.rest []).bodyDone :=
      hfit.runOut.bodyDone_iff.not.2 (not_le.2 (lt_of_le_of_lt (Int.natCast_nonneg _) hopen))
    rw [run_runOut hls hl, proceed_open (a := a.moved a.rest []) hs hd, paired_runOut hl]
    simp only [iff_true]
    exact run_repeats hs rfl rfl hd

/-- **When the loop never ends in the body state.** -/
theorem content_none_iff {a : Stream} (hs : a.state = .content) (hfit : a.Fits) :
    a.run .lineOk = none ↔ bodySpins a.contentLength a.rest = true := by
  rw [run_content hs, bodySpins, decide_eq_true_eq]
  by_cases hd : a.bodyDone
  · rw [proceed_done hs hd]
    simp only [reduceCtorEq, false_iff, not_and]
    intro hlt
    exact absurd (hfit.bodyDone_iff.1 hd) (not_le.2 hlt)
  · have hlt := not_le.1 (hfit.bodyDone_iff.not.1 hd)
    rw [proceed_open hs hd, scan_none_iff (a := a.newLine) _ rfl hs rfl hfit.newLine hlt]
    exact (and_iff_right hlt).symm

/-- in the body state the loop waits or has the request, and does not change the length -/
theorem content_some {a : Stream} (hs : a.state = .content) {ls : LineStatus} {x : HttpCode × Stream}
    (h : a.run ls = some x) :
    (x.1 = .noRequest ∨ x.1 = .getRequest) ∧ x.2.contentLength = a.contentLength := by
  refine Loop.iterate_inv (I := fun y : LineStatus × Stream =>
      y.2.state = .content ∧ y.2.contentLength = a.contentLength)
    (Q := fun y => (y.1 = .noRequest ∨ y.1 = .getRequest) ∧ y.2.contentLength = a.contentLength) ?_
    (s := (ls, a)) ⟨hs, rfl⟩ h
  rintro ⟨ls, b⟩ ⟨hb, hn⟩
  obtain ⟨⟨s, r, htest⟩, -, -⟩ := test_moves ls b
  have hstate : (b.test ls).2.state = .content := by rw [htest]; exact hb
  have hlength : (b.test ls).2.contentLength = a.contentLength := by rw [htest]; exact hn
  rw [round_eq, body_content hstate]
  split_ifs with hok hdone hno hno
  · cases hno
  · exact ⟨Or.inr rfl, hlength⟩
  · exact ⟨hstate, hlength⟩
  · exact absurd rfl hno
  · exact ⟨Or.inl rfl, hlength⟩

end Stream

end WebServer.HttpConn
