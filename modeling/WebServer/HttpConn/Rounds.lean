/-
The stream parser's loop without a number of rounds, and its link to the code's loop.

- `ranked_round`: a round that goes on uses up bytes or moves to the next phase, or it repeats its state. The last
  happens only in the body state with no byte left, where the loop never ends (`run_repeats` in `HttpConn.Spins`).
- `run_eq`: the equation of the loop.
- `parseContext_inside`: the zero after a body is not stored behind the bytes received.
- `processReadLoop_run`: `loopRounds` rounds of the code's loop give the outcome of the stream, and more rounds change
  nothing (`processReadLoop_stable`).
-/
import WebServer.HttpConn.Refine

namespace WebServer.HttpConn

open WebServer

namespace Stream

/-! ## The test and the body -/

theorem test_line {ls : LineStatus} {a : Stream} (h : a.state ≠ .content ∨ ls ≠ .lineOk) :
    a.test ls = a.afterLine (nextLine a.rest) := by
  unfold test
  rw [if_neg (by tauto)]

theorem test_content {a : Stream} (h : a.state = .content) : a.test .lineOk = (.lineOk, a) := by
  unfold test
  rw [if_pos ⟨h, rfl⟩]

theorem body_requestLine {a : Stream} (h : a.state = .requestLine) :
    a.body = ((requestTarget (cText a.scanned)).1,
      { a.newLine with
        url := (requestTarget (cText a.scanned)).2.map fun p => (a.start + p.1, p.2)
        state := if (requestTarget (cText a.scanned)).1 = .noRequest then .header else .requestLine }) := by
  simp only [body, h]

theorem body_header {a : Stream} (h : a.state = .header) :
    a.body = if cText a.scanned = [] then
        if a.contentLength ≠ 0 then (.noRequest, { a.newLine with state := .content }) else (.getRequest, a.newLine)
      else if faults a.start (cText a.scanned) then (.undefined, a.newLine)
      else (.noRequest, a.newLine.field a.start (cText a.scanned)) := by
  simp only [body, h]

theorem body_content {a : Stream} (h : a.state = .content) :
    a.body = if a.bodyDone then (.getRequest, a.newLine.cut (a.start + a.contentLength))
      else (.noRequest, a.newLine) := by
  simp only [body, h]

theorem field_pos (a : Stream) (off : ℕ) (t : Bytes) :
    (a.field off t).start = a.start ∧ (a.field off t).scanned = a.scanned ∧ (a.field off t).rest = a.rest ∧
      (a.field off t).state = a.state ∧ (a.field off t).url = a.url := by
  unfold field
  split_ifs <;> exact ⟨rfl, rfl, rfl, rfl, rfl⟩

/-- the results of the handlers -/
theorem body_code (a : Stream) :
    a.body.1 = .noRequest ∨ a.body.1 = .badRequest ∨ a.body.1 = .getRequest ∨ a.body.1 = .undefined := by
  cases hs : a.state with
  | requestLine =>
    rw [body_requestLine hs]
    exact (requestTarget_code _).elim (fun h => Or.inr (Or.inl h)) Or.inl
  | header =>
    rw [body_header hs]
    split_ifs <;> simp
  | content =>
    rw [body_content hs]
    split_ifs <;> simp

/-- what the body leaves when the loop goes on: nothing scanned, the bytes after the line, and a later phase unless
the line was a header line or the body is incomplete -/
theorem body_go {a : Stream} (h : a.body.1 = .noRequest) :
    a.body.2.scanned = [] ∧ a.body.2.rest = a.rest ∧
      ((a.state = .requestLine ∧ a.body.2.state = .header) ∨ (a.state = .header ∧ a.body.2.state = .content) ∨
        (a.state = .header ∧ a.body.2.state = .header ∧ a.scanned ≠ []) ∨
        (a.state = .content ∧ a.body.2 = a.newLine)) := by
  cases hs : a.state with
  | requestLine =>
    rw [body_requestLine hs] at h ⊢
    exact ⟨rfl, rfl, Or.inl ⟨rfl, if_pos h⟩⟩
  | header =>
    rw [body_header hs] at h ⊢
    split_ifs at h ⊢ with ht hc
    · exact ⟨rfl, rfl, Or.inr (Or.inl ⟨rfl, rfl⟩)⟩
    · obtain ⟨-, h2, h3, h4, -⟩ := field_pos a.newLine a.start (cText a.scanned)
      refine ⟨h2, h3, Or.inr (Or.inr (Or.inl ⟨rfl, h4.trans hs, ?_⟩))⟩
      intro hn
      exact ht (by rw [hn]; rfl)
  | content =>
    rw [body_content hs] at h ⊢
    split_ifs at h ⊢
    exact ⟨rfl, rfl, Or.inr (Or.inr (Or.inr ⟨rfl, rfl⟩))⟩

/-- the test of a round that goes on: no bytes appear, and bytes are used up or the scanner has run out -/
theorem test_ok {ls : LineStatus} {a a' : Stream} (h : a.test ls = (.lineOk, a')) :
    a'.state = a.state ∧ ((ls = .lineOk ∧ a' = a ∧ a.state = .content) ∨ a'.rest.length < a.rest.length ∨
      (a' = { a with scanned := a.scanned ++ a.rest, rest := [] } ∧ (a.state ≠ .content ∨ ls ≠ .lineOk))) := by
  unfold test at h
  split_ifs at h with hc
  · obtain ⟨-, rfl⟩ := Prod.mk.inj h
    exact ⟨rfl, Or.inl ⟨hc.2, rfl, hc.1⟩⟩
  · rcases nextLine_cases a.rest with ⟨l, rest, hn, hs, -⟩ | ⟨l, hn, -⟩ | ⟨l, t, hn, -⟩ | ⟨hn, -⟩
    · rw [hn] at h
      obtain ⟨-, rfl⟩ := Prod.mk.inj h
      refine ⟨rfl, Or.inr (Or.inl ?_)⟩
      rw [hs]
      simp only [List.length_append, List.length_cons]
      omega
    · rw [hn] at h; exact absurd (congrArg Prod.fst h) (by simp [afterLine])
    · rw [hn] at h; exact absurd (congrArg Prod.fst h) (by simp [afterLine])
    · rw [hn] at h
      obtain ⟨-, rfl⟩ := Prod.mk.inj h
      exact ⟨rfl, Or.inr (Or.inr ⟨rfl, by tauto⟩)⟩

theorem round_eq (ls : LineStatus) (a : Stream) : round (ls, a) =
    if (a.test ls).1 = .lineOk then
      if (a.test ls).2.body.1 = .noRequest then .inl (statusAfter a.state, (a.test ls).2.body.2)
      else .inr (a.test ls).2.body
    else .inr (.noRequest, (a.test ls).2) := by
  have hst := test_state ls a
  simp only [round]
  generalize a.test ls = p at *
  obtain ⟨ls', a'⟩ := p
  simp only at *
  cases ls' with
  | lineOk =>
    have hcode := body_code a'
    simp only [if_true, hst]
    generalize a'.body = q at hcode
    obtain ⟨c, b⟩ := q
    rcases hcode with h | h | h | h <;> obtain rfl : c = _ := h <;> simp
  | lineBad => simp
  | lineOpen => simp

/-- **A round that goes on comes closer to the end, or repeats its state.** -/
theorem ranked_round : Loop.Ranked round rank := by
  rintro ⟨ls, a⟩ ⟨ls', b⟩ h
  rw [round_eq] at h
  split_ifs at h with hok hgo
  obtain ⟨hst, htest⟩ := test_ok (Prod.ext hok rfl : a.test ls = (.lineOk, (a.test ls).2))
  obtain ⟨hscan, hrest, hcases⟩ := body_go hgo
  generalize (a.test ls).2 = a' at *
  simp only [Sum.inl.injEq, Prod.mk.injEq] at h
  obtain ⟨rfl, rfl⟩ := h
  simp only [rank, hscan, hrest, List.length_nil, Nat.zero_add]
  rw [hst] at hcases
  rcases hcases with ⟨h1, h2⟩ | ⟨h1, h2⟩ | ⟨h1, h2, h3⟩ | ⟨h1, h2⟩
  · -- the request line
    simp only [h1, h2, phase]
    rcases htest with ⟨-, -, h⟩ | h | ⟨rfl, -⟩
    · rw [h1] at h; cases h
    · omega
    · simp only [List.length_nil]; omega
  · -- the empty line
    simp only [h1, h2, phase, statusAfter, reduceCtorEq, if_false]
    rcases htest with ⟨-, -, h⟩ | h | ⟨rfl, -⟩
    · rw [h1] at h; cases h
    · omega
    · simp only [List.length_nil]; omega
  · -- a header line
    simp only [h1, h2, phase]
    rcases htest with ⟨-, -, h⟩ | h | ⟨rfl, -⟩
    · rw [h1] at h; cases h
    · omega
    · have := List.length_pos_iff.2 h3
      simp only [List.length_nil, List.length_append] at this ⊢
      omega
  · -- the body
    have hb' : a'.body.2.state = .content := by rw [h2]; exact hst.trans h1
    simp only [h1, hb', phase, statusAfter, if_true]
    rcases htest with ⟨rfl, rfl, -⟩ | h | ⟨rfl, hls⟩
    · simp
    · left; omega
    · by_cases hz : a.scanned ++ a.rest = []
      · obtain ⟨hz1, hz2⟩ := List.append_eq_nil_iff.1 hz
        cases ls with
        | lineOk => exact absurd rfl (hls.resolve_left (not_not.2 h1))
        | lineBad => simp
        | lineOpen =>
          right
          rw [h2]
          cases a
          simp_all [newLine, pos]
      · left
        have := List.length_pos_iff.2 hz
        simp only [List.length_nil, List.length_append] at this ⊢
        omega

/-- the equation of the loop -/
theorem run_eq (ls : LineStatus) (a : Stream) : a.run ls =
    if (a.test ls).1 = .lineOk then
      if (a.test ls).2.body.1 = .noRequest then (a.test ls).2.body.2.run (statusAfter a.state)
      else some (a.test ls).2.body
    else some (.noRequest, (a.test ls).2) := by
  have h := round_eq ls a
  unfold run
  split_ifs at h ⊢
  · exact Loop.outcome_inl ranked_round h
  · exact Loop.outcome_inr h
  · exact Loop.outcome_inr h

/-! ## The cases of a round -/

/-- the scanner has passed the line `l` and its CR LF, which are zeros now -/
def passed (a : Stream) (l rest : Bytes) : Stream := { a with scanned := a.scanned ++ l ++ [0, 0], rest := rest }

/-- the scanner has moved over `l` and stands before `rest` -/
def moved (a : Stream) (l rest : Bytes) : Stream := { a with scanned := a.scanned ++ l, rest := rest }

/-- the loop from the handler of the state on -/
def proceed (a : Stream) : Option (HttpCode × Stream) :=
  if a.body.1 = .noRequest then a.body.2.run (statusAfter a.state) else some a.body

theorem run_complete {ls : LineStatus} {a : Stream} {l rest : Bytes} (h : a.state ≠ .content ∨ ls ≠ .lineOk)
    (hn : nextLine a.rest = .complete l rest) : a.run ls = (a.passed l rest).proceed := by
  rw [run_eq, test_line h, hn]
  simp only [afterLine, if_true]
  rfl

theorem run_runOut {ls : LineStatus} {a : Stream} {l : Bytes} (h : a.state ≠ .content ∨ ls ≠ .lineOk)
    (hn : nextLine a.rest = .runOut l) : a.run ls = (a.moved l []).proceed := by
  rw [run_eq, test_line h, hn]
  simp only [afterLine, if_true]
  rfl

/-- the scanner stops at a CR that is the last byte, or at a malformed line end -/
theorem run_stop {ls : LineStatus} {a : Stream} {l : Bytes} (h : a.state ≠ .content ∨ ls ≠ .lineOk)
    (hn : nextLine a.rest = .waiting l ∨ nextLine a.rest = .malformed l) :
    a.run ls = some (.noRequest, a.moved l (a.rest.drop l.length)) := by
  rw [run_eq, test_line h]
  rcases hn with hn | hn <;> rw [hn] <;> simp [afterLine, moved]

theorem run_content {a : Stream} (h : a.state = .content) : a.run .lineOk = a.proceed := by
  rw [run_eq, test_content h]
  simp only [if_true]
  rfl

theorem proceed_end {a : Stream} (h : a.body.1 ≠ .noRequest) : a.proceed = some a.body := if_neg h

theorem proceed_go {a : Stream} (h : a.body.1 = .noRequest) : a.proceed = a.body.2.run (statusAfter a.state) := if_pos h

theorem proceed_done {a : Stream} (hs : a.state = .content) (hd : a.bodyDone) :
    a.proceed = some (.getRequest, a.newLine.cut (a.start + a.contentLength)) := by
  rw [proceed_end] <;> rw [body_content hs, if_pos hd]
  nofun

theorem proceed_open {a : Stream} (hs : a.state = .content) (hd : ¬ a.bodyDone) :
    a.proceed = a.newLine.run .lineOpen := by
  rw [proceed_go (by rw [body_content hs, if_neg hd]), body_content hs, if_neg hd, hs]
  rfl

/-- bytes that end no line may be counted as scanned or as unread -/
theorem run_moved {ls : LineStatus} {a : Stream} {l t : Bytes} (h : a.state ≠ .content ∨ ls ≠ .lineOk) (hl : Clean l)
    (hr : a.rest = l ++ t) : (a.moved l t).run ls = a.run ls := by
  have htest : (a.moved l t).test ls = a.test ls := by
    rw [test_line h, test_line (show (a.moved l t).state ≠ .content ∨ ls ≠ .lineOk from h), hr, nextLine_skip hl]
    simp only [moved]
    cases nextLine t <;> simp [afterLine, Line.after, hr]
  rw [run_eq ls (a.moved l t), run_eq ls a, htest]
  rfl

theorem run_status {a : Stream} (h : a.state ≠ .content) (ls ls' : LineStatus) : a.run ls = a.run ls' := by
  rw [run_eq ls, run_eq ls', test_line (Or.inl h), test_line (Or.inl h)]

theorem pos_passed (a : Stream) (l rest : Bytes) : (a.passed l rest).pos = a.pos + l.length + 2 := by
  simp only [pos, passed, List.length_append, List.length_cons, List.length_nil]; omega

theorem pos_moved (a : Stream) (l rest : Bytes) : (a.moved l rest).pos = a.pos + l.length := by
  simp only [pos, moved, List.length_append]; omega

theorem pos_newLine (a : Stream) : a.newLine.pos = a.pos := rfl

theorem total_newLine (a : Stream) : a.newLine.total = a.total := rfl

theorem total_passed {a : Stream} {l rest : Bytes} (h : nextLine a.rest = .complete l rest) :
    (a.passed l rest).total = a.total := by
  rw [total, pos_passed, total, (nextLine_complete_inv h).1]
  simp only [passed, List.length_append, List.length_cons]; omega

theorem total_moved {a : Stream} {l t : Bytes} (h : a.rest = l ++ t) : (a.moved l t).total = a.total := by
  rw [total, pos_moved, total, h]
  simp only [moved, List.length_append]; omega

/-- the test moves the scanner forward over the same bytes and changes nothing else -/
theorem test_moves (ls : LineStatus) (a : Stream) :
    (∃ s r, (a.test ls).2 = { a with scanned := s, rest := r }) ∧ (a.test ls).2.total = a.total ∧
      a.pos ≤ (a.test ls).2.pos := by
  have hmoved : ∀ {l t}, a.rest = l ++ t → (∃ s r, a.moved l t = { a with scanned := s, rest := r }) ∧
      (a.moved l t).total = a.total ∧ a.pos ≤ (a.moved l t).pos :=
    fun h => ⟨⟨_, _, rfl⟩, total_moved h, by rw [pos_moved]; omega⟩
  unfold test
  split_ifs
  · exact ⟨⟨a.scanned, a.rest, rfl⟩, rfl, le_rfl⟩
  · rcases nextLine_cases a.rest with ⟨l, rest, hl, -⟩ | ⟨l, hl, -⟩ | ⟨l, u, hl, -⟩ | ⟨hl, -⟩ <;> rw [hl]
    · refine ⟨⟨_, _, rfl⟩, total_passed hl, ?_⟩
      show a.pos ≤ (a.passed l rest).pos
      rw [pos_passed]; omega
    · exact hmoved (nextLine_stop_inv (Or.inl hl)).2.1
    · exact hmoved (nextLine_stop_inv (Or.inr hl)).2.1
    · exact hmoved (List.append_nil _).symm

theorem body_total (a : Stream) : a.body.2.total = a.total := by
  cases hs : a.state with
  | requestLine => rw [body_requestLine hs]; rfl
  | header =>
    rw [body_header hs]
    split_ifs
    · rfl
    · rfl
    · rfl
    · obtain ⟨h1, h2, h3, -⟩ := field_pos a.newLine a.start (cText a.scanned)
      simp only [total, pos, h1, h2, h3]
      rfl
  | content =>
    rw [body_content hs]
    split_ifs <;> rfl

/-- parsing receives nothing -/
theorem run_total {a : Stream} {ls : LineStatus} {x : HttpCode × Stream} (h : a.run ls = some x) :
    x.2.total = a.total := by
  refine Loop.iterate_inv (I := fun x : LineStatus × Stream => x.2.total = a.total) (Q := fun x => x.2.total = a.total)
    ?_ (s := (ls, a)) rfl h
  rintro ⟨ls, b⟩ (hb : b.total = a.total)
  have ht := (test_moves ls b).2.1.trans hb
  rw [round_eq]
  split_ifs
  · exact (body_total _).trans ht
  · exact (body_total _).trans ht
  · exact ht

/-- the codes with which the loop ends -/
theorem run_code {a : Stream} {ls : LineStatus} {x : HttpCode × Stream} (h : a.run ls = some x) :
    x.1 = .noRequest ∨ x.1 = .badRequest ∨ x.1 = .getRequest ∨ x.1 = .undefined := by
  refine Loop.iterate_inv (I := fun _ => True) (Q := fun x : HttpCode × Stream =>
    x.1 = .noRequest ∨ x.1 = .badRequest ∨ x.1 = .getRequest ∨ x.1 = .undefined) ?_ trivial h
  rintro ⟨ls, b⟩ -
  rw [round_eq]
  split_ifs
  · trivial
  · exact body_code _
  · exact Or.inl rfl

/-! ## Strings and lengths -/

/-- strings end before the current line, and `contentLength` has at most nine digits -/
structure Ok (a : Stream) : Prop where
  url_end : ∀ p, a.url = some p → p.1 + p.2.length ≤ a.start
  host_end : ∀ p, a.host = some p → p.1 + p.2.length ≤ a.start
  length_ge : -10 ^ 9 ≤ a.contentLength
  length_lt : a.contentLength < 10 ^ 9

theorem Ok.newLine {a : Stream} (h : a.Ok) : a.newLine.Ok :=
  ⟨fun p hp => (h.url_end p hp).trans (Nat.le_add_right _ _),
    fun p hp => (h.host_end p hp).trans (Nat.le_add_right _ _), h.length_ge, h.length_lt⟩

/-- a longer number is not stored: the end pointer of `strtol` would go over memory in use -/
theorem lengthAfter_fits {n : ℤ} (h1 : -10 ^ 9 ≤ n) (h2 : n < 10 ^ 9) (t : Bytes) :
    -10 ^ 9 ≤ lengthAfter n t ∧ lengthAfter n t < 10 ^ 9 := by
  unfold lengthAfter
  split
  · rename_i v _
    split_ifs with hslot
    · obtain ⟨heq, hlt⟩ := int32_strtol (endSlot_le (n := v.length) (by rw [hslot]; decide))
      obtain ⟨h3, h4⟩ := abs_lt.1 hlt
      rw [heq]
      exact ⟨h3.le, h4⟩
    · exact ⟨h1, h2⟩
  · exact ⟨h1, h2⟩

theorem Ok.header {a : Stream} (h : a.Ok) : Ok (a.newLine.field a.start (cText a.scanned)) := by
  have hn := h.newLine
  have hlen := length_cText_le a.scanned
  unfold field
  split_ifs
  · exact ⟨hn.url_end, hn.host_end, hn.length_ge, hn.length_lt⟩
  · exact hn
  · obtain ⟨h1, h2⟩ := lengthAfter_fits h.length_ge h.length_lt (cText a.scanned)
    exact ⟨hn.url_end, hn.host_end, h1, h2⟩
  · rename_i hhost
    refine ⟨hn.url_end, ?_, hn.length_ge, hn.length_lt⟩
    rintro p hp
    cases hp
    have h5 := length_of_strncasecmp hhost (by decide)
    have hsp := strspn_le ((cText a.scanned).drop 5) blanks
    have hstart : a.newLine.start = a.start + a.scanned.length := rfl
    simp only [skipBlanks, List.length_drop] at hsp ⊢
    omega
  · exact hn

theorem Ok.requestLine {a : Stream} (h : a.Ok) (hs : a.state = .requestLine) : a.body.2.Ok := by
  have hn := h.newLine
  have hlen := length_cText_le a.scanned
  rw [body_requestLine hs]
  refine ⟨?_, hn.host_end, hn.length_ge, hn.length_lt⟩
  intro p hp
  obtain ⟨u, hu, rfl⟩ := Option.map_eq_some_iff.1 hp
  have := requestTarget_le hu
  simp only [Stream.newLine, pos]
  omega

/-! ## Header lines -/

theorem cText_passed_line (a : Stream) (l rest : Bytes) :
    cText (a.passed l rest).scanned = cText (a.scanned ++ l) :=
  cText_append_zero (a.scanned ++ l) [0]

theorem cText_passed {a : Stream} (h : a.scanned = []) (l rest : Bytes) : cText (a.passed l rest).scanned = cText l := by
  rw [cText_passed_line, h, List.nil_append]

theorem field_contentLength (a : Stream) (off : ℕ) (t : Bytes) :
    (a.field off t).contentLength = lengthAfter a.contentLength t := by
  unfold field
  split_ifs with hconn _ hlen
  · simp only [lengthAfter, lengthValue, hconn, if_true]
  · simp only [lengthAfter, lengthValue, hconn, if_true]
  · rfl
  all_goals simp only [lengthAfter, lengthValue, hconn, hlen, Bool.false_eq_true, if_false]

/-- the state after a header line -/
def afterHeader (a : Stream) (l rest : Bytes) : Stream := (a.passed l rest).newLine.field a.start (cText l)

/-- the state after the empty line of a request with a body -/
def bodyStart (a : Stream) (l rest : Bytes) : Stream := { (a.passed l rest).newLine with state := .content }

theorem body_emptyLine_end {a : Stream} (hs : a.state = .header) (hscan : a.scanned = []) {l : Bytes}
    (hl : cText l = []) (hn : a.contentLength = 0) (rest : Bytes) :
    (a.passed l rest).body = (.getRequest, (a.passed l rest).newLine) := by
  rw [body_header (a := a.passed l rest) hs, cText_passed hscan, if_pos hl]
  exact if_neg (not_not.2 hn)

theorem body_emptyLine_go {a : Stream} (hs : a.state = .header) (hscan : a.scanned = []) {l : Bytes}
    (hl : cText l = []) (hn : a.contentLength ≠ 0) (rest : Bytes) :
    (a.passed l rest).body = (.noRequest, a.bodyStart l rest) := by
  rw [body_header (a := a.passed l rest) hs, cText_passed hscan, if_pos hl]
  exact if_pos hn

theorem body_header_go {a : Stream} (hs : a.state = .header) (hscan : a.scanned = []) {l : Bytes}
    (hl : cText l ≠ []) (hf : faults a.start (cText l) = false) (rest : Bytes) :
    (a.passed l rest).body = (.noRequest, a.afterHeader l rest) := by
  rw [body_header (a := a.passed l rest) hs, cText_passed hscan, if_neg hl]
  exact if_neg (by rw [show (a.passed l rest).start = a.start from rfl, hf]; decide)

theorem body_header_faults {a : Stream} (hs : a.state = .header) (hscan : a.scanned = []) {l : Bytes}
    (hl : cText l ≠ []) (hf : faults a.start (cText l) = true) (rest : Bytes) :
    (a.passed l rest).body = (.undefined, (a.passed l rest).newLine) := by
  rw [body_header (a := a.passed l rest) hs, cText_passed hscan, if_neg hl]
  exact if_pos hf

theorem pos_bodyStart (a : Stream) (l rest : Bytes) : (a.bodyStart l rest).pos = a.pos + l.length + 2 :=
  pos_passed a l rest

theorem total_bodyStart {a : Stream} {l rest : Bytes} (h : nextLine a.rest = .complete l rest) :
    (a.bodyStart l rest).total = a.total :=
  total_passed h

theorem Ok.bodyStart {a : Stream} (h : a.Ok) (l rest : Bytes) : (a.bodyStart l rest).Ok :=
  have hp : (a.passed l rest).Ok := ⟨h.url_end, h.host_end, h.length_ge, h.length_lt⟩
  ⟨hp.newLine.url_end, hp.newLine.host_end, h.length_ge, h.length_lt⟩

theorem afterHeader_line (a : Stream) (l rest : Bytes) : (a.afterHeader l rest).scanned = [] ∧
    (a.afterHeader l rest).rest = rest ∧ (a.afterHeader l rest).state = a.state ∧ (a.afterHeader l rest).url = a.url := by
  obtain ⟨-, h2, h3, h4, h5⟩ := field_pos (a.passed l rest).newLine a.start (cText l)
  exact ⟨h2, h3, h4, h5⟩

theorem pos_afterHeader (a : Stream) (l rest : Bytes) : (a.afterHeader l rest).pos = a.pos + l.length + 2 := by
  obtain ⟨h1, h2, -⟩ := field_pos (a.passed l rest).newLine a.start (cText l)
  rw [afterHeader, Stream.pos, h1, h2]
  exact pos_passed a l rest

theorem total_afterHeader {a : Stream} {l rest : Bytes} (h : nextLine a.rest = .complete l rest) :
    (a.afterHeader l rest).total = a.total := by
  rw [← total_passed h, total, pos_afterHeader, ← pos_passed a l rest, (afterHeader_line a l rest).2.1]
  rfl

theorem contentLength_afterHeader (a : Stream) (l rest : Bytes) :
    (a.afterHeader l rest).contentLength = lengthAfter a.contentLength (cText l) :=
  field_contentLength _ _ _

theorem Ok.afterHeader {a : Stream} (h : a.Ok) (hscan : a.scanned = []) (l rest : Bytes) :
    (a.afterHeader l rest).Ok := by
  have hp : (a.passed l rest).Ok := ⟨h.url_end, h.host_end, h.length_ge, h.length_lt⟩
  have := hp.header
  rw [cText_passed hscan] at this
  exact this

end Stream

/-- the zero after a body is stored at most behind the last byte received, so behind a full buffer only in the first
byte of `readIndex` -/
theorem parseContext_inside {r : ReadSide} (h : Tidy r) (hok : r.stream.Ok)
    (hget : (parseContext r.startLine r).1 = .getRequest) : r.startLine + r.contentLength ≤ r.readIndex := by
  have hstart := h.start_le
  have hcheck := h.check_le.trans h.read_le
  have hsize : readBufferSize = 2048 := rfl
  have hlo : -10 ^ 9 ≤ r.contentLength := hok.length_ge
  have hhi : r.contentLength < 10 ^ 9 := hok.length_lt
  unfold parseContext at hget
  split_ifs at hget with hdone
  rw [int32_eq (by omega) (by omega)] at hdone
  omega

/-! ## The number of rounds -/

/-- **`loopRounds` rounds of the code's loop give the stream's outcome.** -/
theorem processReadLoop_run {fuel : ℕ} (hf : loopRounds ≤ fuel) (ls : LineStatus) {r : ReadSide} (h : Inv r) :
    Option.Rel SameEnd (processReadLoop fuel ls r) (r.stream.run ls) := by
  have hrank : Stream.rank (ls, r.stream) < fuel := by
    have h1 := stream_total h
    have h2 := h.read_le
    have h3 : Stream.phase ls r.stream.state ≤ 3 := by
      cases r.stream.state <;> simp only [Stream.phase]
      · omega
      · omega
      · split_ifs <;> omega
    unfold Stream.rank
    unfold Stream.total Stream.pos at h1
    unfold loopRounds at hf
    simp only
    omega
  unfold Stream.run
  rw [← Loop.iterate_eq_outcome Stream.ranked_round hrank]
  exact processReadLoop_stream fuel ls h

/-- a loop that has not ended after `loopRounds` rounds never ends, one that has ended keeps its result -/
theorem processReadLoop_stable {fuel : ℕ} (hf : loopRounds ≤ fuel) (ls : LineStatus) {r : ReadSide} (h : Inv r) :
    processReadLoop fuel ls r = processReadLoop loopRounds ls r := by
  have h1 := processReadLoop_run hf ls h
  have h2 := processReadLoop_run le_rfl ls h
  cases hc : processReadLoop loopRounds ls r with
  | some x => exact Loop.iterate_mono hc hf
  | none =>
    rw [hc] at h2
    cases hr : r.stream.run ls with
    | some y => rw [hr] at h2; cases h2
    | none =>
      rw [hr] at h1
      cases hf' : processReadLoop fuel ls r with
      | none => rfl
      | some x => rw [hf'] at h1; cases h1

/-- a loop of the code that ends does so as the stream's -/
theorem run_of_loop {ls : LineStatus} {r r' : ReadSide} (h : Inv r) {code : HttpCode}
    (hloop : processReadLoop loopRounds ls r = some (code, r')) :
    ∃ b, r.stream.run ls = some (code, b) ∧ SameEnd (code, r') (code, b) := by
  have hrel := processReadLoop_run le_rfl ls h
  rw [hloop] at hrel
  generalize r.stream.run ls = y at hrel ⊢
  cases hrel with
  | @some _ y hend =>
    obtain ⟨code', b⟩ := y
    obtain rfl : code = code' := hend.code
    exact ⟨b, rfl, hend⟩

theorem loop_of_run {ls : LineStatus} {r : ReadSide} (h : Inv r) {code : HttpCode} {b : Stream}
    (hrun : r.stream.run ls = some (code, b)) :
    ∃ r', processReadLoop loopRounds ls r = some (code, r') ∧ SameEnd (code, r') (code, b) := by
  have hrel := processReadLoop_run le_rfl ls h
  rw [hrun] at hrel
  generalize processReadLoop loopRounds ls r = x at hrel ⊢
  cases hrel with
  | @some x _ hend =>
    obtain ⟨code', r'⟩ := x
    obtain rfl : code' = code := hend.code
    exact ⟨r', rfl, hend⟩

/-- however many rounds the loop took, `loopRounds` are enough -/
theorem processReadLoop_enough {fuel : ℕ} {ls : LineStatus} {r : ReadSide} (h : Inv r) {x : HttpCode × ReadSide}
    (hx : processReadLoop fuel ls r = some x) : processReadLoop loopRounds ls r = some x := by
  have hmore : processReadLoop (max fuel loopRounds) ls r = some x := Loop.iterate_mono hx (Nat.le_max_left _ _)
  rw [← processReadLoop_stable (Nat.le_max_right fuel loopRounds) ls h]
  exact hmore

end WebServer.HttpConn
