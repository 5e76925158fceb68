/-
Where the bytes of a request may be cut: the parser is given `p` now and more bytes later, or everything at once.

The loop resumes from the state that the last call left behind. Whether that state is one the uncut bytes pass through
depends on where the scanner stands at the end of `p`. `cutSafe p` follows it line by line:
- at a CR that is the last byte, or at a malformed line end, the scanner waits and resumes there;
- a rejected request line, or the empty line of a request without a body, has decided the request already;
- a body that is complete has decided it too, and after a header line that writes over memory in use (`faults`) nothing
  is said any more;
- an unfinished line of the head is taken for a complete one (`runOut`): not safe;
- in an incomplete body the scanner goes on over lines of the body and `checkIndex` moves with it, although the test for
  the end of the body is relative to `checkIndex`. Safe only if it stops at the first byte of the body, or if the body
  can never be complete.

- `run_cut`: at a safe place, resuming and not cutting agree, for all bytes that follow.
- `run_cut_differs`: at any other place there are bytes for which they do not, and no memory in use is written over.
-/
import WebServer.HttpConn.Rounds

namespace WebServer.HttpConn

open WebServer

/-! ## Safe places -/

/-- bytes a request may have: the last byte of `readBuffer` stays free -/
def requestSize : ℕ := readBufferSize - 1

theorem requestSize_eq : requestSize = 2047 := rfl

/-- the scanner waits at offset `c` in a body of length `n` that starts at offset `b` -/
def stopSafe (n : ℤ) (b c : ℕ) : Bool := c = b ∨ (requestSize < n + b ∧ n + c < 2 ^ 31)

/-- the scanner is at offset `pos`, before `rest`, in an incomplete body of length `n` that starts at offset `b` -/
def bodySafe (n : ℤ) (b pos : ℕ) (rest : Bytes) : Bool :=
  match h : nextLine rest with
  | .complete l rest' =>
    decide (int32 (n + (pos + l.length + 2 : ℕ)) ≤ (pos + rest.length : ℕ)) ||
      bodySafe n b (pos + l.length + 2) rest'
  | .waiting l => stopSafe n b (pos + l.length)
  | .malformed l => stopSafe n b (pos + l.length)
  | .runOut _ => false
termination_by rest.length
decreasing_by rw [(nextLine_complete_inv h).1]; simp; omega

/-- the scanner is at offset `pos`, before the header lines `rest`; `n` is `contentLength` so far -/
def headSafe (n : ℤ) (pos : ℕ) (rest : Bytes) : Bool :=
  match h : nextLine rest with
  | .complete l rest' =>
    let pos' := pos + l.length + 2
    if cText l = [] then
      decide (n = 0) || decide (int32 (n + pos') ≤ (pos' + rest'.length : ℕ)) || bodySafe n pos' pos' rest'
    else faults pos (cText l) || headSafe (lengthAfter n (cText l)) pos' rest'
  | .waiting _ => true
  | .malformed _ => true
  | .runOut _ => false
termination_by rest.length
decreasing_by rw [(nextLine_complete_inv h).1]; simp; omega

/-- **Cutting after `p` is safe.** -/
def cutSafe (p : Bytes) : Bool :=
  match nextLine p with
  | .complete l rest => decide ((requestTarget (cText l)).1 = .badRequest) || headSafe 0 (l.length + 2) rest
  | .waiting _ => true
  | .malformed _ => true
  | .runOut _ => false

theorem bodySafe_complete {n : ℤ} {b pos : ℕ} {rest l rest' : Bytes} (h : nextLine rest = .complete l rest') :
    bodySafe n b pos rest = true ↔ int32 (n + (pos + l.length + 2 : ℕ)) ≤ (pos + rest.length : ℕ) ∨
      bodySafe n b (pos + l.length + 2) rest' = true := by
  rw [bodySafe]
  split <;> simp_all

theorem bodySafe_stop {n : ℤ} {b pos : ℕ} {rest l : Bytes}
    (h : nextLine rest = .waiting l ∨ nextLine rest = .malformed l) :
    bodySafe n b pos rest = true ↔ pos + l.length = b ∨ (requestSize < n + b ∧ n + (pos + l.length : ℕ) < 2 ^ 31) := by
  rw [bodySafe]
  split <;> simp_all [stopSafe]

theorem bodySafe_runOut {n : ℤ} {b pos : ℕ} {rest l : Bytes} (h : nextLine rest = .runOut l) :
    bodySafe n b pos rest = false := by
  rw [bodySafe]
  split <;> simp_all

/-- behind the first byte of a body that can still be completed no place is safe -/
theorem bodySafe_small {n : ℤ} {b : ℕ} (k : ℕ) {pos : ℕ} {rest : Bytes} (hk : rest.length = k) (hn : 0 < n)
    (hsmall : n + b ≤ requestSize) (hopen : (pos + rest.length : ℕ) < n + b) (hb : b < pos) :
    bodySafe n b pos rest = false := by
  rw [requestSize_eq] at hsmall
  induction k using Nat.strong_induction_on generalizing pos rest with
  | _ k ih =>
  have hstop : ∀ l, (nextLine rest = .waiting l ∨ nextLine rest = .malformed l) → bodySafe n b pos rest = false := by
    intro l hl
    rw [Bool.eq_false_iff, Ne, bodySafe_stop hl, requestSize_eq]
    omega
  rcases nextLine_cases rest with ⟨l, rest', hl, hrest, -⟩ | ⟨l, hl, -⟩ | ⟨l, t, hl, -⟩ | ⟨hl, -⟩
  · have hlen : rest.length = l.length + rest'.length + 2 := by rw [hrest]; simp; omega
    rw [Bool.eq_false_iff, Ne, bodySafe_complete hl, ih rest'.length (by omega) rfl (by omega) (by omega),
      int32_le_iff (by omega) (by omega) (by omega)]
    simp only [Bool.false_eq_true, or_false]
    omega
  · exact hstop l (Or.inl hl)
  · exact hstop l (Or.inr hl)
  · exact bodySafe_runOut hl

theorem headSafe_blank {n : ℤ} {pos : ℕ} {rest l rest' : Bytes} (h : nextLine rest = .complete l rest')
    (hl : cText l = []) : headSafe n pos rest = true ↔ n = 0 ∨
      int32 (n + (pos + l.length + 2 : ℕ)) ≤ (pos + l.length + 2 + rest'.length : ℕ) ∨
      bodySafe n (pos + l.length + 2) (pos + l.length + 2) rest' = true := by
  rw [headSafe]
  split <;> simp_all [or_assoc]

theorem headSafe_field {n : ℤ} {pos : ℕ} {rest l rest' : Bytes} (h : nextLine rest = .complete l rest')
    (hl : cText l ≠ []) :
    headSafe n pos rest = (faults pos (cText l) || headSafe (lengthAfter n (cText l)) (pos + l.length + 2) rest') := by
  rw [headSafe]
  split <;> simp_all

theorem headSafe_runOut {n : ℤ} {pos : ℕ} {rest l : Bytes} (h : nextLine rest = .runOut l) :
    headSafe n pos rest = false := by
  rw [headSafe]
  split <;> simp_all

theorem headSafe_stop {n : ℤ} {pos : ℕ} {rest l : Bytes}
    (h : nextLine rest = .waiting l ∨ nextLine rest = .malformed l) : headSafe n pos rest = true := by
  rw [headSafe]
  split <;> simp_all

/-! ## Receiving more bytes -/

namespace Stream

theorem pos_load (a : Stream) (q : Bytes) : (a.load q).pos = a.pos := rfl

theorem total_load (a : Stream) (q : Bytes) : (a.load q).total = a.total + q.length := by
  rw [total, total, pos_load, load, List.length_append]; omega

theorem field_load (a : Stream) (off : ℕ) (t q : Bytes) : (a.load q).field off t = (a.field off t).load q := by
  unfold field
  split_ifs <;> rfl

/-- the handlers of the head do not look at the bytes after the line -/
theorem body_load {a : Stream} (h : a.state ≠ .content) (q : Bytes) :
    (a.load q).body = (a.body.1, a.body.2.load q) := by
  cases hs : a.state with
  | requestLine => rw [body_requestLine hs, body_requestLine (show (a.load q).state = _ from hs)]; rfl
  | header =>
    rw [body_header hs, body_header (show (a.load q).state = _ from hs)]
    simp only [show (a.load q).newLine = a.newLine.load q from rfl, show (a.load q).scanned = a.scanned from rfl,
      show (a.load q).contentLength = a.contentLength from rfl, show (a.load q).start = a.start from rfl, field_load]
    by_cases ht : cText a.scanned = []
    · simp only [if_pos ht]
      split_ifs <;> rfl
    · simp only [if_neg ht]
      split_ifs <;> rfl
  | content => exact absurd hs h

theorem bodyDone_iff {a : Stream} (h : a.Ok) (ht : a.total ≤ requestSize) :
    a.bodyDone ↔ a.contentLength + a.pos ≤ a.total ∨ 2 ^ 31 ≤ a.contentLength + a.pos := by
  have hp : a.pos ≤ a.total := Nat.le_add_right _ _
  have h1 := h.length_ge
  have h2 := h.length_lt
  rw [requestSize_eq] at ht
  exact int32_le_iff (by omega) (by omega) (by omega)

/-! ## Body states that differ in the line start only -/

/-- two body states with the scanner at the same place -/
structure Alike (a b : Stream) : Prop where
  left : a.state = .content
  right : b.state = .content
  pos : a.pos = b.pos
  rest : a.rest = b.rest
  request : SameRequest a b
  positive : 0 < a.contentLength
  ok_left : a.Ok
  ok_right : b.Ok

theorem Alike.newLine_left {a : Stream} (hs : a.state = .content) (h : a.Ok) (hn : 0 < a.contentLength) :
    Alike a.newLine a :=
  ⟨hs, hs, rfl, rfl, ⟨rfl, rfl, rfl, rfl⟩, hn, h.newLine, h⟩

theorem Alike.newLine {a b : Stream} (h : Alike a b) : Alike a.newLine b.newLine :=
  ⟨h.left, h.right, h.pos, h.rest, ⟨h.request.url, h.request.host, h.request.linger, h.request.contentLength⟩,
    h.positive, h.ok_left.newLine, h.ok_right.newLine⟩

theorem Alike.load {a b : Stream} (h : Alike a b) (q : Bytes) : Alike (a.load q) (b.load q) :=
  ⟨h.left, h.right, h.pos, congrArg (· ++ q) h.rest,
    ⟨h.request.url, h.request.host, h.request.linger, h.request.contentLength⟩, h.positive,
    ⟨h.ok_left.url_end, h.ok_left.host_end, h.ok_left.length_ge, h.ok_left.length_lt⟩,
    ⟨h.ok_right.url_end, h.ok_right.host_end, h.ok_right.length_ge, h.ok_right.length_lt⟩⟩

/-- the scanner moves by the same bytes -/
theorem Alike.scanned {a b : Stream} (h : Alike a b) (s t : Bytes) :
    Alike { a with scanned := a.scanned ++ s, rest := t } { b with scanned := b.scanned ++ s, rest := t } := by
  refine ⟨h.left, h.right, ?_, rfl, ⟨h.request.url, h.request.host, h.request.linger, h.request.contentLength⟩,
    h.positive, ⟨h.ok_left.url_end, h.ok_left.host_end, h.ok_left.length_ge, h.ok_left.length_lt⟩,
    ⟨h.ok_right.url_end, h.ok_right.host_end, h.ok_right.length_ge, h.ok_right.length_lt⟩⟩
  have := h.pos
  simp only [Stream.pos, List.length_append] at this ⊢
  omega

theorem Alike.test {a b : Stream} (h : Alike a b) (ls : LineStatus) :
    (a.test ls).1 = (b.test ls).1 ∧ Alike (a.test ls).2 (b.test ls).2 := by
  unfold Stream.test
  rw [h.left, h.right, h.rest]
  split_ifs
  · exact ⟨rfl, h⟩
  · cases nextLine b.rest with
    | complete l rest =>
      simp only [afterLine, List.append_assoc]
      exact ⟨trivial, h.scanned _ _⟩
    | waiting l => simp only [afterLine, h.rest]; exact ⟨trivial, h.scanned _ _⟩
    | malformed l => simp only [afterLine, h.rest]; exact ⟨trivial, h.scanned _ _⟩
    | runOut l => exact ⟨rfl, h.scanned _ _⟩

theorem Ok.cut {a : Stream} (h : a.Ok) (hn : 0 < a.contentLength) :
    SameRequest (a.newLine.cut (a.start + a.contentLength)) a := by
  have hcut : ∀ o : Option (ℕ × Bytes), (∀ p, o = some p → p.1 + p.2.length ≤ a.start) →
      o.map (cutString (a.start + a.contentLength)) = o := by
    intro o ho
    cases o with
    | none => rfl
    | some p =>
      have := ho p rfl
      rw [Option.map_some, cutString_of_le (by omega)]
  exact ⟨hcut _ h.url_end, hcut _ h.host_end, rfl, rfl⟩

theorem Alike.body {a b : Stream} (h : Alike a b) :
    a.body.1 = b.body.1 ∧ SameRequest a.body.2 b.body.2 ∧ (a.body.1 ≠ .getRequest → Alike a.body.2 b.body.2) := by
  have hdone : a.bodyDone ↔ b.bodyDone := by
    unfold bodyDone total
    rw [h.pos, h.rest, h.request.contentLength]
  rw [body_content h.left, body_content h.right]
  by_cases hd : a.bodyDone
  · rw [if_pos hd, if_pos (hdone.1 hd)]
    have ha := h.ok_left.cut h.positive
    have hb := h.ok_right.cut (h.request.contentLength ▸ h.positive)
    exact ⟨rfl, ⟨ha.url.trans (h.request.url.trans hb.url.symm), ha.host.trans (h.request.host.trans hb.host.symm),
      h.request.linger, h.request.contentLength⟩, fun hn => absurd rfl hn⟩
  · rw [if_neg hd, if_neg fun hb => hd (hdone.2 hb)]
    exact ⟨rfl, h.newLine.request, fun _ => h.newLine⟩

/-! ## Agreement -/

/-- states from which any further bytes have the same effect -/
def Resumes (a b : Stream) : Prop := a = b ∨ Alike a b

/-- the same code and the same request, and for NO_REQUEST states that resume alike -/
structure Agree (x y : HttpCode × Stream) : Prop where
  code : x.1 = y.1
  request : SameRequest x.2 y.2
  resume : x.1 = .noRequest → Resumes x.2 y.2

theorem Agree.refl (x : HttpCode × Stream) : Agree x x := ⟨rfl, SameRequest.of_eq rfl, fun _ => Or.inl rfl⟩

theorem agree_of_eq {x y : Option (HttpCode × Stream)} (h : x = y) : Option.Rel Agree x y := by
  subst h
  cases x with
  | none => exact .none
  | some x => exact .some (Agree.refl x)

theorem Alike.round {a b : Stream} (h : Alike a b) (ls : LineStatus) :
    Sum.LiftRel (fun x y => x.1 = y.1 ∧ Alike x.2 y.2) Agree (Stream.round (ls, a)) (Stream.round (ls, b)) := by
  obtain ⟨ht, hta⟩ := h.test ls
  obtain ⟨hb, hsame, hgo⟩ := hta.body
  rw [round_eq, round_eq, ← ht, ← hb]
  split_ifs with hok hno
  · exact .inl ⟨by rw [h.left, h.right], hgo (by rw [hno]; decide)⟩
  · exact .inr ⟨hb, hsame, fun hn => absurd hn hno⟩
  · exact .inr ⟨rfl, hta.request, fun _ => Or.inr hta⟩

theorem Alike.run {a b : Stream} (h : Alike a b) (ls : LineStatus) : Option.Rel Agree (a.run ls) (b.run ls) := by
  refine Loop.outcome_rel (R := fun x y => x.1 = y.1 ∧ Alike x.2 y.2) ranked_round ranked_round ?_ ⟨rfl, h⟩
  rintro ⟨ls, a⟩ ⟨_, b⟩ ⟨rfl, h⟩
  exact h.round ls

theorem Resumes.feed {a b : Stream} (h : Resumes a b) (q : Bytes) :
    Option.Rel Agree ((a.load q).run .lineOk) ((b.load q).run .lineOk) := by
  rcases h with rfl | h
  · exact agree_of_eq rfl
  · exact (h.load q).run .lineOk

/-- the bytes `q` arrive after a call with the given result: only a NO_REQUEST is resumed -/
def after (q : Bytes) : Option (HttpCode × Stream) → Option (HttpCode × Stream)
  | some (.noRequest, b) => (b.load q).run .lineOk
  | x => x

theorem after_end {q : Bytes} {x : HttpCode × Stream} (h : x.1 ≠ .noRequest) : after q (some x) = some x := by
  obtain ⟨c, b⟩ := x
  cases c <;> first | rfl | exact absurd rfl h

/-! ## Safe places -/

/-- the scanner stops at an offset where the body is not complete and `contentLength` does not overflow -/
theorem stop_cut {q : Bytes} {a : Stream} (hs : a.state = .content) (hok : a.Ok) (hn : 0 < a.contentLength) {l : Bytes}
    (hl : nextLine a.rest = .waiting l ∨ nextLine a.rest = .malformed l) (hq : a.total + q.length ≤ requestSize)
    (hbig : requestSize < a.contentLength + (a.pos + l.length : ℕ))
    (hint : a.contentLength + (a.pos + l.length : ℕ) < 2 ^ 31) :
    Option.Rel Agree (after q (a.run .lineOpen)) ((a.load q).run .lineOpen) := by
  have hls : a.state ≠ .content ∨ LineStatus.lineOpen ≠ .lineOk := Or.inr (by decide)
  obtain ⟨hc, hrest, -⟩ := nextLine_stop_inv hl
  rw [run_stop hls hl]
  set a' := (a.moved l (a.rest.drop l.length)).load q with ha'
  have hs' : a'.state = .content := hs
  have hok' : a'.Ok := ⟨hok.url_end, hok.host_end, hok.length_ge, hok.length_lt⟩
  have hpos' : a'.pos = a.pos + l.length := pos_moved a l _
  have htot : a'.total = a.total + q.length := by rw [ha', total_load, total_moved hrest]
  have hmv : a'.run .lineOpen = (a.load q).run .lineOpen := by
    refine run_moved (a := a.load q) (l := l) (t := a.rest.drop l.length ++ q) hls hc ?_
    rw [← List.append_assoc, ← hrest]
    rfl
  have hopen : ¬ a'.bodyDone := by
    rw [bodyDone_iff hok' (by omega), hpos', htot, show a'.contentLength = a.contentLength from rfl]
    omega
  show Option.Rel Agree (a'.run .lineOk) _
  rw [run_content hs', proceed_open hs' hopen, ← hmv]
  exact (Alike.newLine_left hs' hok' hn).run .lineOpen

/-- a body that can never be complete: the scanner's place does not matter -/
theorem scan_cut {b : ℕ} {q : Bytes} (k : ℕ) {a : Stream} (hk : a.rest.length = k) (hs : a.state = .content)
    (hok : a.Ok) (hbig : requestSize < a.contentLength + b) (hint : a.contentLength + b < 2 ^ 31) (hb : b ≤ a.pos)
    (hsafe : bodySafe a.contentLength b a.pos a.rest = true) (hq : a.total + q.length ≤ requestSize) :
    Option.Rel Agree (after q (a.run .lineOpen)) ((a.load q).run .lineOpen) := by
  induction k using Nat.strong_induction_on generalizing a with
  | _ k ih =>
  have hls : a.state ≠ .content ∨ LineStatus.lineOpen ≠ .lineOk := Or.inr (by decide)
  have hpt : a.pos ≤ a.total := Nat.le_add_right _ _
  have hstop : ∀ l, (nextLine a.rest = .waiting l ∨ nextLine a.rest = .malformed l) →
      Option.Rel Agree (after q (a.run .lineOpen)) ((a.load q).run .lineOpen) := by
    intro l hl
    have h := (bodySafe_stop hl).1 hsafe
    exact stop_cut hs hok (by omega) hl hq (by omega) (by omega)
  rcases nextLine_cases a.rest with ⟨l, rest, hl, hrest, -⟩ | ⟨l, hl, -⟩ | ⟨l, t, hl, -⟩ | ⟨hl, -⟩
  · rw [run_complete hls hl, run_complete (a := a.load q) hls (nextLine_complete_append hl q)]
    set a' := a.passed l rest with ha'
    have hs' : a'.state = .content := hs
    have hok' : a'.Ok := ⟨hok.url_end, hok.host_end, hok.length_ge, hok.length_lt⟩
    have htot : a'.total = a.total := total_passed hl
    have hpos : a'.pos = a.pos + l.length + 2 := pos_passed a l rest
    have hoq : (a'.load q).Ok := ⟨hok.url_end, hok.host_end, hok.length_ge, hok.length_lt⟩
    have hlen : a'.rest.length < k := by
      rw [← hk, hrest]; simp only [ha', passed, List.length_append, List.length_cons]; omega
    have hiff : a'.bodyDone ↔ (a'.load q).bodyDone := by
      rw [bodyDone_iff hok' (by omega), bodyDone_iff hoq (by rw [total_load]; omega), total_load, pos_load,
        show (a'.load q).contentLength = a'.contentLength from rfl]
      have : a'.contentLength = a.contentLength := rfl
      omega
    show Option.Rel Agree (after q a'.proceed) (a'.load q).proceed
    by_cases hd : a'.bodyDone
    · rw [proceed_done hs' hd, proceed_done (show (a'.load q).state = _ from hs) (hiff.1 hd), after_end (by simp)]
      exact .some ⟨rfl, ⟨rfl, rfl, rfl, rfl⟩, fun h => by cases h⟩
    · rw [proceed_open hs' hd, proceed_open (show (a'.load q).state = _ from hs) fun h => hd (hiff.2 h)]
      refine ih _ hlen (a := a'.newLine) rfl hs hok'.newLine hbig hint (by rw [pos_newLine, hpos]; omega) ?_
        (by rw [total_newLine, htot]; exact hq)
      rcases (bodySafe_complete hl).1 hsafe with h | h
      · refine absurd ?_ hd
        unfold bodyDone
        rw [hpos, htot]
        exact h
      · rw [pos_newLine, hpos]; exact h
  · exact hstop l (Or.inl hl)
  · exact hstop l (Or.inr hl)
  · rw [bodySafe_runOut hl] at hsafe
    cases hsafe

theorem newLine_eq {a : Stream} (h : a.scanned = []) : a.newLine = a := by
  cases a
  simp_all [newLine, pos]

/-- at the first byte of the body -/
theorem content_cut {q : Bytes} {a : Stream} (hs : a.state = .content) (hscan : a.scanned = []) (hok : a.Ok)
    (hq : a.total + q.length ≤ requestSize)
    (hsafe : a.bodyDone ∨ bodySafe a.contentLength a.pos a.pos a.rest = true) :
    Option.Rel Agree (after q (a.run .lineOk)) ((a.load q).run .lineOk) := by
  have hls : a.state ≠ .content ∨ LineStatus.lineOpen ≠ .lineOk := Or.inr (by decide)
  have hs' : (a.load q).state = .content := hs
  have hok' : (a.load q).Ok := ⟨hok.url_end, hok.host_end, hok.length_ge, hok.length_lt⟩
  have hpt : a.pos ≤ a.total := Nat.le_add_right _ _
  have hiff := bodyDone_iff hok (by omega)
  have hiff' : (a.load q).bodyDone ↔ _ := bodyDone_iff hok' (by rw [total_load]; omega)
  rw [total_load, pos_load, show (a.load q).contentLength = a.contentLength from rfl] at hiff'
  by_cases hd : a.bodyDone
  · have hd' := hiff'.2 (by have := hiff.1 hd; omega)
    rw [run_content hs, run_content hs', proceed_done hs hd, proceed_done hs' hd', after_end (by simp)]
    exact .some ⟨rfl, ⟨rfl, rfl, rfl, rfl⟩, fun h => by cases h⟩
  have hsafe := hsafe.resolve_left hd
  have hlt := hiff.not.1 hd
  have hopen : a.run .lineOk = a.run .lineOpen := by rw [run_content hs, proceed_open hs hd, newLine_eq hscan]
  by_cases hbig : requestSize < a.contentLength + a.pos
  · have hd' := hiff'.not.2 (by omega)
    rw [hopen, run_content hs', proceed_open hs' hd', newLine_eq (show (a.load q).scanned = [] from hscan)]
    exact scan_cut _ rfl hs hok hbig (by omega) le_rfl hsafe hq
  · -- the body can still be completed: the scanner has not moved
    have hsmall : ∀ l rest, nextLine a.rest ≠ .complete l rest := by
      intro l rest hl
      have hrest := (nextLine_complete_inv hl).1
      have hlen : a.rest.length = l.length + rest.length + 2 := by rw [hrest]; simp; omega
      have ht : a.total = a.pos + a.rest.length := rfl
      rcases (bodySafe_complete hl).1 hsafe with h | h
      · rw [int32_le_iff (by omega) (by rw [requestSize_eq] at *; omega) (by rw [requestSize_eq] at *; omega)] at h
        rw [requestSize_eq] at *
        omega
      · rw [bodySafe_small _ rfl (by omega) (by omega) (by omega) (by omega)] at h
        cases h
    have hstop : ∀ l, (nextLine a.rest = .waiting l ∨ nextLine a.rest = .malformed l) →
        Option.Rel Agree (after q (a.run .lineOk)) ((a.load q).run .lineOk) := by
      intro l hl
      have hnil : l = [] := by
        have := (bodySafe_stop hl).1 hsafe
        exact List.eq_nil_of_length_eq_zero (by omega)
      subst hnil
      have hsame : a.moved [] (a.rest.drop 0) = a := by simp [moved]
      rw [hopen, run_stop hls hl, List.length_nil, hsame]
      exact agree_of_eq rfl
    rcases nextLine_cases a.rest with ⟨l, rest, hl, -⟩ | ⟨l, hl, -⟩ | ⟨l, t, hl, -⟩ | ⟨hl, -⟩
    · exact absurd hl (hsmall l rest)
    · exact hstop l (Or.inl hl)
    · exact hstop l (Or.inr hl)
    · rw [bodySafe_runOut hl] at hsafe
      cases hsafe

/-! ### The head -/

/-- a stop in the head: the scanner resumes where it is -/
theorem head_stop {q : Bytes} {a : Stream} (hs : a.state ≠ .content) {l : Bytes}
    (hl : nextLine a.rest = .waiting l ∨ nextLine a.rest = .malformed l) (ls : LineStatus) :
    after q (a.run ls) = (a.load q).run ls := by
  obtain ⟨hc, hrest, -⟩ := nextLine_stop_inv hl
  rw [run_stop (Or.inl hs) hl, run_status (a := a.load q) hs ls .lineOk]
  refine run_moved (a := a.load q) (l := l) (t := a.rest.drop l.length ++ q) (Or.inl hs) hc ?_
  rw [← List.append_assoc, ← hrest]
  rfl

/-- a line of the head that leaves the loop -/
theorem head_end {a : Stream} (hs : a.state ≠ .content) {l rest : Bytes} (hl : nextLine a.rest = .complete l rest)
    (hb : (a.passed l rest).body.1 ≠ .noRequest) (ls : LineStatus) (q : Bytes) : a.run ls = some (a.passed l rest).body ∧
      (a.load q).run ls = some ((a.passed l rest).body.1, (a.passed l rest).body.2.load q) := by
  have hload : ((a.passed l rest).load q).body = _ := body_load (a := a.passed l rest) hs q
  constructor
  · rw [run_complete (Or.inl hs) hl, proceed_end hb]
  · rw [run_complete (a := a.load q) (Or.inl hs) (nextLine_complete_append hl q)]
    show ((a.passed l rest).load q).proceed = _
    rw [proceed_end, hload]
    rw [hload]; exact hb

/-- a line of the head after which the loop goes on -/
theorem head_go {a : Stream} (hs : a.state ≠ .content) {l rest : Bytes} (hl : nextLine a.rest = .complete l rest)
    (hb : (a.passed l rest).body.1 = .noRequest) (ls : LineStatus) (q : Bytes) :
    a.run ls = (a.passed l rest).body.2.run .lineOk ∧
      (a.load q).run ls = ((a.passed l rest).body.2.load q).run .lineOk := by
  have hload : ((a.passed l rest).load q).body = _ := body_load (a := a.passed l rest) hs q
  have hstat : statusAfter a.state = .lineOk := if_neg hs
  constructor
  · rw [run_complete (Or.inl hs) hl, proceed_go hb]
    exact congrArg (fun x => run x _) hstat
  · rw [run_complete (a := a.load q) (Or.inl hs) (nextLine_complete_append hl q)]
    show ((a.passed l rest).load q).proceed = _
    rw [proceed_go, hload]
    · exact congrArg (fun x => run x _) hstat
    · rw [hload]; exact hb

theorem header_cut {q : Bytes} (k : ℕ) {a : Stream} (hk : a.rest.length = k) (hs : a.state = .header)
    (hscan : a.scanned = []) (hok : a.Ok) (hq : a.total + q.length ≤ requestSize)
    (hsafe : headSafe a.contentLength a.pos a.rest = true) (ls : LineStatus) :
    Option.Rel Agree (after q (a.run ls)) ((a.load q).run ls) := by
  induction k using Nat.strong_induction_on generalizing a ls with
  | _ k ih =>
  have hne : a.state ≠ .content := by rw [hs]; decide
  rcases nextLine_cases a.rest with ⟨l, rest, hl, hrest, -⟩ | ⟨l, hl, -⟩ | ⟨l, t, hl, -⟩ | ⟨hl, -⟩
  · by_cases hnil : cText l = []
    · by_cases hn : a.contentLength = 0
      · -- a request without a body is complete
        have hbody := body_emptyLine_end hs hscan hnil hn rest
        obtain ⟨h1, h2⟩ := head_end hne hl (by rw [hbody]; simp) ls q
        rw [h1, h2, hbody, after_end (by simp)]
        exact .some ⟨rfl, ⟨rfl, rfl, rfl, rfl⟩, fun h => by cases h⟩
      · have hbody := body_emptyLine_go hs hscan hnil hn rest
        obtain ⟨h1, h2⟩ := head_go hne hl (by rw [hbody]) ls q
        have hpos := pos_bodyStart a l rest
        rw [h1, h2, hbody]
        refine content_cut rfl rfl (hok.bodyStart l rest) ((total_bodyStart hl).symm ▸ hq) ?_
        rcases (headSafe_blank hl hnil).1 hsafe with h | h | h
        · exact absurd h hn
        · left
          unfold bodyDone total
          rw [hpos]; exact h
        · right
          rw [hpos]; exact h
    · have hpos : a.pos = a.start := by rw [pos, hscan]; rfl
      rw [headSafe_field hl hnil, hpos] at hsafe
      cases hf : faults a.start (cText l) with
      | true =>
        have hbody := body_header_faults hs hscan hnil hf rest
        obtain ⟨h1, h2⟩ := head_end hne hl (by rw [hbody]; simp) ls q
        rw [h1, h2, hbody, after_end (by simp)]
        exact .some ⟨rfl, ⟨rfl, rfl, rfl, rfl⟩, fun h => by cases h⟩
      | false =>
        have hbody := body_header_go hs hscan hnil hf rest
        obtain ⟨h1, h2⟩ := head_go hne hl (by rw [hbody]) ls q
        obtain ⟨g1, g2, g3, -⟩ := afterHeader_line a l rest
        rw [h1, h2, hbody]
        refine ih rest.length ?_ (congrArg List.length g2) (g3.trans hs) g1 (hok.afterHeader hscan l rest)
          ((total_afterHeader hl).symm ▸ hq) ?_ .lineOk
        · rw [← hk, hrest]
          simp only [List.length_append, List.length_cons]; omega
        · rw [hf, Bool.false_or] at hsafe
          rw [pos_afterHeader, contentLength_afterHeader, g2, hpos]
          exact hsafe
  · exact agree_of_eq (head_stop hne (Or.inl hl) ls)
  · exact agree_of_eq (head_stop hne (Or.inr hl) ls)
  · rw [headSafe_runOut hl] at hsafe
    cases hsafe

/-- **At a safe place resuming and not cutting agree.** -/
theorem run_cut {p q : Bytes} (hq : (p ++ q).length ≤ requestSize) (hsafe : cutSafe p = true) :
    Option.Rel Agree (after q ((fresh.load p).run .lineOk)) ((fresh.load (p ++ q)).run .lineOk) := by
  have hload : fresh.load (p ++ q) = (fresh.load p).load q := by simp [load, List.append_assoc]
  have hs : (fresh.load p).state = .requestLine := rfl
  have hne : (fresh.load p).state ≠ .content := by rw [hs]; decide
  have htotal : (fresh.load p).total = p.length := by rw [total_load]; exact Nat.zero_add _
  rw [List.length_append] at hq
  rw [hload]
  unfold cutSafe at hsafe
  have hrest : (fresh.load p).rest = p := rfl
  rcases nextLine_cases p with ⟨l, rest, hl, hp, -⟩ | ⟨l, hl, -⟩ | ⟨l, t, hl, -⟩ | ⟨hl, -⟩
  · have hbody := body_requestLine (a := (fresh.load p).passed l rest) hs
    rw [cText_passed rfl] at hbody
    rcases requestTarget_code (cText l) with hbad | hgood
    · obtain ⟨h1, h2⟩ := head_end hne (hrest.symm ▸ hl) (by rw [hbody, hbad]; simp) .lineOk q
      rw [h1, h2, after_end (by rw [hbody, hbad]; simp)]
      exact .some ⟨rfl, ⟨rfl, rfl, rfl, rfl⟩, fun h => by rw [hbody, hbad] at h; cases h⟩
    · obtain ⟨h1, h2⟩ := head_go hne (hrest.symm ▸ hl) (by rw [hbody]; exact hgood) .lineOk q
      rw [hl] at hsafe
      simp only [hgood, reduceCtorEq, decide_false, Bool.false_or] at hsafe
      rw [h1, h2]
      have hok : ((fresh.load p).passed l rest).Ok := by constructor <;> simp [passed, load, fresh]
      have hok' := hok.requestLine hs
      rw [hbody] at hok' ⊢
      refine header_cut _ rfl (if_pos hgood) rfl hok' ?_ ?_ .lineOk
      · have := total_passed (a := fresh.load p) (hrest.symm ▸ hl)
        rw [htotal] at this
        exact this.symm ▸ hq
      · have hpos : ((fresh.load p).passed l rest).pos = l.length + 2 := by
          rw [pos_passed]; exact congrArg (· + 2) (Nat.zero_add l.length)
        refine Eq.mp ?_ hsafe
        rw [← hpos]; rfl
  · exact agree_of_eq (head_stop hne (Or.inl (hrest.symm ▸ hl)) .lineOk)
  · exact agree_of_eq (head_stop hne (Or.inr (hrest.symm ▸ hl)) .lineOk)
  · rw [hl] at hsafe
    cases hsafe

/-! ## Other places -/

/-- how a call ends for its caller -/
inductive Ending where
  | never | waits | decided | undefined
deriving DecidableEq, Repr

def ending : Option HttpCode → Ending
  | none => .never
  | some .noRequest => .waits
  | some .undefined => .undefined
  | some _ => .decided

/-- how a run of the loop ends -/
def endsAs (x : Option (HttpCode × Stream)) : Ending := ending (x.map Prod.fst)

theorem endsAs_waits {x : Option (HttpCode × Stream)} : endsAs x = .waits ↔ ∃ b, x = some (.noRequest, b) := by
  rcases x with _ | ⟨c, b⟩
  · simp [endsAs, ending]
  · cases c <;> simp [endsAs, ending]

theorem after_of_not_waits {q : Bytes} {x : Option (HttpCode × Stream)} (h : endsAs x ≠ .waits) : after q x = x := by
  rcases x with _ | ⟨c, b⟩
  · rfl
  · refine after_end fun hc => h ?_
    rw [endsAs_waits]
    exact ⟨b, by rw [← hc]⟩

/-- resuming with the bytes `q` after `x` ends otherwise than `y`, where no memory in use is written over -/
structure Differs (q : Bytes) (x y : Option (HttpCode × Stream)) : Prop where
  ends : endsAs (after q x) ≠ endsAs y
  defined : endsAs y ≠ .undefined

/-- without a CR or LF ahead the scanner never stops -/
theorem run_clean {a : Stream} (h : Clean a.rest) (ls : LineStatus) : endsAs (a.run ls) ≠ .waits := by
  rw [Ne, endsAs_waits]
  rintro ⟨b, hb⟩
  refine Loop.iterate_inv (I := fun x : LineStatus × Stream => Clean x.2.rest) (Q := fun x => x.1 ≠ .noRequest) ?_
    (s := (ls, a)) h hb rfl
  rintro ⟨ls, a⟩ (h : Clean a.rest)
  have htest : (a.test ls).1 = .lineOk ∧ Clean (a.test ls).2.rest := by
    unfold test
    split_ifs with hc
    · exact ⟨hc.2, h⟩
    · rw [nextLine_runOut h]
      exact ⟨rfl, fun _ hb => by cases hb⟩
  rw [round_eq, if_pos htest.1]
  split_ifs with hno
  · show Clean (a.test ls).2.body.2.rest
    rw [(body_go hno).2.1]
    exact htest.2
  · exact hno

/-- a body state whose body is not complete, with the scanner at `p` or later -/
structure Open (n : ℤ) (t p : ℕ) (a : Stream) : Prop where
  state : a.state = .content
  ok : a.Ok
  length : a.contentLength = n
  total : a.total = t
  pos : p ≤ a.pos

theorem Open.notDone {n : ℤ} {t p : ℕ} {a : Stream} (h : Open n t p a) (ht : t ≤ requestSize) (hp : t < n + p)
    (hint : n + t < 2 ^ 31) : ¬ a.bodyDone := by
  have h1 := h.total
  have h2 := h.pos
  have h3 : a.pos ≤ a.total := Nat.le_add_right _ _
  rw [bodyDone_iff h.ok (by omega), h.length]
  omega

theorem Open.newLine {n : ℤ} {t p : ℕ} {a : Stream} (h : Open n t p a) : Open n t p a.newLine :=
  ⟨h.state, h.ok.newLine, h.length, h.total, h.pos⟩

theorem Open.test {n : ℤ} {t p : ℕ} {a : Stream} (h : Open n t p a) (ls : LineStatus) : Open n t p (a.test ls).2 := by
  obtain ⟨⟨s, r, heq⟩, htotal, hpos⟩ := test_moves ls a
  refine ⟨?_, ?_, ?_, htotal.trans h.total, h.pos.trans hpos⟩
  · rw [heq]; exact h.state
  · rw [heq]; exact ⟨h.ok.url_end, h.ok.host_end, h.ok.length_ge, h.ok.length_lt⟩
  · rw [heq]; exact h.length

/-- such a body state never completes the body -/
theorem Open.run {n : ℤ} {t p : ℕ} {a : Stream} (h : Open n t p a) (ht : t ≤ requestSize) (hp : t < n + p)
    (hint : n + t < 2 ^ 31) {ls : LineStatus} {x : HttpCode × Stream} (hx : a.run ls = some x) :
    x.1 = .noRequest ∧ Open n t p x.2 := by
  refine Loop.iterate_inv (I := fun x : LineStatus × Stream => Open n t p x.2)
    (Q := fun x => x.1 = .noRequest ∧ Open n t p x.2) ?_ (s := (ls, a)) h hx
  rintro ⟨ls, a⟩ (h : Open n t p a)
  have htest := h.test ls
  have hbody := body_content htest.state
  rw [if_neg (htest.notDone ht hp hint)] at hbody
  rw [round_eq, hbody, if_pos rfl]
  split_ifs
  · exact htest.newLine
  · exact ⟨rfl, htest⟩

theorem Open.not_decided {n : ℤ} {t p : ℕ} {a : Stream} (h : Open n t p a) (ht : t ≤ requestSize) (hp : t < n + p)
    (hint : n + t < 2 ^ 31) (ls : LineStatus) : endsAs (a.run ls) ≠ .decided := by
  cases hx : a.run ls with
  | none => decide
  | some x =>
    have := (h.run ht hp hint hx).1
    simp [endsAs, ending, this]

/-- the bytes of a body that is long enough, after an unsafe place: one more CR -/
theorem scan_differs {b : ℕ} (k : ℕ) {a : Stream} (hk : a.rest.length = k) (hs : a.state = .content) (hok : a.Ok)
    (hbig : requestSize < a.contentLength + b) (hb : b ≤ a.pos) (hint : a.contentLength + a.pos < 2 ^ 31)
    (hsafe : bodySafe a.contentLength b a.pos a.rest = false) (hq : a.total + 1 ≤ requestSize) :
    endsAs (after [cr] (a.run .lineOpen)) ≠ .waits ∧ endsAs ((a.load [cr]).run .lineOpen) = .waits := by
  induction k using Nat.strong_induction_on generalizing a with
  | _ k ih =>
  have hls : a.state ≠ .content ∨ LineStatus.lineOpen ≠ .lineOk := Or.inr (by decide)
  have hpt : a.pos ≤ a.total := Nat.le_add_right _ _
  have hwaits : ∀ l, (nextLine a.rest = .waiting l ∨ nextLine a.rest = .malformed l ∨ nextLine a.rest = .runOut l) →
      endsAs ((a.load [cr]).run .lineOpen) = .waits := by
    intro l hl
    rw [run_stop (a := a.load [cr]) hls (nextLine_append_cr hl)]
    rfl
  have hstop : ∀ l, (nextLine a.rest = .waiting l ∨ nextLine a.rest = .malformed l) →
      endsAs (after [cr] (a.run .lineOpen)) ≠ .waits := by
    intro l hl
    have hrest := (nextLine_stop_inv hl).2.1
    have hunsafe := (bodySafe_stop hl).not.1 (Bool.eq_false_iff.1 hsafe)
    rw [run_stop hls hl]
    set a' := (a.moved l (a.rest.drop l.length)).load [cr] with ha'
    have hs' : a'.state = .content := hs
    have hok' : a'.Ok := ⟨hok.url_end, hok.host_end, hok.length_ge, hok.length_lt⟩
    have htot : a'.total = a.total + 1 := by rw [ha', total_load, total_moved hrest]; rfl
    have hpos : a'.pos = a.pos + l.length := pos_moved a l _
    have hdone : a'.bodyDone := by
      rw [bodyDone_iff hok' (by omega), hpos, show a'.contentLength = a.contentLength from rfl]
      omega
    show endsAs (a'.run .lineOk) ≠ .waits
    rw [run_content hs', proceed_done hs' hdone]
    simp [endsAs, ending]
  rcases nextLine_cases a.rest with ⟨l, rest, hl, hrest, -⟩ | ⟨l, hl, -⟩ | ⟨l, t, hl, -⟩ | ⟨hl, hc⟩
  · rw [run_complete hls hl, run_complete (a := a.load [cr]) hls (nextLine_complete_append hl [cr])]
    set a' := a.passed l rest with ha'
    have hs' : a'.state = .content := hs
    have hok' : a'.Ok := ⟨hok.url_end, hok.host_end, hok.length_ge, hok.length_lt⟩
    have hoq : (a'.load [cr]).Ok := ⟨hok.url_end, hok.host_end, hok.length_ge, hok.length_lt⟩
    have htot : a'.total = a.total := total_passed hl
    have hpos : a'.pos = a.pos + l.length + 2 := pos_passed a l rest
    have hlen : a'.rest.length < k := by
      rw [← hk, hrest]; simp only [ha', passed, List.length_append, List.length_cons]; omega
    obtain ⟨hnd, hsafe'⟩ := not_or.1 ((bodySafe_complete hl).not.1 (Bool.eq_false_iff.1 hsafe))
    have hd : ¬ a'.bodyDone := by
      intro h
      unfold bodyDone at h
      rw [hpos, htot] at h
      exact hnd h
    have hlt := (bodyDone_iff hok' (by omega)).not.1 hd
    have hd' : ¬ (a'.load [cr]).bodyDone := by
      rw [bodyDone_iff hoq (by rw [total_load, htot]; exact hq), total_load, pos_load,
        show (a'.load [cr]).contentLength = a'.contentLength from rfl]
      have : a'.contentLength = a.contentLength := rfl
      simp only [List.length_singleton]
      omega
    show endsAs (after [cr] a'.proceed) ≠ .waits ∧ endsAs (a'.load [cr]).proceed = .waits
    rw [proceed_open hs' hd, proceed_open (show (a'.load [cr]).state = _ from hs) hd']
    refine ih _ hlen (a := a'.newLine) rfl hs hok'.newLine hbig (by rw [pos_newLine, hpos]; omega) ?_ ?_
      (by rw [total_newLine, htot]; exact hq)
    · rw [pos_newLine]
      exact not_le.1 fun h => hlt (Or.inr h)
    · rw [pos_newLine, hpos]
      exact Bool.eq_false_iff.2 hsafe'
  · exact ⟨hstop l (Or.inl hl), hwaits l (Or.inl hl)⟩
  · exact ⟨hstop l (Or.inr hl), hwaits l (Or.inr (Or.inl hl))⟩
  · have hclean := run_clean hc .lineOpen
    exact ⟨by rwa [after_of_not_waits hclean], hwaits _ (Or.inr (Or.inr hl))⟩

/-- in a body that can still be completed, the scanner has left the first byte or never stops -/
theorem scan_moved {a : Stream} (hs : a.state = .content) (hok : a.Ok) (ht : a.total ≤ requestSize)
    (hlt : a.total < a.contentLength + a.pos) (hsmall : a.contentLength + a.pos ≤ requestSize)
    (hsafe : bodySafe a.contentLength a.pos a.pos a.rest = false) :
    a.run .lineOpen = none ∨
      ∃ b, a.run .lineOpen = some (.noRequest, b) ∧ Open a.contentLength a.total (a.pos + 1) b := by
  have hls : a.state ≠ .content ∨ LineStatus.lineOpen ≠ .lineOk := Or.inr (by decide)
  have hint : a.contentLength + a.total < 2 ^ 31 := by rw [requestSize_eq] at *; omega
  have hok' : ∀ s r, Ok { a with scanned := s, rest := r } := fun s r =>
    ⟨hok.url_end, hok.host_end, hok.length_ge, hok.length_lt⟩
  have hstop : ∀ l, (nextLine a.rest = .waiting l ∨ nextLine a.rest = .malformed l) →
      ∃ b, a.run .lineOpen = some (.noRequest, b) ∧ Open a.contentLength a.total (a.pos + 1) b := by
    intro l hl
    have hunsafe := (bodySafe_stop hl).not.1 (Bool.eq_false_iff.1 hsafe)
    refine ⟨_, run_stop hls hl, hs, hok' _ _, rfl, total_moved (nextLine_stop_inv hl).2.1, ?_⟩
    rw [pos_moved]
    omega
  rcases nextLine_cases a.rest with ⟨l, rest, hl, -⟩ | ⟨l, hl, -⟩ | ⟨l, t, hl, -⟩ | ⟨hl, hc⟩
  · have hopen : Open a.contentLength a.total (a.pos + 1) (a.passed l rest) :=
      ⟨hs, hok' _ _, rfl, total_passed hl, by rw [pos_passed]; omega⟩
    have hrun : a.run .lineOpen = (a.passed l rest).newLine.run .lineOpen := by
      rw [run_complete hls hl, proceed_open hopen.state (hopen.notDone ht (by omega) hint)]
    cases hx : a.run .lineOpen with
    | none => exact Or.inl rfl
    | some x =>
      rw [hrun] at hx
      obtain ⟨h1, h2⟩ := hopen.newLine.run ht (by omega) hint hx
      exact Or.inr ⟨x.2, by rw [← h1], h2⟩
  · exact Or.inr (hstop l (Or.inl hl))
  · exact Or.inr (hstop l (Or.inr hl))
  · left
    have hopen : Open a.contentLength a.total a.pos a := ⟨hs, hok, rfl, rfl, le_rfl⟩
    have hclean := run_clean hc .lineOpen
    cases hx : a.run .lineOpen with
    | none => rfl
    | some x =>
      refine absurd ?_ hclean
      rw [hx, endsAs_waits]
      exact ⟨x.2, by rw [← (hopen.run ht hlt hint hx).1]⟩

theorem content_differs {a : Stream} (hs : a.state = .content) (hscan : a.scanned = []) (hok : a.Ok)
    (ht : a.total < requestSize) (hd : ¬ a.bodyDone)
    (hsafe : bodySafe a.contentLength a.pos a.pos a.rest = false) :
    ∃ q, q ≠ [] ∧ a.total + q.length ≤ requestSize ∧ Differs q (a.run .lineOk) ((a.load q).run .lineOk) := by
  have hlt := (bodyDone_iff hok ht.le).not.1 hd
  have hpt : a.pos ≤ a.total := Nat.le_add_right _ _
  have hok' : ∀ q, (a.load q).Ok := fun q => ⟨hok.url_end, hok.host_end, hok.length_ge, hok.length_lt⟩
  have hopen : a.run .lineOk = a.run .lineOpen := by rw [run_content hs, proceed_open hs hd, newLine_eq hscan]
  by_cases hbig : requestSize < a.contentLength + a.pos
  · refine ⟨[cr], by decide, ht, ?_⟩
    have hd' : ¬ (a.load [cr]).bodyDone := by
      rw [bodyDone_iff (hok' _) (by rw [total_load]; exact ht), total_load, pos_load,
        show (a.load [cr]).contentLength = a.contentLength from rfl]
      simp only [List.length_singleton]
      omega
    have hs' : (a.load [cr]).state = .content := hs
    obtain ⟨h1, h2⟩ := scan_differs _ rfl hs hok hbig le_rfl (by omega) hsafe ht
    rw [hopen, run_content hs', proceed_open hs' hd', newLine_eq (show (a.load [cr]).scanned = [] from hscan)]
    exact ⟨by rwa [h2], by rw [h2]; decide⟩
  · -- exactly the bytes that the body lacks
    obtain ⟨q, hlen⟩ : ∃ q : Bytes, q.length = (a.contentLength + a.pos - a.total).toNat :=
      ⟨List.replicate _ 0, List.length_replicate⟩
    refine ⟨q, fun h => ?_, by omega, ?_⟩
    · rw [h] at hlen
      simp only [List.length_nil] at hlen
      omega
    have hs' : (a.load q).state = .content := hs
    have hdone : (a.load q).bodyDone := by
      rw [bodyDone_iff (hok' _) (by rw [total_load, hlen]; omega), total_load, pos_load,
        show (a.load q).contentLength = a.contentLength from rfl]
      omega
    have hright : endsAs ((a.load q).run .lineOk) = .decided := by
      rw [run_content hs', proceed_done hs' hdone]
      rfl
    refine ⟨?_, by rw [hright]; decide⟩
    rw [hright, hopen]
    rcases scan_moved hs hok ht.le (by omega) (by omega) hsafe with h | ⟨b, hb, h⟩
    · rw [h]; simp [after, endsAs, ending]
    · rw [hb]
      have hload : Open a.contentLength (a.total + q.length) (a.pos + 1) (b.load q) :=
        ⟨h.state, ⟨h.ok.url_end, h.ok.host_end, h.ok.length_ge, h.ok.length_lt⟩, h.length,
          by rw [total_load, h.total], h.pos⟩
      exact hload.not_decided (by omega) (by omega) (by rw [requestSize_eq] at *; omega) .lineOk

/-- an unfinished line of the head: one more CR, and the scanner waits -/
theorem runOut_differs {a : Stream} (hs : a.state ≠ .content) {l : Bytes} (hl : nextLine a.rest = .runOut l)
    (ht : a.total < requestSize) (ls : LineStatus) :
    ∃ q, q ≠ [] ∧ a.total + q.length ≤ requestSize ∧ Differs q (a.run ls) ((a.load q).run ls) := by
  refine ⟨[cr], by decide, ht, ?_⟩
  have hclean := run_clean (nextLine_runOut_inv hl).2 ls
  rw [run_stop (a := a.load [cr]) (Or.inl hs) (nextLine_append_cr (Or.inr (Or.inr hl)))]
  exact ⟨by rwa [after_of_not_waits hclean], nofun⟩

theorem header_differs (k : ℕ) {a : Stream} (hk : a.rest.length = k) (hs : a.state = .header) (hscan : a.scanned = [])
    (hok : a.Ok) (ht : a.total < requestSize) (hsafe : headSafe a.contentLength a.pos a.rest = false)
    (ls : LineStatus) :
    ∃ q, q ≠ [] ∧ a.total + q.length ≤ requestSize ∧ Differs q (a.run ls) ((a.load q).run ls) := by
  induction k using Nat.strong_induction_on generalizing a ls with
  | _ k ih =>
  have hne : a.state ≠ .content := by rw [hs]; decide
  rcases nextLine_cases a.rest with ⟨l, rest, hl, hrest, -⟩ | ⟨l, hl, -⟩ | ⟨l, t, hl, -⟩ | ⟨hl, -⟩
  · by_cases hnil : cText l = []
    · obtain ⟨hn, hunsafe⟩ := not_or.1 ((headSafe_blank hl hnil).not.1 (Bool.eq_false_iff.1 hsafe))
      obtain ⟨hd, hb⟩ := not_or.1 hunsafe
      have hbody := body_emptyLine_go hs hscan hnil hn rest
      have hpos := pos_bodyStart a l rest
      have htot := total_bodyStart hl
      obtain ⟨q, hq, hlen, hdiff⟩ := content_differs (a := a.bodyStart l rest) rfl rfl (hok.bodyStart l rest)
        (htot.symm ▸ ht) (fun h => hd (by unfold bodyDone total at h; rw [hpos] at h; exact h))
        (by rw [hpos]; exact Bool.eq_false_iff.2 hb)
      obtain ⟨h1, h2⟩ := head_go hne hl (by rw [hbody]) ls q
      refine ⟨q, hq, htot ▸ hlen, ?_⟩
      rw [h1, h2, hbody]
      exact hdiff
    · have hpos : a.pos = a.start := by rw [pos, hscan]; rfl
      rw [headSafe_field hl hnil, hpos, Bool.or_eq_false_iff] at hsafe
      obtain ⟨hf, hsafe⟩ := hsafe
      have hbody := body_header_go hs hscan hnil hf rest
      have htot := total_afterHeader hl
      obtain ⟨g1, g2, g3, -⟩ := afterHeader_line a l rest
      have hlt : rest.length < k := by
        rw [← hk, hrest]
        simp only [List.length_append, List.length_cons]; omega
      obtain ⟨q, hq, hlen, hdiff⟩ := ih rest.length hlt (congrArg List.length g2) (g3.trans hs) g1
        (hok.afterHeader hscan l rest) (htot.symm ▸ ht)
        (by rw [pos_afterHeader, contentLength_afterHeader, g2, hpos]; exact hsafe) .lineOk
      obtain ⟨h1, h2⟩ := head_go hne hl (by rw [hbody]) ls q
      refine ⟨q, hq, htot ▸ hlen, ?_⟩
      rw [h1, h2, hbody]
      exact hdiff
  · rw [headSafe_stop (Or.inl hl)] at hsafe
    cases hsafe
  · rw [headSafe_stop (Or.inr hl)] at hsafe
    cases hsafe
  · exact runOut_differs hne hl ht ls

/-- **At any other place there are bytes after which resuming and not cutting differ.** -/
theorem run_cut_differs {p : Bytes} (hp : p.length < requestSize) (hsafe : cutSafe p = false) :
    ∃ q, q ≠ [] ∧ (p ++ q).length ≤ requestSize ∧
      Differs q ((fresh.load p).run .lineOk) ((fresh.load (p ++ q)).run .lineOk) := by
  have hload : ∀ q, fresh.load (p ++ q) = (fresh.load p).load q := fun q => by simp [load, List.append_assoc]
  have hs : (fresh.load p).state = .requestLine := rfl
  have hne : (fresh.load p).state ≠ .content := by rw [hs]; decide
  have htotal : (fresh.load p).total = p.length := by rw [total_load]; exact Nat.zero_add _
  have hrest : (fresh.load p).rest = p := rfl
  simp only [hload, List.length_append]
  unfold cutSafe at hsafe
  rcases nextLine_cases p with ⟨l, rest, hl, -⟩ | ⟨l, hl, -⟩ | ⟨l, t, hl, -⟩ | ⟨hl, -⟩ <;> rw [hl] at hsafe
  · simp only [Bool.or_eq_false_iff, decide_eq_false_iff_not] at hsafe
    have hgood := (requestTarget_code (cText l)).resolve_left hsafe.1
    have hbody := body_requestLine (a := (fresh.load p).passed l rest) hs
    rw [cText_passed rfl] at hbody
    have hok : ((fresh.load p).passed l rest).Ok := by constructor <;> simp [passed, load, fresh]
    have hok' := hok.requestLine hs
    have hpos : ((fresh.load p).passed l rest).pos = l.length + 2 := by
      rw [pos_passed]; exact congrArg (· + 2) (Nat.zero_add l.length)
    have htot := total_passed (a := fresh.load p) (hrest.symm ▸ hl)
    rw [hbody] at hok'
    obtain ⟨q, hq, hlen, hdiff⟩ := header_differs _ rfl (if_pos hgood) rfl hok'
      (show ((fresh.load p).passed l rest).total < _ by rw [htot, htotal]; exact hp)
      (show headSafe 0 ((fresh.load p).passed l rest).pos rest = false by rw [hpos]; exact hsafe.2) .lineOk
    obtain ⟨h1, h2⟩ := head_go hne (hrest.symm ▸ hl) (by rw [hbody]; exact hgood) .lineOk q
    refine ⟨q, hq, ?_, ?_⟩
    · rw [← htotal, ← htot]; exact hlen
    · rw [h1, h2, hbody]; exact hdiff
  · cases hsafe
  · cases hsafe
  · obtain ⟨q, hq, hlen, hdiff⟩ := runOut_differs hne (hrest.symm ▸ hl) (htotal.symm ▸ hp) .lineOk
    exact ⟨q, hq, htotal ▸ hlen, hdiff⟩

end Stream

end WebServer.HttpConn
