/-
The parser accepts nothing but complete requests, and before the empty line it opens no file.

`Head p headers body` says what a complete head is: a request line, non-empty header lines and the empty line, each ended
by CR LF, and `body` after it. `firm p` singles out the bytes on which the code tells the lines of the head correctly: if
they stop in the head, they stop right behind a CR (anything else the scanner takes for a complete line), no header line
begins with a zero byte (which `parseHeader` takes for the empty line), and the number of every Content-Length line is
stored (`lengthFirm`).

- `Reads p a`: the stream `a` is what the parser makes of the bytes `p`. `round_requestLine`, `round_header` and
  `round_body` keep it along the loop.
- `receive_sound`: `doRequest` is called only for a complete request; before the empty line has arrived no file is
  touched and nothing is answered, except a request line that is rejected.
- `receive_rejects_early`: that exception happens, right after the request line.
-/
import WebServer.HttpConn.Complete

namespace WebServer.HttpConn

open WebServer

/-! ## Heads of requests -/

/-- `p` is the request line, the header lines, the empty line and `body` -/
structure Head (p : Bytes) (headers : List Bytes) (body : Bytes) : Prop where
  bytes : ∃ line, Clean line ∧ p = line ++ crlf ++ (headers.map (· ++ crlf)).flatten ++ crlf ++ body
  header_line : ∀ h ∈ headers, h ≠ [] ∧ Clean h

/-- the number in the last Content-Length line, 0 if there is none -/
def declaredLength (headers : List Bytes) : ℤ :=
  (((headers.map cText).filterMap lengthField).getLast?.map denoted).getD 0

/-- `p` begins with a line that is no request line -/
def Rejected (p : Bytes) : Prop :=
  ∃ line rest, p = line ++ crlf ++ rest ∧ Clean line ∧ (requestTarget (cText line)).1 = .badRequest

/-- a Content-Length value has a number of characters for which the number is stored -/
def lengthFirm (t : Bytes) : Bool := (lengthField t).all fun v => v.length ∈ [0, 2, 3, 6, 8, 9]

/-- the header lines in `rest` end in their CR LF, or in a CR as far as they have arrived, none begins with a zero byte,
and every length is stored -/
def headFirm (rest : Bytes) : Bool :=
  match h : nextLine rest with
  | .complete l rest' => decide (l = []) || (decide (cText l ≠ []) && lengthFirm (cText l) && headFirm rest')
  | .waiting _ => true
  | .malformed _ => true
  | .runOut _ => false
termination_by rest.length
decreasing_by rw [(nextLine_complete_inv h).1]; simp; omega

/-- the same for all lines of the head, with a rejected request line as the end -/
def firm (p : Bytes) : Bool :=
  match nextLine p with
  | .complete l rest => decide ((requestTarget (cText l)).1 = .badRequest) || headFirm rest
  | .waiting _ => true
  | .malformed _ => true
  | .runOut _ => false

theorem headFirm_field {rest l rest' : Bytes} (h : nextLine rest = .complete l rest') (hl : l ≠ []) :
    headFirm rest = (decide (cText l ≠ []) && lengthFirm (cText l) && headFirm rest') := by
  rw [headFirm]
  split <;> simp_all

theorem headFirm_runOut {rest l : Bytes} (h : nextLine rest = .runOut l) : headFirm rest = false := by
  rw [headFirm]
  split <;> simp_all

theorem firm_runOut {p l : Bytes} (h : nextLine p = .runOut l) : firm p = false := by
  simp only [firm, h]

theorem firm_accepted {p l rest : Bytes} (h : nextLine p = .complete l rest)
    (hl : (requestTarget (cText l)).1 ≠ .badRequest) : firm p = headFirm rest := by
  simp only [firm, h, hl, decide_false, Bool.false_or]

theorem Head.append {p body : Bytes} {headers : List Bytes} (h : Head p headers body) (q : Bytes) :
    Head (p ++ q) headers (body ++ q) := by
  obtain ⟨line, hc, rfl⟩ := h.bytes
  exact ⟨⟨line, hc, by simp only [List.append_assoc]⟩, h.header_line⟩

theorem Rejected.append {p : Bytes} (h : Rejected p) (q : Bytes) : Rejected (p ++ q) := by
  obtain ⟨line, rest, rfl, hc, hr⟩ := h
  exact ⟨line, rest ++ q, by simp only [List.append_assoc], hc, hr⟩

/-- a line whose length is stored writes over nothing, and the number is the one that it says -/
theorem lengthFirm.stored {t : Bytes} (h : lengthFirm t = true) (off : ℕ) (n : ℤ) :
    faults off t = false ∧ lengthAfter n t = ((lengthField t).map denoted).getD n := by
  unfold faults lengthAfter
  rw [lengthValue_eq]
  unfold lengthFirm at h
  cases hv : lengthField t with
  | none => exact ⟨rfl, rfl⟩
  | some v =>
    simp only [hv, Option.all_some, decide_eq_true_eq] at h
    have hslot : endSlot v.length = .unused := by
      simp only [List.mem_cons, List.not_mem_nil, or_false] at h
      rcases h with h | h | h | h | h | h <;> rw [h] <;> rfl
    simp [hslot, (int32_strtol (endSlot_le (by rw [hslot]; decide))).1]

theorem declaredLength_append (headers : List Bytes) {l : Bytes} (h : lengthFirm (cText l) = true) :
    declaredLength (headers ++ [l]) = lengthAfter (declaredLength headers) (cText l) := by
  rw [(lengthFirm.stored h 0 _).2]
  unfold declaredLength
  rw [List.map_append, List.filterMap_append, List.map_singleton, List.filterMap_cons, List.filterMap_nil]
  cases lengthField (cText l) with
  | none => simp
  | some v => simp

theorem lengthFirm.short {t : Bytes} (h : lengthFirm t = true) {v : Bytes} (hv : lengthField t = some v) :
    v.length ≤ 9 := by
  simp only [lengthFirm, hv, Option.all_some, decide_eq_true_eq, List.mem_cons, List.not_mem_nil, or_false] at h
  omega

theorem abs_declaredLength_lt {headers : List Bytes} (h : ∀ l ∈ headers, lengthFirm (cText l) = true) :
    |declaredLength headers| < 10 ^ 9 := by
  unfold declaredLength
  cases hl : ((headers.map cText).filterMap lengthField).getLast? with
  | none => simp
  | some v =>
    obtain ⟨t, ht, hv⟩ := List.mem_filterMap.1 (List.mem_of_getLast? hl)
    obtain ⟨l, hmem, rfl⟩ := List.mem_map.1 ht
    exact (int32_strtol (lengthFirm.short (h l hmem) hv)).2

namespace Stream

/-! ## The bytes behind a state -/

/-- the header lines so far are `headers`, and the scanner is in the line after them -/
structure InHeader (p : Bytes) (headers : List Bytes) (a : Stream) : Prop where
  bytes : ∃ line, Clean line ∧ p = line ++ crlf ++ (headers.map (· ++ crlf)).flatten ++ (a.scanned ++ a.rest)
  header_line : ∀ h ∈ headers, h ≠ [] ∧ Clean h
  lengths : ∀ h ∈ headers, lengthFirm (cText h) = true
  scanned : Clean a.scanned
  length : a.contentLength = declaredLength headers
  firm_eq : ∀ q, firm (p ++ q) = headFirm (a.scanned ++ a.rest ++ q)

/-- the parser has come to `a` on the bytes `p` -/
structure Reads (p : Bytes) (a : Stream) : Prop where
  total : a.total = p.length
  requestLine : a.state = .requestLine → p = a.scanned ++ a.rest ∧ Clean a.scanned ∧ a.contentLength = 0
  header : a.state = .header → ∃ headers, InHeader p headers a
  content : a.state = .content → ∃ headers body, Head p headers body ∧ (∀ h ∈ headers, lengthFirm (cText h) = true) ∧
    a.contentLength = declaredLength headers ∧ p.length ≤ a.pos + body.length

/-- what an answer of the parser says about the bytes `p` -/
structure Verdict (p : Bytes) (x : HttpCode × Stream) : Prop where
  wait : x.1 = .noRequest → Reads p x.2
  bad : x.1 = .badRequest → Rejected p
  get : x.1 = .getRequest → ∃ headers body, Head p headers body ∧ x.2.contentLength = declaredLength headers ∧
    x.2.contentLength ≤ body.length
  defined : x.1 ≠ .undefined

theorem reads_fresh : Reads [] fresh :=
  ⟨rfl, fun _ => ⟨rfl, fun _ h => absurd h List.not_mem_nil, rfl⟩, nofun, nofun⟩

theorem Reads.load {p : Bytes} {a : Stream} (h : Reads p a) (q : Bytes) : Reads (p ++ q) (a.load q) := by
  refine ⟨by rw [total_load, h.total, List.length_append], fun hs => ?_, fun hs => ?_, fun hs => ?_⟩
  · obtain ⟨hp, hc, hn⟩ := h.requestLine hs
    exact ⟨by rw [hp, List.append_assoc]; rfl, hc, hn⟩
  · obtain ⟨headers, hin⟩ := h.header hs
    obtain ⟨line, hc, hp⟩ := hin.bytes
    refine ⟨headers, ⟨line, hc, ?_⟩, hin.header_line, hin.lengths, hin.scanned, hin.length, fun r => ?_⟩
    · rw [hp]
      simp only [Stream.load, List.append_assoc]
    · rw [List.append_assoc, hin.firm_eq]
      simp only [Stream.load, List.append_assoc]
  · obtain ⟨headers, body, hhead, hfirm, hn, hpos⟩ := h.content hs
    refine ⟨headers, body ++ q, hhead.append q, hfirm, hn, ?_⟩
    rw [pos_load, List.length_append, List.length_append]
    omega

/-! ## One round -/

theorem round_complete {ls : LineStatus} {a : Stream} {l rest : Bytes} (h : a.state ≠ .content)
    (hn : nextLine a.rest = .complete l rest) : round (ls, a) =
      if (a.passed l rest).body.1 = .noRequest then .inl (statusAfter a.state, (a.passed l rest).body.2)
      else .inr (a.passed l rest).body := by
  rw [round_eq, test_line (Or.inl h), hn]
  simp only [afterLine, if_true]
  rfl

theorem round_stop {ls : LineStatus} {a : Stream} {l : Bytes} (h : a.state ≠ .content)
    (hn : nextLine a.rest = .waiting l ∨ nextLine a.rest = .malformed l) :
    round (ls, a) = .inr (.noRequest, a.moved l (a.rest.drop l.length)) := by
  rw [round_eq, test_line (Or.inl h)]
  rcases hn with hn | hn <;> rw [hn] <;> simp [afterLine, moved]

theorem Reads.moved {p : Bytes} {a : Stream} (h : Reads p a) {l t : Bytes} (hl : Clean l) (hr : a.rest = l ++ t) :
    Reads p (a.moved l t) := by
  have hbytes : a.scanned ++ a.rest = (a.moved l t).scanned ++ (a.moved l t).rest := by
    rw [hr, ← List.append_assoc]
    rfl
  refine ⟨(total_moved hr).trans h.total, fun hs => ?_, fun hs => ?_, fun hs => ?_⟩
  · obtain ⟨hp, hc, hn⟩ := h.requestLine hs
    exact ⟨hp.trans hbytes, hc.append hl, hn⟩
  · obtain ⟨headers, hin⟩ := h.header hs
    obtain ⟨line, hc, hp⟩ := hin.bytes
    refine ⟨headers, ⟨line, hc, ?_⟩, hin.header_line, hin.lengths, hin.scanned.append hl, hin.length, fun q => ?_⟩
    · rw [hp, hbytes]
    · rw [hin.firm_eq, hbytes]
  · obtain ⟨headers, body, hhead, hfirm, hn, hpos⟩ := h.content hs
    refine ⟨headers, body, hhead, hfirm, hn, ?_⟩
    rw [pos_moved]
    omega

/-- the scanner stops in the head -/
theorem round_stop_reads {p : Bytes} {a : Stream} (h : Reads p a) (hne : a.state ≠ .content) {l : Bytes}
    (hl : nextLine a.rest = .waiting l ∨ nextLine a.rest = .malformed l) (ls : LineStatus) :
    Sum.elim (fun x => Reads p x.2) (Verdict p) (round (ls, a)) := by
  obtain ⟨hcl, hr, -⟩ := nextLine_stop_inv hl
  rw [round_stop hne hl]
  exact ⟨fun _ => h.moved hcl hr, nofun, nofun, nofun⟩

/-- the request line -/
theorem round_requestLine {p : Bytes} {a : Stream} (h : Reads p a) (hs : a.state = .requestLine) (hf : firm p = true)
    (ls : LineStatus) : Sum.elim (fun x => Reads p x.2) (Verdict p) (round (ls, a)) := by
  have hne : a.state ≠ .content := by rw [hs]; decide
  obtain ⟨hp, hc, hn⟩ := h.requestLine hs
  have hskip := nextLine_skip hc a.rest
  rcases nextLine_cases a.rest with ⟨l, rest, hl, hr, hcl⟩ | ⟨l, hl, -⟩ | ⟨l, t, hl, -⟩ | ⟨hl, -⟩
  · have hline : nextLine p = .complete (a.scanned ++ l) rest := by rw [hp, hskip, hl]; rfl
    have hbytes : p = a.scanned ++ l ++ crlf ++ rest := by
      rw [hp, hr]
      simp [crlf]
    rw [round_complete hne hl, body_requestLine (a := a.passed l rest) hs, cText_passed_line]
    rcases requestTarget_code (cText (a.scanned ++ l)) with hbad | hno
    · rw [if_neg (by rw [hbad]; decide)]
      refine ⟨fun hx => ?_, fun _ => ⟨_, _, hbytes, hc.append hcl, hbad⟩, fun hx => ?_, fun hx => ?_⟩ <;>
        (rw [hbad] at hx; cases hx)
    · rw [if_pos hno]
      have hfirm : ∀ q, firm (p ++ q) = headFirm (rest ++ q) := fun q =>
        firm_accepted (nextLine_complete_append hline q) (by rw [hno]; decide)
      refine ⟨(total_passed hl).trans h.total, fun hx => ?_,
        fun _ => ⟨[], ⟨_, hc.append hcl, ?_⟩, nofun, nofun, nofun, hn, hfirm⟩, fun hx => ?_⟩
      · simp only [hno, if_true] at hx; cases hx
      · simp only [List.map_nil, List.flatten_nil, List.append_nil]
        exact hbytes
      · simp only [hno, if_true] at hx; cases hx
  · exact round_stop_reads h hne (Or.inl hl) ls
  · exact round_stop_reads h hne (Or.inr hl) ls
  · rw [hl] at hskip
    rw [hp, firm_runOut hskip] at hf
    cases hf

/-- a header line or the empty line -/
theorem round_header {p : Bytes} {a : Stream} (h : Reads p a) (hs : a.state = .header) (hf : firm p = true)
    (ls : LineStatus) : Sum.elim (fun x => Reads p x.2) (Verdict p) (round (ls, a)) := by
  have hne : a.state ≠ .content := by rw [hs]; decide
  obtain ⟨headers, hin⟩ := h.header hs
  obtain ⟨line, hc, hp⟩ := hin.bytes
  have hfirm := hin.firm_eq []
  rw [List.append_nil, List.append_nil, hf] at hfirm
  have hskip := nextLine_skip hin.scanned a.rest
  rcases nextLine_cases a.rest with ⟨l, rest, hl, hr, hcl⟩ | ⟨l, hl, -⟩ | ⟨l, t, hl, -⟩ | ⟨hl, -⟩
  · rw [hl] at hskip
    have hbytes : a.scanned ++ a.rest = a.scanned ++ l ++ crlf ++ rest := by
      rw [hr]
      simp [crlf]
    have hbody := body_header (a := a.passed l rest) hs
    rw [cText_passed_line] at hbody
    rw [round_complete hne hl]
    by_cases hempty : a.scanned ++ l = []
    · have hhead : Head p headers rest := ⟨⟨line, hc, by rw [hp, hbytes, hempty]; simp⟩, hin.header_line⟩
      rw [hempty, if_pos (by rfl)] at hbody
      by_cases hz : (a.passed l rest).contentLength ≠ 0
      · rw [if_pos hz] at hbody
        rw [hbody, if_pos rfl]
        refine ⟨(total_passed hl).trans h.total, fun hx => (by cases hx), fun hx => (by cases hx), fun _ => ?_⟩
        refine ⟨headers, rest, hhead, hin.lengths, hin.length, ?_⟩
        rw [← h.total, ← total_passed hl]
        exact le_rfl
      · rw [if_neg hz] at hbody
        rw [hbody, if_neg (by simp)]
        refine ⟨nofun, nofun, fun _ => ⟨headers, rest, hhead, hin.length, ?_⟩, nofun⟩
        rw [show (a.passed l rest).newLine.contentLength = 0 from not_not.1 hz]
        exact Int.natCast_nonneg _
    · have hfield := headFirm_field hskip hempty
      rw [← hfirm, eq_comm, Bool.and_eq_true, Bool.and_eq_true, decide_eq_true_eq] at hfield
      obtain ⟨⟨htext, hlength⟩, hrest⟩ := hfield
      rw [if_neg htext, (lengthFirm.stored hlength _ 0).1, if_neg (by decide)] at hbody
      rw [hbody, if_pos rfl]
      obtain ⟨h1, h2, h3, h4, -⟩ :=
        field_pos (a.passed l rest).newLine (a.passed l rest).start (cText (a.scanned ++ l))
      have htotal := body_total (a.passed l rest)
      rw [hbody] at htotal
      refine ⟨htotal.trans ((total_passed hl).trans h.total), fun hx => ?_,
        fun _ => ⟨headers ++ [a.scanned ++ l], ⟨line, hc, ?_⟩, ?_, ?_, ?_, ?_, fun q => ?_⟩, fun hx => ?_⟩
      · rw [h4] at hx; exact absurd (hs.symm.trans hx) (by decide)
      · rw [h2, h3, hp, hbytes]
        simp [newLine, passed]
      · intro x hx
        rcases List.mem_append.1 hx with hx | hx
        · exact hin.header_line x hx
        · rw [List.mem_singleton.1 hx]
          exact ⟨hempty, hin.scanned.append hcl⟩
      · intro x hx
        rcases List.mem_append.1 hx with hx | hx
        · exact hin.lengths x hx
        · rw [List.mem_singleton.1 hx]
          exact hlength
      · rw [h2]; exact fun x hx => absurd hx List.not_mem_nil
      · rw [field_contentLength, declaredLength_append headers hlength, ← hin.length]
        rfl
      · rw [h2, h3, hin.firm_eq, headFirm_field (nextLine_complete_append hskip q) hempty, decide_eq_true htext, hlength]
        rfl
      · rw [h4] at hx; exact absurd (hs.symm.trans hx) (by decide)
  · exact round_stop_reads h hne (Or.inl hl) ls
  · exact round_stop_reads h hne (Or.inr hl) ls
  · rw [hl] at hskip
    rw [headFirm_runOut hskip] at hfirm
    cases hfirm

/-- the body -/
theorem round_body {p : Bytes} {a : Stream} (h : Reads p a) (hs : a.state = .content) (hp : p.length ≤ readBufferSize)
    (ls : LineStatus) : Sum.elim (fun x => Reads p x.2) (Verdict p) (round (ls, a)) := by
  obtain ⟨headers, body, hhead, hfirm, hn, hpos⟩ := h.content hs
  obtain ⟨⟨s, r, hmv⟩, htot, hle⟩ := test_moves ls a
  have hs' : (a.test ls).2.state = .content := by rw [hmv]; exact hs
  have hn' : (a.test ls).2.contentLength = declaredLength headers := by rw [hmv]; exact hn
  have hreads : ∀ b : Stream, b.state = .content → b.contentLength = declaredLength headers → b.total = a.total →
      a.pos ≤ b.pos → Reads p b := by
    intro b hb hbn hbt hbp
    refine ⟨hbt.trans h.total, fun hx => ?_, fun hx => ?_, fun _ => ⟨headers, body, hhead, hfirm, hbn, by omega⟩⟩ <;>
      exact absurd (hb.symm.trans hx) (by decide)
  rw [round_eq, body_content hs']
  generalize (a.test ls).2 = b at *
  by_cases hdone : b.bodyDone
  · simp only [if_pos hdone, reduceCtorEq, if_false]
    split_ifs
    · refine ⟨nofun, nofun, fun _ => ⟨headers, body, hhead, hn', ?_⟩, nofun⟩
      have hd : (b.total : ℤ) ≥ int32 (b.contentLength + b.pos) := hdone
      have hbpos : b.pos ≤ b.total := Nat.le_add_right _ _
      have htotal := h.total
      have hsize : readBufferSize = 2048 := rfl
      obtain ⟨hlo, hhi⟩ := abs_lt.1 (abs_declaredLength_lt hfirm)
      rw [← hn'] at hlo hhi
      change b.contentLength ≤ (body.length : ℤ)
      rw [ge_iff_le, int32_le_iff (by omega) (by omega) (by omega)] at hd
      omega
    · exact ⟨fun _ => hreads b hs' hn' htot hle, nofun, nofun, nofun⟩
  · simp only [if_neg hdone, if_true]
    split_ifs
    · exact hreads b.newLine hs' hn' htot hle
    · exact ⟨fun _ => hreads b hs' hn' htot hle, nofun, nofun, nofun⟩

/-- **One call of the parser.** -/
theorem Reads.run {p : Bytes} {a : Stream} (h : Reads p a) (hf : firm p = true) (hp : p.length ≤ readBufferSize)
    {ls : LineStatus} {x : HttpCode × Stream} (hx : a.run ls = some x) : Verdict p x := by
  refine Loop.iterate_inv (I := fun y : LineStatus × Stream => Reads p y.2) ?_ (s := (ls, a)) h hx
  rintro ⟨ls, b⟩ (hb : Reads p b)
  cases hs : b.state with
  | requestLine => exact round_requestLine hb hs hf ls
  | header => exact round_header hb hs hf ls
  | content => exact round_body hb hs hp ls

/-- **Calls one after the other.** The answer speaks about the bytes received up to its call. -/
theorem Reads.deliver {cs : List Bytes} {p : Bytes} {a : Stream} (h : Reads p a)
    (hf : ∀ ds, ds <+: cs → ds ≠ [] → firm (p ++ ds.flatten) = true) (hlen : (p ++ cs.flatten).length ≤ readBufferSize)
    {x : HttpCode × Stream} (hx : Stream.deliver cs a = some x) : ∃ ds, ds <+: cs ∧ Verdict (p ++ ds.flatten) x := by
  induction cs generalizing p a with
  | nil =>
    obtain rfl : (.noRequest, a) = x := Option.some.inj hx
    refine ⟨[], List.prefix_refl _, fun _ => ?_, nofun, nofun, nofun⟩
    rw [List.flatten_nil, List.append_nil]
    exact h
  | cons q qs ih =>
    have hq : [q].flatten = q := by simp
    rw [List.flatten_cons, ← List.append_assoc] at hlen
    have hshort : (p ++ q).length ≤ readBufferSize := by
      rw [List.length_append] at hlen
      omega
    rw [deliver_cons] at hx
    cases hr : (a.load q).run .lineOk with
    | none => rw [hr] at hx; cases hx
    | some y =>
      obtain ⟨code, b⟩ := y
      rw [hr] at hx
      have hv : Verdict (p ++ q) (code, b) :=
        (h.load q).run (hq ▸ hf [q] (List.prefix_append [q] qs) (by simp)) hshort hr
      by_cases hc : code = .noRequest
      · rw [resume, if_pos hc] at hx
        have hf' : ∀ ds, ds <+: qs → ds ≠ [] → firm (p ++ q ++ ds.flatten) = true := by
          intro ds hds _
          have := hf (q :: ds) (List.prefix_cons_inj q |>.2 hds) (by simp)
          rwa [List.flatten_cons, ← List.append_assoc] at this
        obtain ⟨ds, hds, hvd⟩ := ih (hv.wait hc) hf' hlen hx
        refine ⟨q :: ds, List.prefix_cons_inj q |>.2 hds, ?_⟩
        rwa [List.flatten_cons, ← List.append_assoc]
      · rw [resume, if_neg hc] at hx
        cases hx
        exact ⟨[q], List.prefix_append [q] qs, hq.symm ▸ hv⟩

end Stream

/-! ## The code -/

/-- **Soundness of the parser.** On a freshly initialised connection, for chunks that stop in the head only right behind
a CR, and have no header line that begins with a zero byte and no Content-Length value whose number is not stored:
`doRequest` (the only caller of the file system) is called only if the bytes received begin with a complete request. As
long as the empty line has not arrived, no file is touched, and nothing is answered but the 400 response to a complete
request line that is rejected. -/
theorem receive_sound {fs : FileSystem} {cs : List Bytes} {c : Conn} {e : Env} {x : HttpCode × Conn × Env}
    (hne : ∀ q ∈ cs, q ≠ []) (hlen : cs.flatten.length ≤ readBufferSize)
    (hf : ∀ ds, ds <+: cs → ds ≠ [] → firm ds.flatten = true) (hx : receive fs cs c.init e = some x) :
    (x.2.2.calls ≠ e.calls → ∃ headers body, Head cs.flatten headers body ∧ declaredLength headers ≤ body.length ∧
      x.2.1.contentLength = declaredLength headers) ∧
    ((¬ ∃ headers body, Head cs.flatten headers body) → x.2.2.calls = e.calls ∧
      ((x.1 = .noRequest ∧ x.2.1.writeIndex = 0) ∨ (x.1 = .badRequest ∧ Rejected cs.flatten))) := by
  have hrel := receive_fresh fs c e hne hlen
  rw [hx] at hrel
  cases hy : Stream.deliver cs Stream.fresh with
  | none => rw [hy] at hrel; cases hrel
  | some y =>
    rw [hy] at hrel
    have hseen : Seen fs c.init e x y := by cases hrel; assumption
    obtain ⟨ds, ⟨es, rfl⟩, hv⟩ := Stream.reads_fresh.deliver (by simpa using hf) (by simpa using hlen) hy
    rw [List.nil_append] at hv
    have hcl : x.2.1.contentLength = y.2.contentLength := congrArg Parsed.contentLength hseen.parsed
    have hget : y.1 = .getRequest → ∃ headers body, Head (ds ++ es).flatten headers body ∧
        declaredLength headers ≤ body.length ∧ x.2.1.contentLength = declaredLength headers := by
      intro hg
      obtain ⟨headers, body, hhead, hn, hle⟩ := hv.get hg
      rw [hcl, List.flatten_append]
      refine ⟨headers, body ++ es.flatten, hhead.append _, ?_, hn⟩
      rw [← hn, List.length_append]
      push_cast
      omega
    refine ⟨fun hcalls => hget (not_imp_comm.1 (fun hg => (hseen.quiet hg).2) hcalls), fun hno => ?_⟩
    have hng : y.1 ≠ .getRequest := by
      intro hg
      obtain ⟨headers, body, hhead, -⟩ := hget hg
      exact hno ⟨headers, body, hhead⟩
    obtain ⟨hcode, hcalls⟩ := hseen.quiet hng
    refine ⟨hcalls, ?_⟩
    rcases Stream.deliver_code hy with h | h | h | h
    · exact Or.inl ⟨hcode.trans h, hseen.silent h⟩
    · exact Or.inr ⟨hcode.trans h, List.flatten_append ▸ (hv.bad h).append _⟩
    · exact absurd h hng
    · exact absurd h hv.defined

/-- a request whose last LF comes alone -/
def lateChunks : List Bytes := [ascii "GET / HTTP/1.1\r\nHost: a\r\n\r", ascii "\n"]

theorem lateChunks_isSome : (receive (plainFiles 10) lateChunks Conn.blank.init Env.blank).isSome = true := by
  decide +kernel

theorem receive_sound_lateChunks : ∃ headers body, Head lateChunks.flatten headers body := by
  have hf : ∀ ds, ds <+: lateChunks → ds ≠ [] → firm ds.flatten = true := by
    intro ds hds
    rw [← List.mem_inits] at hds
    revert ds
    decide +kernel
  obtain ⟨headers, body, h, -⟩ := (receive_sound (by decide) (by decide) hf (Option.some_get lateChunks_isSome).symm).1
    (by decide +kernel)
  exact ⟨headers, body, h⟩

theorem Head.nextLine {p body : Bytes} {headers : List Bytes} (h : Head p headers body) :
    ∃ line, nextLine p = .complete line ((headers.map (· ++ crlf)).flatten ++ crlf ++ body) := by
  obtain ⟨line, hc, rfl⟩ := h.bytes
  refine ⟨line, ?_⟩
  rw [← nextLine_complete hc]
  simp [crlf]

/-- a line that is no request line is answered before the empty line has arrived -/
theorem receive_rejects_early :
    (¬ ∃ headers body, Head (ascii "FOO / HTTP/1.1\r\n") headers body) ∧
    ∃ x, receive (plainFiles 10) [ascii "FOO / HTTP/1.1\r\n"] Conn.blank.init Env.blank = some x ∧
      x.1 = .badRequest ∧ 0 < x.2.1.writeIndex := by
  have hsome : (receive (plainFiles 10) [ascii "FOO / HTTP/1.1\r\n"] Conn.blank.init Env.blank).isSome = true := by
    decide +kernel
  refine ⟨?_, _, (Option.some_get hsome).symm, ?_⟩
  · rintro ⟨headers, body, h⟩
    obtain ⟨line, hl⟩ := h.nextLine
    rw [show nextLine (ascii "FOO / HTTP/1.1\r\n") = .complete (ascii "FOO / HTTP/1.1") [] by decide] at hl
    simp [crlf] at hl
  · decide +kernel +revert

/-- a request line alone, without the empty line: the scanner finds no further byte and calls it a line -/
example : firm (ascii "GET / HTTP/1.1\r\n") = false ∧
    (receive (plainFiles 10) [ascii "GET / HTTP/1.1\r\n"] Conn.blank.init Env.blank).any
      (fun x => x.1 = .fileRequest) = true := by
  decide +kernel

/-- a header line that begins with a zero byte ends the head -/
example : firm (ascii "GET / HTTP/1.1\r\n" ++ 0 :: ascii "\r\n") = false ∧
    (receive (plainFiles 10) [ascii "GET / HTTP/1.1\r\n" ++ 0 :: ascii "\r\n"] Conn.blank.init Env.blank).any
      (fun x => x.1 = .fileRequest) = true := by
  decide +kernel

end WebServer.HttpConn
