/-
How the bytes received end the loop of `processRead`, read off line by line.

An unfinished header line is taken for a complete one, and the end of the bytes for the empty line (`runOut`). So the
head of a request ends in one of four ways (`HeadEnd`): the scanner waits or finds a malformed line end, the request line
is rejected, a header line writes over memory in use (`faults`), or the body begins, with the length announced so far.

- `headEnd`, `requestEnd`: the end of header lines, and of a request line with the header lines behind it;
  `ReadSide.headEnd`: the same for the bytes a connection has received, from the current line on.
- `HeadEnd.Yields`: what the loop makes of each end; `Steady.yields`: that it does.
- `Steady.loopEnds_iff`: the loop ends, with no memory in use written over, if and only if the bytes neither spin nor
  have such a line.
- `Steady.loop_bodyLength`: a request that the loop completes ends with the announced length, and `Steady.contained`: if
  that is not negative, the zero after the body is stored inside `readBuffer`.
-/
import WebServer.HttpConn.Effects
import WebServer.HttpConn.Reading
import WebServer.HttpConn.Spins

namespace WebServer.HttpConn

open WebServer

/-! ## The end of the head -/

inductive HeadEnd
  /-- the scanner stops -/
  | stops
  /-- the request line is bad -/
  | rejected
  /-- a header line writes over memory in use -/
  | faults
  /-- a body of length `n` begins, of which `rest` is there -/
  | body (n : ℤ) (rest : Bytes)
deriving DecidableEq

/-- header lines at the end of `total` bytes; `n` is `contentLength` so far -/
def headEnd (n : ℤ) (total : ℕ) (rest : Bytes) : HeadEnd :=
  match h : nextLine rest with
  | .complete l rest' =>
    if cText l = [] then .body n rest'
    else if faults (total - rest.length) (cText l) then .faults
    else headEnd (lengthAfter n (cText l)) total rest'
  | .waiting _ => .stops
  | .malformed _ => .stops
  | .runOut l =>
    if cText l = [] then .body n []
    else if faults (total - rest.length) (cText l) then .faults
    else .body (lengthAfter n (cText l)) []
termination_by rest.length
decreasing_by rw [(nextLine_complete_inv h).1]; simp; omega

/-- a request line at the end of `total` bytes, and the header lines behind it -/
def requestEnd (n : ℤ) (total : ℕ) (rest : Bytes) : HeadEnd :=
  match nextLine rest with
  | .complete l rest' => if (requestTarget (cText l)).1 = .noRequest then headEnd n total rest' else .rejected
  | .waiting _ => .stops
  | .malformed _ => .stops
  | .runOut l => if (requestTarget (cText l)).1 = .noRequest then headEnd n total [] else .rejected

namespace ReadSide

/-- the end of the head of the request, for the bytes received from the current line on -/
def headEnd (r : ReadSide) : HeadEnd :=
  match r.checkState with
  | .requestLine => requestEnd r.contentLength r.readIndex (r.readBuffer.slice r.startLine r.readIndex)
  | .header => HttpConn.headEnd r.contentLength r.readIndex (r.readBuffer.slice r.startLine r.readIndex)
  | .content => .body r.contentLength r.unread

/-- the bytes received are such that the loop of `processRead` spins -/
def spins (r : ReadSide) : Bool :=
  match r.headEnd with
  | .body n rest => bodySpins n rest
  | _ => false

/-- the bytes received have a header line that makes the parser write over memory in use -/
def faulty (r : ReadSide) : Bool := r.headEnd = .faults

/-- the length of the body that the bytes received announce -/
def bodyLength (r : ReadSide) : ℤ :=
  match r.headEnd with
  | .body n _ => n
  | _ => 0

end ReadSide

theorem headEnd_complete {n : ℤ} {total : ℕ} {rest l rest' : Bytes} (h : nextLine rest = .complete l rest') :
    headEnd n total rest = if cText l = [] then .body n rest'
      else if faults (total - rest.length) (cText l) then .faults
      else headEnd (lengthAfter n (cText l)) total rest' := by
  rw [headEnd]
  split <;> simp_all

theorem headEnd_stop {n : ℤ} {total : ℕ} {rest l : Bytes}
    (h : nextLine rest = .waiting l ∨ nextLine rest = .malformed l) : headEnd n total rest = .stops := by
  rw [headEnd]
  split <;> simp_all

theorem headEnd_runOut {n : ℤ} {total : ℕ} {rest l : Bytes} (h : nextLine rest = .runOut l) :
    headEnd n total rest = if cText l = [] then .body n []
      else if faults (total - rest.length) (cText l) then .faults
      else .body (lengthAfter n (cText l)) [] := by
  rw [headEnd]
  split <;> simp_all

theorem headEnd_nil (n : ℤ) (total : ℕ) : headEnd n total [] = .body n [] := by
  rw [headEnd_runOut (nextLine_runOut fun _ hb => absurd hb List.not_mem_nil)]
  exact if_pos rfl

/-! ## The stream's loop -/

/-- what the loop makes of a request whose head ends in this way -/
def HeadEnd.Yields (x : Option (HttpCode × Stream)) : HeadEnd → Prop
  | .stops => ∃ a, x = some (.noRequest, a)
  | .rejected => ∃ a, x = some (.badRequest, a)
  | .faults => ∃ a, x = some (.undefined, a)
  | .body n rest => (x = none ↔ bodySpins n rest = true) ∧
      ∀ y, x = some y → (y.1 = .noRequest ∨ y.1 = .getRequest) ∧ y.2.contentLength = n

namespace Stream

theorem content_yields {a : Stream} (hs : a.state = .content) (hfit : a.Fits) :
    (HeadEnd.body a.contentLength a.rest).Yields (a.run .lineOk) :=
  ⟨content_none_iff hs hfit, fun _ hy => content_some hs hy⟩

/-- the handler of an empty line: the body state, or a complete request -/
theorem emptyLine_some {a : Stream} (hs : a.state = .header) (htext : cText a.scanned = []) {x : HttpCode × Stream}
    (h : a.proceed = some x) : (x.1 = .noRequest ∨ x.1 = .getRequest) ∧ x.2.contentLength = a.contentLength := by
  have hbody := body_header hs
  rw [if_pos htext] at hbody
  split_ifs at hbody with hn
  · rw [proceed_go (by rw [hbody]), hbody] at h
    exact content_some (a := { a.newLine with state := .content }) rfl h
  · rw [proceed_end (by rw [hbody]; nofun), hbody] at h
    cases h
    exact ⟨Or.inr rfl, rfl⟩

theorem emptyLine_yields {a : Stream} (hs : a.state = .header) (htext : cText a.scanned = []) (hfit : a.Fits) :
    (HeadEnd.body a.contentLength a.rest).Yields a.proceed := by
  refine ⟨?_, fun _ hy => emptyLine_some hs htext hy⟩
  have hbody := body_header hs
  rw [if_pos htext] at hbody
  split_ifs at hbody with hn
  · rw [proceed_go (by rw [hbody]), hbody, hs]
    exact content_none_iff (a := { a.newLine with state := .content }) rfl
      ⟨hfit.length_ge, hfit.length_lt, hfit.total_le⟩
  · rw [proceed_end (by rw [hbody]; nofun), not_not.1 hn]
    simp only [reduceCtorEq, bodySpins, decide_eq_true_eq, false_iff, not_and]
    intro hlt
    omega

/-- the handler of a header line -/
theorem field_yields {a : Stream} (hs : a.state = .header) (htext : cText a.scanned ≠ []) {e : HeadEnd}
    (h : e.Yields ((a.newLine.field a.start (cText a.scanned)).run .lineOk)) :
    (if faults a.start (cText a.scanned) then .faults else e : HeadEnd).Yields a.proceed := by
  have hbody := body_header hs
  rw [if_neg htext] at hbody
  by_cases hf : faults a.start (cText a.scanned) = true
  · rw [if_pos hf] at hbody
    rw [if_pos hf, proceed_end (by rw [hbody]; nofun), hbody]
    exact ⟨_, rfl⟩
  · rw [if_neg hf] at hbody
    rw [if_neg hf, proceed_go (by rw [hbody]), hbody, hs]
    exact h

theorem Fits.field {a : Stream} (hfit : a.Fits) (off : ℕ) (t : Bytes) : (a.newLine.field off t).Fits := by
  obtain ⟨h1, h2, h3, -⟩ := field_pos a.newLine off t
  obtain ⟨h4, h5⟩ := lengthAfter_fits hfit.length_ge hfit.length_lt t
  refine ⟨?_, ?_, ?_⟩
  · rw [field_contentLength]
    exact h4
  · rw [field_contentLength]
    exact h5
  · rw [total, pos, h1, h2, h3]
    exact hfit.total_le

theorem total_field (a : Stream) (off : ℕ) (t : Bytes) : (a.newLine.field off t).total = a.total := by
  obtain ⟨h1, h2, h3, -⟩ := field_pos a.newLine off t
  rw [total, pos, h1, h2, h3]
  rfl

/-- **The header state**, at the start of a line. -/
theorem header_yields (k : ℕ) {a : Stream} (hk : a.rest.length = k) (hs : a.state = .header) (hscan : a.scanned = [])
    (hfit : a.Fits) : (headEnd a.contentLength a.total a.rest).Yields (a.run .lineOk) := by
  induction k using Nat.strong_induction_on generalizing a with
  | _ k ih =>
  have hls : a.state ≠ .content ∨ LineStatus.lineOk ≠ .lineOk := Or.inl (by rw [hs]; decide)
  have hstart : a.total - a.rest.length = a.start := by
    simp only [total, pos, hscan, List.length_nil]
    omega
  -- the line that the scanner hands over, complete or not, and the bytes behind it
  have hline : ∀ b : Stream, b.state = .header → b.start = a.start → b.total = a.total →
      b.contentLength = a.contentLength → b.Fits → (cText b.scanned ≠ [] → b.rest.length < k) →
      (if cText b.scanned = [] then .body a.contentLength b.rest
        else if faults (a.total - a.rest.length) (cText b.scanned) then .faults
        else headEnd (lengthAfter a.contentLength (cText b.scanned)) a.total b.rest : HeadEnd).Yields b.proceed := by
    intro b hb hstart' htotal hlength hfit' hlt
    rw [hstart, ← hstart', ← hlength, ← htotal]
    by_cases hempty : cText b.scanned = []
    · rw [if_pos hempty]
      exact emptyLine_yields hb hempty hfit'
    · obtain ⟨-, h2, h3, h4, -⟩ := field_pos b.newLine b.start (cText b.scanned)
      have hnext := ih b.rest.length (hlt hempty) (a := b.newLine.field b.start (cText b.scanned))
        (congrArg List.length h3) (h4.trans hb) h2 (hfit'.field _ _)
      rw [h3, total_field, field_contentLength] at hnext
      rw [if_neg hempty]
      exact field_yields hb hempty hnext
  rcases nextLine_cases a.rest with ⟨l, rest, hl, hrest, -⟩ | ⟨l, hl, -⟩ | ⟨l, t, hl, -⟩ | ⟨hl, -⟩
  · have hgo := hline (a.passed l rest) hs rfl (total_passed hl) rfl (hfit.passed hl) fun _ => by
      rw [← hk, hrest]
      simp [passed]
      omega
    rw [cText_passed hscan] at hgo
    rw [run_complete hls hl, headEnd_complete hl]
    exact hgo
  · rw [run_stop hls (Or.inl hl), headEnd_stop (Or.inl hl)]
    exact ⟨_, rfl⟩
  · rw [run_stop hls (Or.inr hl), headEnd_stop (Or.inr hl)]
    exact ⟨_, rfl⟩
  · -- the unfinished line counts as a line, and the end of the bytes as the empty line
    have htext : (a.moved a.rest []).scanned = a.rest := by rw [moved, hscan, List.nil_append]
    have hgo := hline (a.moved a.rest []) hs rfl (total_moved (List.append_nil _).symm) rfl hfit.runOut fun hne => by
      rw [← hk]
      apply List.length_pos_of_ne_nil
      rintro h0
      rw [htext, h0] at hne
      exact hne rfl
    rw [htext, show (a.moved a.rest []).rest = [] from rfl, headEnd_nil] at hgo
    rw [run_runOut hls hl, headEnd_runOut hl]
    exact hgo

/-- the handler of the request line -/
theorem target_yields {a : Stream} (hs : a.state = .requestLine) (hfit : a.Fits) :
    (if (requestTarget (cText a.scanned)).1 = .noRequest then headEnd a.contentLength a.total a.rest
      else .rejected : HeadEnd).Yields a.proceed := by
  have hbody := body_requestLine hs
  rcases requestTarget_code (cText a.scanned) with hc | hc
  · rw [proceed_end (by rw [hbody, hc]; nofun), hbody, hc]
    exact ⟨_, rfl⟩
  · rw [proceed_go (by rw [hbody]; exact hc), hbody, hs]
    simp only [if_pos hc]
    have hgo := header_yields _ (a := { a.newLine with
      url := (requestTarget (cText a.scanned)).2.map fun p => (a.start + p.1, p.2)
      state := .header }) rfl rfl rfl ⟨hfit.length_ge, hfit.length_lt, hfit.total_le⟩
    exact hgo

/-- **The request line state**, at the start of the line. -/
theorem requestLine_yields {a : Stream} (hs : a.state = .requestLine) (hscan : a.scanned = []) (hfit : a.Fits) :
    (requestEnd a.contentLength a.total a.rest).Yields (a.run .lineOk) := by
  have hls : a.state ≠ .content ∨ LineStatus.lineOk ≠ .lineOk := Or.inl (by rw [hs]; decide)
  unfold requestEnd
  rcases nextLine_cases a.rest with ⟨l, rest, hl, -⟩ | ⟨l, hl, -⟩ | ⟨l, t, hl, -⟩ | ⟨hl, -⟩
  · have hgo := target_yields (a := a.passed l rest) hs (hfit.passed hl)
    rw [cText_passed hscan, total_passed hl] at hgo
    rw [run_complete hls hl, hl]
    exact hgo
  · rw [run_stop hls (Or.inl hl), hl]
    exact ⟨_, rfl⟩
  · rw [run_stop hls (Or.inr hl), hl]
    exact ⟨_, rfl⟩
  · have hgo := target_yields (a := a.moved a.rest []) hs hfit.runOut
    rw [show (a.moved a.rest []).scanned = a.rest by rw [moved, hscan, List.nil_append],
      total_moved (List.append_nil _).symm] at hgo
    rw [run_runOut hls hl, hl]
    exact hgo

/-- the stream with the scanner moved back to the start of the line -/
def rewound (a : Stream) : Stream := { a with scanned := [], rest := a.scanned ++ a.rest }

theorem run_rewound {a : Stream} (hs : a.state ≠ .content) (hc : Clean a.scanned) (ls : LineStatus) :
    a.rewound.run ls = a.run ls := by
  have hmoved : a.rewound.moved a.scanned a.rest = a := by
    cases a
    simp [rewound, moved]
  rw [← run_moved (a := a.rewound) (Or.inl hs) hc rfl, hmoved]

theorem total_rewound (a : Stream) : a.rewound.total = a.total := by
  simp only [total, pos, rewound, List.length_append, List.length_nil]
  omega

end Stream

/-! ## The states of a request -/

theorem Steady.fits {r : ReadSide} (h : Steady r) : r.stream.Fits :=
  ⟨h.length_ge, h.length_lt, (stream_total h.inv).trans_le h.inv.read_le⟩

theorem clean_scanned {r : ReadSide} (h : Inv r) : Clean r.stream.scanned := by
  intro b hb
  obtain ⟨i, -, hi, rfl⟩ := Buf.mem_slice.1 hb
  exact inLine_iff.2 (h.clean i hi)

/-- **The loop does what the end of the head says.** -/
theorem Steady.yields {r : ReadSide} (h : Steady r) : r.headEnd.Yields (r.stream.run .lineOk) := by
  have htotal := stream_total h.inv
  have hline : r.stream.rewound.rest = r.readBuffer.slice r.startLine r.readIndex :=
    Buf.slice_append _ h.inv.start_le h.inv.check_le
  have hfits : r.stream.rewound.Fits := ⟨h.length_ge, h.length_lt, by rw [Stream.total_rewound]; exact h.fits.total_le⟩
  unfold ReadSide.headEnd
  cases hs : r.checkState with
  | requestLine =>
    have hgo := Stream.requestLine_yields (a := r.stream.rewound) hs rfl hfits
    rwa [Stream.run_rewound (by simp [ReadSide.stream, hs]) (clean_scanned h.inv), Stream.total_rewound, htotal,
      hline] at hgo
  | header =>
    have hgo := Stream.header_yields _ (a := r.stream.rewound) rfl hs rfl hfits
    rwa [Stream.run_rewound (by simp [ReadSide.stream, hs]) (clean_scanned h.inv), Stream.total_rewound, htotal,
      hline] at hgo
  | content => exact Stream.content_yields (a := r.stream) hs h.fits

theorem Steady.run_none_iff {r : ReadSide} (h : Steady r) : r.stream.run .lineOk = none ↔ r.spins = true := by
  have hyields := h.yields
  unfold ReadSide.spins
  cases he : r.headEnd with
  | body n rest =>
    rw [he] at hyields
    exact hyields.1
  | _ =>
    rw [he] at hyields
    obtain ⟨a, ha⟩ := hyields
    simp [ha]

theorem Steady.run_undefined_iff {r : ReadSide} (h : Steady r) {x : HttpCode × Stream}
    (hx : r.stream.run .lineOk = some x) : x.1 = .undefined ↔ r.faulty = true := by
  have hyields := h.yields
  rw [hx] at hyields
  unfold ReadSide.faulty
  cases he : r.headEnd with
  | body n rest =>
    rw [he] at hyields
    rcases (hyields.2 x rfl).1 with hc | hc <;> simp [hc]
  | _ =>
    rw [he] at hyields
    obtain ⟨a, ha⟩ := hyields
    cases ha
    simp

/-- a completed request has the length that its bytes announce -/
theorem Steady.run_bodyLength {r : ReadSide} (h : Steady r) {a : Stream}
    (hx : r.stream.run .lineOk = some (.getRequest, a)) : a.contentLength = r.bodyLength := by
  have hyields := h.yields
  rw [hx] at hyields
  unfold ReadSide.bodyLength
  cases he : r.headEnd with
  | body n rest =>
    rw [he] at hyields
    exact (hyields.2 _ rfl).2
  | _ =>
    rw [he] at hyields
    obtain ⟨b, hb⟩ := hyields
    cases hb

/-! ## The loop of the code -/

/-- the loop of `processRead` ends after some number of rounds, and has written over no memory in use -/
def loopEnds (r : ReadSide) : Prop :=
  ∃ fuel code r', processReadLoop fuel .lineOk r = some (code, r') ∧ code ≠ .undefined

/-- **When the loop of `processRead` ends.** -/
theorem Steady.loopEnds_iff {r : ReadSide} (h : Steady r) : loopEnds r ↔ r.spins = false ∧ r.faulty = false := by
  rw [← Bool.not_eq_true r.spins, ← h.run_none_iff]
  constructor
  · rintro ⟨fuel, code, r', hloop, hdef⟩
    obtain ⟨b, hrun, -⟩ := run_of_loop h.inv (processReadLoop_enough h.inv hloop)
    refine ⟨by rw [hrun]; nofun, ?_⟩
    rw [← Bool.not_eq_true, ← h.run_undefined_iff hrun]
    exact hdef
  · rintro ⟨hne, hfaulty⟩
    obtain ⟨⟨code, b⟩, hrun⟩ := Option.ne_none_iff_exists'.1 hne
    obtain ⟨r', hloop, -⟩ := loop_of_run h.inv hrun
    refine ⟨loopRounds, code, r', hloop, fun hcode => ?_⟩
    rw [(h.run_undefined_iff hrun).1 hcode] at hfaulty
    cases hfaulty

theorem Steady.loop_bodyLength {r r' : ReadSide} (h : Steady r)
    (hrun : processReadLoop loopRounds .lineOk r = some (.getRequest, r')) : r'.contentLength = r.bodyLength := by
  obtain ⟨b, hs, hend⟩ := run_of_loop h.inv hrun
  exact hend.request.contentLength.trans (h.run_bodyLength hs)

/-- **With a length that is not negative the parser stores nothing in front of `readBuffer`.** -/
theorem Steady.contained {c : Conn} (h : Steady c.toReadSide) (hn : 0 ≤ c.bodyLength) : c.Contained := by
  intro code r hrun
  obtain ⟨b, -, hend⟩ := run_of_loop h.inv hrun
  apply hend.inside
  by_cases hcode : code = .getRequest
  · subst hcode
    exact Or.inr ((h.loop_bodyLength hrun).symm ▸ hn)
  · exact Or.inl hcode

end WebServer.HttpConn
