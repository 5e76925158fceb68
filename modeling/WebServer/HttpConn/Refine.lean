/-
The code's parser computes the stream parser: `ReadSide.stream` reads the buffer, the indices and the pointers of a
connection as a `Stream`, and every round of `processRead`'s loop commutes with it.

- `Tidy`: the indices are ordered, no byte below `checkIndex` ends a line, and every byte from `readIndex` on is 0.
  `Tidy.load`, `Tidy.skip`, `Tidy.pass` and `Zeroes.tidy`: more bytes, the scanner and the handlers keep that.
- `Inv`: also the strings at `url` and `host` end before the current line, and nothing has been stored in front of the
  buffer. It holds after `init` (`inv_fresh`), is kept by `load`, by the loop's test and by its body as long as the loop
  goes on.
- `loopTest_stream`, `loopBody_stream`: one round.
- `processReadLoop_stream`: the whole loop gives the same code as the rounds of the stream and the same parsed request;
  when the code is NO_REQUEST, the state left for the next call is the stream's.
-/
import WebServer.HttpConn.Stream

namespace WebServer.HttpConn

open WebServer

/-! ## Abstraction and invariant -/

/-- the string at a pointer, with its offset -/
def ReadSide.span (r : ReadSide) (p : Option ℕ) : Option (ℕ × Bytes) := p.map fun o => (o, r.readBuffer.cstr o)

def ReadSide.stream (r : ReadSide) : Stream where
  state := r.checkState
  start := r.startLine
  scanned := r.readBuffer.slice r.startLine r.checkIndex
  rest := r.unread
  url := r.span r.url
  host := r.span r.host
  linger := r.linger
  contentLength := r.contentLength

/-- the indices are in order, no line end is left below `checkIndex`, and the buffer is empty from `readIndex` on -/
structure Tidy (r : ReadSide) : Prop where
  start_le : r.startLine ≤ r.checkIndex
  check_le : r.checkIndex ≤ r.readIndex
  read_le : r.readIndex ≤ readBufferSize
  clean : ∀ i < r.checkIndex, r.readBuffer.get i ≠ cr ∧ r.readBuffer.get i ≠ lf
  tail : ∀ i, r.readIndex ≤ i → r.readBuffer.get i = 0

structure Inv (r : ReadSide) : Prop extends Tidy r where
  url_end : ∀ o, r.url = some o → o + (r.readBuffer.cstr o).length ≤ r.startLine
  host_end : ∀ o, r.host = some o → o + (r.readBuffer.cstr o).length ≤ r.startLine
  no_host : r.checkState = .requestLine → r.host = none
  inside : r.outside = none

theorem tidy_fresh : Tidy ReadSide.fresh := by
  constructor <;> simp [ReadSide.fresh]

theorem inv_fresh : Inv ReadSide.fresh := by
  refine ⟨tidy_fresh, ?_, ?_, ?_, rfl⟩ <;> simp [ReadSide.fresh]

theorem stream_fresh : ReadSide.fresh.stream = Stream.fresh := by
  simp [ReadSide.stream, ReadSide.fresh, Stream.fresh, ReadSide.span, ReadSide.unread, Buf.slice_eq_nil]

theorem stream_pos {r : ReadSide} (h : Inv r) : r.stream.pos = r.checkIndex := by
  have := h.start_le
  simp only [Stream.pos, ReadSide.stream, Buf.length_slice]; omega

theorem stream_total {r : ReadSide} (h : Inv r) : r.stream.total = r.readIndex := by
  have := h.check_le
  have hlen : r.stream.rest.length = r.readIndex - r.checkIndex := Buf.length_slice _ _ _
  rw [Stream.total, stream_pos h, hlen]; omega

theorem span_congr {r r' : ReadSide} {p : Option ℕ}
    (h : ∀ o, p = some o → r'.readBuffer.cstr o = r.readBuffer.cstr o) : r'.span p = r.span p := by
  cases p with
  | none => rfl
  | some o => simp [ReadSide.span, h o rfl]

/-! ## The indices -/

theorem Tidy.load {r : ReadSide} (h : Tidy r) {q : Bytes} (hq : r.readIndex + q.length ≤ readBufferSize) :
    Tidy (r.load q) where
  start_le := h.start_le
  check_le := h.check_le.trans (Nat.le_add_right _ _)
  read_le := hq
  clean := by
    intro i hi
    have hkept : (r.load q).readBuffer.get i = r.readBuffer.get i := Buf.get_write_lt _ _ (lt_of_lt_of_le hi h.check_le)
    rw [hkept]
    exact h.clean i hi
  tail := by
    intro i hi
    have hkept : (r.load q).readBuffer.get i = r.readBuffer.get i := Buf.get_write_ge _ _ hi
    rw [hkept]
    exact h.tail i ((Nat.le_add_right _ _).trans hi)

theorem length_unread {r : ReadSide} {l t : Bytes} (hl : r.unread = l ++ t) :
    r.readIndex - r.checkIndex = l.length + t.length := by
  rw [← List.length_append, ← hl, ReadSide.unread, Buf.length_slice]

/-- the bytes of the line that the scanner passes end no line either -/
theorem Tidy.clean_line {r : ReadSide} (h : Tidy r) {l t : Bytes} (hl : r.unread = l ++ t) (hc : Clean l) {i : ℕ}
    (hi : i < r.checkIndex + l.length) : r.readBuffer.get i ≠ cr ∧ r.readBuffer.get i ≠ lf := by
  by_cases hi' : i < r.checkIndex
  · exact h.clean i hi'
  · have hmem : r.readBuffer.get i ∈ l := by
      rw [← (Buf.slice_eq_append hl).1]
      exact Buf.mem_slice.2 ⟨i, not_lt.1 hi', hi, rfl⟩
    exact inLine_iff.1 (hc _ hmem)

theorem Tidy.skip {r : ReadSide} (h : Tidy r) {l t : Bytes} (hl : r.unread = l ++ t) (hc : Clean l) :
    Tidy (r.skip l.length) where
  start_le := h.start_le.trans (Nat.le_add_right _ _)
  check_le := by
    have hlen := length_unread hl
    have hcheck := h.check_le
    simp only [ReadSide.skip]
    omega
  read_le := h.read_le
  clean := fun _ hi => h.clean_line hl hc hi
  tail := h.tail

theorem Tidy.pass {r : ReadSide} (h : Tidy r) {l rest : Bytes} (hl : r.unread = l ++ cr :: lf :: rest) (hc : Clean l) :
    Tidy (r.pass l.length) where
  start_le := h.start_le.trans (by simp only [ReadSide.pass]; omega)
  check_le := by
    have hlen := length_unread hl
    have hcheck := h.check_le
    simp only [ReadSide.pass, List.length_cons] at hlen ⊢
    omega
  read_le := h.read_le
  clean := by
    intro i hi
    simp only [ReadSide.pass, Buf.get_set_zero] at hi ⊢
    split_ifs with h1 h2
    · decide
    · decide
    · exact h.clean_line hl hc (by omega)
  tail := by
    intro i hi
    simp only [ReadSide.pass, Buf.get_set_zero]
    rw [h.tail i hi, ite_self, ite_self]

/-! ## More bytes -/

/-- receiving more bytes, in a state where the recorded strings have ended -/
theorem load_stream {r : ReadSide} (h : Inv r) (q : Bytes) (hq : r.readIndex + q.length ≤ readBufferSize)
    (hp : r.startLine < r.readIndex ∨ (r.url = none ∧ r.host = none)) :
    Inv (r.load q) ∧ (r.load q).stream = r.stream.load q := by
  have hstr : ∀ o, (r.url = some o ∨ r.host = some o) →
      (r.readBuffer.write r.readIndex q).cstr o = r.readBuffer.cstr o := by
    intro o ho
    apply Buf.cstr_write
    have hend : o + (r.readBuffer.cstr o).length ≤ r.startLine := ho.elim (h.url_end o) (h.host_end o)
    rcases hp with hp | ⟨h1, h2⟩
    · omega
    · rcases ho with ho | ho
      · rw [h1] at ho; cases ho
      · rw [h2] at ho; cases ho
  have hstart := h.start_le
  have hcheck := h.check_le
  constructor
  · refine ⟨h.toTidy.load hq, fun o ho => ?_, fun o ho => ?_, h.no_host, h.inside⟩
    · simp only [ReadSide.load] at ho ⊢
      rw [hstr o (Or.inl ho)]; exact h.url_end o ho
    · simp only [ReadSide.load] at ho ⊢
      rw [hstr o (Or.inr ho)]; exact h.host_end o ho
  · have hrest : (r.load q).unread = r.unread ++ q := by
      simp only [ReadSide.load, ReadSide.unread]
      rw [← Buf.slice_append _ hcheck (Nat.le_add_right _ _), Buf.slice_write _ _ _ hq]
      congr 1
      exact Buf.slice_congr fun k _ hk => Buf.get_write_lt _ _ hk
    have hscan : (r.load q).readBuffer.slice r.startLine r.checkIndex =
        r.readBuffer.slice r.startLine r.checkIndex :=
      Buf.slice_congr fun k _ hk => Buf.get_write_lt _ _ (by omega)
    have hurl : (r.load q).span r.url = r.span r.url := span_congr fun o ho => hstr o (Or.inl ho)
    have hhost : (r.load q).span r.host = r.span r.host := span_congr fun o ho => hstr o (Or.inr ho)
    simp only [ReadSide.stream, Stream.load]
    rw [hrest]
    simp only [ReadSide.load] at hscan hurl hhost ⊢
    rw [hscan, hurl, hhost]

/-! ## The loop's test -/

/-- the line handed to a handler ends at a zero -/
def Ended (r : ReadSide) : Prop :=
  r.readBuffer.cstr r.startLine = cText (r.readBuffer.slice r.startLine r.checkIndex)

/-- strings that end before the scanner are not changed by the zeros it writes -/
theorem cstr_zeroed {b : Buf readBufferSize} {o k : ℕ} (h : o + (b.cstr o).length ≤ k) :
    ((b.set k 0).set (k + 1) 0).cstr o = b.cstr o := by
  have h1 : (b.set k 0).cstr o = b.cstr o := by
    rw [Buf.cstr_set_zero, if_pos (by omega), List.take_of_length_le (by omega)]
  rw [Buf.cstr_set_zero, h1, if_pos (by omega), List.take_of_length_le (by omega)]

/-- moving the scanner over bytes that end no line -/
theorem inv_move {r : ReadSide} (h : Inv r) {l t : Bytes} (hl : r.unread = l ++ t) (hc : Clean l) :
    Inv (r.skip l.length) ∧
      (r.skip l.length).stream = { r.stream with scanned := r.stream.scanned ++ l, rest := t } := by
  obtain ⟨hsl, htl⟩ := Buf.slice_eq_append hl
  refine ⟨⟨h.toTidy.skip hl hc, h.url_end, h.host_end, h.no_host, h.inside⟩, ?_⟩
  simp only [ReadSide.stream, ReadSide.unread, ReadSide.span, ReadSide.skip]
  rw [htl, ← Buf.slice_append _ h.start_le (Nat.le_add_right _ l.length), hsl]

/-- passing a line end: the scanner writes zeros over CR LF -/
theorem inv_pass {r : ReadSide} (h : Inv r) {l rest : Bytes} (hl : r.unread = l ++ cr :: lf :: rest) (hc : Clean l) :
    Inv (r.pass l.length) ∧
      (r.pass l.length).stream = { r.stream with scanned := r.stream.scanned ++ l ++ [0, 0], rest := rest } := by
  obtain ⟨hsl, htl⟩ := Buf.slice_eq_append hl
  have htidy := h.toTidy.pass hl hc
  have hstart := h.start_le
  set r' := r.pass l.length with hr'
  have hci : r'.checkIndex = r.checkIndex + l.length + 2 := rfl
  obtain ⟨k, hk⟩ : ∃ k, k = r.checkIndex + l.length := ⟨_, rfl⟩
  rw [← hk] at hsl htl hci
  have hget : ∀ i, r'.readBuffer.get i = if i = k ∨ i = k + 1 then 0 else r.readBuffer.get i := by
    intro i
    simp only [hr', ReadSide.pass, Buf.get_set_zero, ← hk]
    by_cases h1 : i = k + 1
    · simp [h1]
    · by_cases h2 : i = k <;> simp [h1, h2]
  have hstr : ∀ o, o + (r.readBuffer.cstr o).length ≤ r.startLine → r'.readBuffer.cstr o = r.readBuffer.cstr o :=
    fun o ho => cstr_zeroed (by omega)
  have hrest : r'.readBuffer.slice (k + 2) r.readIndex = rest := by
    have h2 := Buf.slice_eq_append (l := [cr, lf]) (t := rest) htl
    simp only [List.length_cons, List.length_nil] at h2
    rw [← h2.2]
    exact Buf.slice_congr fun i h1 _ => by rw [hget, if_neg (by omega)]
  have hscan : r'.readBuffer.slice r.startLine (k + 2) =
      r.readBuffer.slice r.startLine r.checkIndex ++ l ++ [0, 0] := by
    rw [← Buf.slice_append _ (show r.startLine ≤ k by omega) (show k ≤ k + 2 by omega)]
    congr 1
    · have hsame : r'.readBuffer.slice r.startLine k = r.readBuffer.slice r.startLine k :=
        Buf.slice_congr fun i _ h2 => by rw [hget, if_neg (by omega)]
      rw [hsame, ← Buf.slice_append _ hstart (show r.checkIndex ≤ k by omega), hsl]
    · rw [Buf.slice_cons _ (by omega), Buf.slice_cons _ (by omega), Buf.slice_eq_nil _ (by omega), hget, hget]
      simp
  refine ⟨⟨htidy, fun o ho => ?_, fun o ho => ?_, h.no_host, h.inside⟩, ?_⟩
  · have := h.url_end o ho
    rw [hstr o this]; exact this
  · have := h.host_end o ho
    rw [hstr o this]; exact this
  · have hurl : r'.span r.url = r.span r.url := span_congr fun o ho => hstr o (h.url_end o ho)
    have hhost : r'.span r.host = r.span r.host := span_congr fun o ho => hstr o (h.host_end o ho)
    show Stream.mk r.checkState r.startLine (r'.readBuffer.slice r.startLine r'.checkIndex)
      (r'.readBuffer.slice r'.checkIndex r.readIndex) (r'.span r.url) (r'.span r.host) r.linger r.contentLength = _
    rw [hci, hscan, hrest, hurl, hhost]
    rfl

/-- **One test of the loop condition** is the stream's; with LINE_OK, outside the body state, the line handed on ends
at a zero -/
theorem loopTest_stream {r : ReadSide} (h : Inv r) (ls : LineStatus) :
    Inv (loopTest ls r).2 ∧ ((loopTest ls r).1, (loopTest ls r).2.stream) = r.stream.test ls ∧
      ((loopTest ls r).1 = .lineOk → r.checkState ≠ .content → Ended (loopTest ls r).2) := by
  unfold loopTest Stream.test
  by_cases hct : r.checkState = .content ∧ ls = .lineOk
  · rw [if_pos hct, if_pos (show r.stream.state = _ ∧ _ from hct)]
    exact ⟨h, rfl, fun _ hne => absurd hct.1 hne⟩
  rw [if_neg hct, if_neg (show ¬ (r.stream.state = _ ∧ _) from hct), parseLine_eq r fun i hi => (h.clean i hi).1,
    show r.stream.rest = r.unread from rfl]
  rcases nextLine_cases r.unread with ⟨l, rest, hn, hs, hc⟩ | ⟨l, hn, hs, hc⟩ | ⟨l, t, hn, hs, hc, -⟩ | ⟨hn, hc⟩
  · obtain ⟨h1, h2⟩ := inv_pass h hs hc
    rw [hn]
    refine ⟨h1, by simp only [ReadSide.afterLine, Stream.afterLine]; rw [h2], fun _ _ => ?_⟩
    refine Buf.cstr_eq_takeWhile h1.start_le (h1.check_le.trans h1.read_le) (Or.inr ?_)
    change (0 : UInt8) ∈ (r.pass l.length).stream.scanned
    rw [h2]; simp
  · obtain ⟨h1, h2⟩ := inv_move h hs hc
    rw [hn]
    refine ⟨h1, ?_, fun hls => by simp [ReadSide.afterLine] at hls⟩
    simp only [ReadSide.afterLine, Stream.afterLine]
    rw [h2, show r.stream.rest = r.unread from rfl, hs]
    simp
  · obtain ⟨h1, h2⟩ := inv_move h hs hc
    rw [hn]
    refine ⟨h1, ?_, fun hls => by simp [ReadSide.afterLine] at hls⟩
    simp only [ReadSide.afterLine, Stream.afterLine]
    rw [h2, show r.stream.rest = r.unread from rfl, hs]
    simp
  · obtain ⟨h1, h2⟩ := inv_move (t := []) h (by simp) hc
    rw [hn]
    refine ⟨h1, by simp only [ReadSide.afterLine, Stream.afterLine]; rw [h2], fun _ _ => ?_⟩
    refine Buf.cstr_eq_takeWhile h1.start_le (h1.check_le.trans h1.read_le) (Or.inl (h.tail _ ?_))
    have hcheck := h.check_le
    simp only [ReadSide.afterLine, ReadSide.skip, ReadSide.unread, Buf.length_slice]; omega

/-! ## The request line -/

/-- what `parseRequestLine` does to a text `t` at offset `text`: the verdict and the url of `requestTarget`, and zeros
written inside the text only -/
structure RequestLineSpec (text : ℕ) (t : Bytes) (r : ReadSide) (out : HttpCode × ReadSide) : Prop where
  code : out.1 = (requestTarget t).1
  url : out.2.span out.2.url = (requestTarget t).2.map fun p => (text + p.1, p.2)
  state : out.2.checkState = if (requestTarget t).1 = .noRequest then .header else r.checkState
  zeroed : ∀ k, out.2.readBuffer.get k = r.readBuffer.get k ∨
    (out.2.readBuffer.get k = 0 ∧ text ≤ k ∧ k < text + t.length)
  readIndex : out.2.readIndex = r.readIndex
  checkIndex : out.2.checkIndex = r.checkIndex
  startLine : out.2.startLine = r.startLine
  host : out.2.host = r.host
  contentLength : out.2.contentLength = r.contentLength
  linger : out.2.linger = r.linger
  outside : out.2.outside = r.outside

theorem zeroed_once {b : Buf readBufferSize} {i lo hi : ℕ} (h : lo ≤ i ∧ i < hi) (k : ℕ) :
    (b.set i 0).get k = b.get k ∨ ((b.set i 0).get k = 0 ∧ lo ≤ k ∧ k < hi) := by
  rw [Buf.get_set_zero]
  split_ifs with hk
  · subst hk; exact Or.inr ⟨rfl, h⟩
  · exact Or.inl rfl

theorem zeroed_twice {b : Buf readBufferSize} {i j lo hi : ℕ} (hi' : lo ≤ i ∧ i < hi) (hj : lo ≤ j ∧ j < hi) (k : ℕ) :
    ((b.set i 0).set j 0).get k = b.get k ∨ (((b.set i 0).set j 0).get k = 0 ∧ lo ≤ k ∧ k < hi) := by
  rcases zeroed_once (b := b.set i 0) hj k with h | h
  · rw [h]; exact zeroed_once hi' k
  · exact Or.inr h

/-- the first byte of the string at `i` -/
theorem get_eq_head {b : Buf readBufferSize} {i : ℕ} {x : UInt8} (hx : x ≠ 0) :
    b.get i = x ↔ (b.cstr i).head? = some x := by
  by_cases he : b.cstr i = []
  · rw [he, (Buf.cstr_eq_nil_iff b i).1 he]
    simpa using hx.symm
  · have h0 : 0 < (b.cstr i).length := List.length_pos_of_ne_nil he
    have hg := Buf.get_cstr b h0
    rw [Nat.add_zero] at hg
    rw [List.head?_eq_getElem?, List.getElem?_eq_getElem h0, hg, Option.some.injEq]

/-- the last part of `parseRequestLine`, which writes nothing -/
theorem parseTarget_spec {text off p v : ℕ} {u w : Bytes} {r : ReadSide} (hp : p = text + off)
    (hu : r.readBuffer.cstr p = u) (hw : r.readBuffer.cstr v = w) (hurl : r.url = some p) :
    ∃ url' state', parseTarget p v r = ((targetOf off u w).1, { r with url := url', checkState := state' }) ∧
      r.span url' = (targetOf off u w).2.map (fun q => (text + q.1, q.2)) ∧
      state' = if (targetOf off u w).1 = .noRequest then .header else r.checkState := by
  unfold parseTarget targetOf
  rw [hw, hu]
  by_cases hver : strcasecmp w (ascii "HTTP/1.1") = true
  · simp only [hver, if_true]
    by_cases hhttp : strncasecmp u (ascii "http://") 7 = true
    · have h7 : 7 ≤ u.length := length_of_strncasecmp hhttp (by decide)
      have hu7 : r.readBuffer.cstr (p + 7) = u.drop 7 := by rw [Buf.cstr_drop _ (by rw [hu]; omega), hu]
      simp only [hhttp, if_true]
      rw [show r.readBuffer.strchr (p + 7) slash =
        (strchr (r.readBuffer.cstr (p + 7)) slash).map (p + 7 + ·) from rfl, hu7]
      cases hk : strchr (u.drop 7) slash with
      | none => exact ⟨none, r.checkState, rfl, rfl, rfl⟩
      | some k =>
        have hkl := strchr_lt hk
        simp only [List.length_drop] at hkl
        have hstr : r.readBuffer.cstr (p + 7 + k) = u.drop (7 + k) := by
          rw [Buf.cstr_drop _ (by rw [hu7, List.length_drop]; omega), hu7, List.drop_drop]
        have hsl : r.readBuffer.get (p + 7 + k) = slash := by
          rw [get_eq_head (by decide), hstr, ← List.drop_drop]
          exact (strchr_getElem hk).2
        simp only [Option.map_some, hsl, if_true]
        refine ⟨some (p + 7 + k), .header, rfl, ?_, rfl⟩
        exact congrArg some (Prod.ext (by simp only; omega) hstr)
    · have hspan : r.span (some p) = some (text + off, u) := congrArg some (Prod.ext hp hu)
      simp only [hhttp, Bool.false_eq_true, if_false, hurl]
      by_cases hsl : u.head? = some slash
      · rw [if_pos ((get_eq_head (by decide)).2 (hu.symm ▸ hsl)), if_pos hsl]
        exact ⟨some p, .header, by rw [← hurl], hspan, rfl⟩
      · rw [if_neg (fun h => hsl (hu ▸ (get_eq_head (by decide)).1 h)), if_neg hsl]
        exact ⟨some p, r.checkState, by rw [← hurl], hspan, rfl⟩
  · simp only [hver, Bool.false_eq_true, if_false]
    exact ⟨some p, r.checkState, by rw [← hurl], congrArg some (Prod.ext hp hu), rfl⟩

theorem parseRequestLine_spec (text : ℕ) (r : ReadSide) :
    RequestLineSpec text (r.readBuffer.cstr text) r (parseRequestLine text r) := by
  obtain ⟨b, hb⟩ : ∃ b, b = r.readBuffer := ⟨_, rfl⟩
  obtain ⟨t, ht⟩ : ∃ t, t = b.cstr text := ⟨_, rfl⟩
  unfold parseRequestLine
  rw [← hb, ← ht, show b.strpbrk text blanks = (strpbrk (b.cstr text) blanks).map (text + ·) from rfl, ← ht]
  cases hi : strpbrk t blanks with
  | none =>
    have htar : requestTarget t = (.badRequest, none) := by unfold requestTarget; rw [hi]
    exact ⟨by rw [htar]; rfl, by rw [htar]; rfl, by simp [htar], fun k => Or.inl (by rw [hb]; rfl), rfl, rfl, rfl, rfl,
      rfl, rfl, rfl⟩
  | some i =>
    have hit := strpbrk_lt hi
    -- the strings on both sides of the first separator
    have hmeth : (b.set (text + i) 0).cstr text = t.take i := by
      rw [Buf.cstr_set_zero, if_pos (by omega), show text + i - text = i by omega, ht]
    have hs : (b.set (text + i) 0).cstr (text + i + 1) = t.drop (i + 1) := by
      rw [Buf.cstr_set_zero, if_neg (by omega), show text + i + 1 = text + (i + 1) by omega,
        Buf.cstr_drop b (by rw [← ht]; omega), ht]
    have hz := fun k => @zeroed_once b (text + i) text (text + t.length) (by omega) k
    have hspan : ∀ (m : Method) (v : Option ℕ),
        ({ r with readBuffer := b.set (text + i) 0, url := some (text + i + 1), method := m, version := v }
          : ReadSide).span (some (text + i + 1)) = some (text + (i + 1), t.drop (i + 1)) :=
      fun _ _ => congrArg some (Prod.ext (Nat.add_assoc _ _ _) hs)
    simp only [Option.map_some]
    rw [hmeth]
    by_cases hget : strcasecmp (t.take i) (ascii "GET") = true
    · rw [if_pos hget,
        show (b.set (text + i) 0).strpbrk (text + i + 1) blanks =
          (strpbrk ((b.set (text + i) 0).cstr (text + i + 1)) blanks).map (text + i + 1 + ·) from rfl, hs]
      cases hj : strpbrk (t.drop (i + 1)) blanks with
      | none =>
        have htar : requestTarget t = (.badRequest, some (i + 1, t.drop (i + 1))) := by
          unfold requestTarget; rw [hi]; dsimp only; rw [if_pos hget, hj]
        exact ⟨by rw [htar]; rfl, by rw [htar]; exact hspan _ _, by simp [htar], by simpa [← hb] using hz, rfl, rfl, rfl,
          rfl, rfl, rfl, rfl⟩
      | some j =>
        have hjt := strpbrk_lt hj
        simp only [List.length_drop] at hjt
        have htar : requestTarget t =
            targetOf (i + 1) ((t.drop (i + 1)).take j) ((t.drop (i + 1)).drop (j + 1)) := by
          unfold requestTarget; rw [hi]; dsimp only; rw [if_pos hget, hj]
        have hz2 := fun k => @zeroed_twice b (text + i) (text + i + 1 + j) text (text + t.length) (by omega) (by omega) k
        have hu : ((b.set (text + i) 0).set (text + i + 1 + j) 0).cstr (text + i + 1) = (t.drop (i + 1)).take j := by
          rw [Buf.cstr_set_zero, if_pos (by omega), hs, show text + i + 1 + j - (text + i + 1) = j by omega]
        have hv : ((b.set (text + i) 0).set (text + i + 1 + j) 0).cstr (text + i + 1 + j + 1) =
            (t.drop (i + 1)).drop (j + 1) := by
          rw [Buf.cstr_set_zero, if_neg (by omega), show text + i + 1 + j + 1 = text + i + 1 + (j + 1) by omega,
            Buf.cstr_drop _ (by rw [hs, List.length_drop]; omega), hs]
        simp only [Option.map_some]
        obtain ⟨url', state', heq, h1, h2⟩ := @parseTarget_spec text (i + 1) _ _ _ _
          ({ r with
            readBuffer := (b.set (text + i) 0).set (text + i + 1 + j) 0
            url := some (text + i + 1), method := .get, version := some (text + i + 1 + j + 1) })
          (Nat.add_assoc _ _ _) hu hv rfl
        rw [heq]
        exact ⟨by rw [htar], by rw [htar]; exact h1, by rw [htar]; exact h2, by simpa [← hb] using hz2, rfl, rfl, rfl,
          rfl, rfl, rfl, rfl⟩
    · have htar : requestTarget t = (.badRequest, some (i + 1, t.drop (i + 1))) := by
        unfold requestTarget; rw [hi]; dsimp only; rw [if_neg hget]
      rw [if_neg hget]
      exact ⟨by rw [htar], by rw [htar]; exact hspan r.method r.version, by simp [htar], by simpa [← hb] using hz, rfl,
        rfl, rfl, rfl, rfl, rfl, rfl⟩

/-! ## The loop's body -/

/-- the same parsed request -/
structure SameRequest (a b : Stream) : Prop where
  url : a.url = b.url
  host : a.host = b.host
  linger : a.linger = b.linger
  contentLength : a.contentLength = b.contentLength

theorem SameRequest.of_eq {a b : Stream} (h : a = b) : SameRequest a b := h ▸ ⟨rfl, rfl, rfl, rfl⟩

/-- a handler moves no index and stores nothing but zeros -/
structure Zeroes (r r' : ReadSide) : Prop where
  readIndex : r'.readIndex = r.readIndex
  checkIndex : r'.checkIndex = r.checkIndex
  startLine : r'.startLine = r.startLine
  bytes : ∀ k, r'.readBuffer.get k = r.readBuffer.get k ∨ r'.readBuffer.get k = 0

theorem Zeroes.tidy {r r' : ReadSide} (hz : Zeroes r r') (h : Tidy r) : Tidy r' where
  start_le := by
    rw [hz.startLine, hz.checkIndex]
    exact h.start_le
  check_le := by
    rw [hz.checkIndex, hz.readIndex]
    exact h.check_le
  read_le := hz.readIndex ▸ h.read_le
  clean := by
    intro i hi
    rw [hz.checkIndex] at hi
    rcases hz.bytes i with hb | hb
    · rw [hb]
      exact h.clean i hi
    · rw [hb]
      decide
  tail := by
    intro i hi
    rw [hz.readIndex] at hi
    rcases hz.bytes i with hb | hb
    · exact hb.trans (h.tail i hi)
    · exact hb

theorem parseRequestLine_zeroes (text : ℕ) (r : ReadSide) : Zeroes r (parseRequestLine text r).2 := by
  have hspec := parseRequestLine_spec text r
  exact ⟨hspec.readIndex, hspec.checkIndex, hspec.startLine, fun k => (hspec.zeroed k).imp_right And.left⟩

/-- `startLine = checkIndex` -/
theorem newLine_stream {r : ReadSide} (h : Inv r) :
    Inv { r with startLine := r.checkIndex } ∧
      ({ r with startLine := r.checkIndex } : ReadSide).stream = r.stream.newLine := by
  have hstart := h.start_le
  constructor
  · exact ⟨⟨le_rfl, h.check_le, h.read_le, h.clean, h.tail⟩, fun o ho => (h.url_end o ho).trans hstart,
      fun o ho => (h.host_end o ho).trans hstart, h.no_host, h.inside⟩
  · simp only [Stream.newLine, stream_pos h]
    simp [ReadSide.stream, ReadSide.unread, ReadSide.span, Buf.slice_eq_nil]

/-- the text of the line lies before the scanner -/
theorem Ended.length_le {r : ReadSide} (h : Inv r) (he : Ended r) :
    r.startLine + (r.readBuffer.cstr r.startLine).length ≤ r.checkIndex := by
  have h1 := length_cText_le (r.readBuffer.slice r.startLine r.checkIndex)
  have h2 := h.start_le
  rw [he]
  simp only [Buf.length_slice] at h1
  omega

theorem requestLine_stream {r : ReadSide} (h : Inv r) (he : Ended r) (hs : r.checkState = .requestLine) :
    (loopBody r).1 = r.stream.body.1 ∧ Inv (loopBody r).2 ∧ (loopBody r).2.stream = r.stream.body.2 := by
  obtain ⟨h1, h2⟩ := newLine_stream h
  have hend := he.length_le h
  have hspec := parseRequestLine_spec r.startLine { r with startLine := r.checkIndex }
  have htidy := (parseRequestLine_zeroes r.startLine { r with startLine := r.checkIndex }).tidy h1.toTidy
  rw [loopBody_parseRequestLine hs]
  set out := parseRequestLine r.startLine { r with startLine := r.checkIndex }
  obtain ⟨t, ht⟩ : ∃ t, t = cText r.stream.scanned := ⟨_, rfl⟩
  have htext : r.readBuffer.cstr r.startLine = t := he.trans ht.symm
  simp only [htext] at hspec hend
  have hhost : r.host = none := h.no_host hs
  have hget : ∀ k, r.checkIndex ≤ k → out.2.readBuffer.get k = r.readBuffer.get k := by
    intro k hk
    rcases hspec.zeroed k with hz | hz
    · exact hz
    · omega
  refine ⟨?_, ⟨htidy, ?_, ?_, ?_, hspec.outside.trans h.inside⟩, ?_⟩
  · rw [hspec.code]
    simp only [Stream.body, show r.stream.state = .requestLine from hs, ← ht]
  · -- the url lies inside the text of the line
    intro o ho
    have hsp := hspec.url
    rw [ho] at hsp
    simp only [ReadSide.span, Option.map_some] at hsp
    obtain ⟨p, hp, hpo⟩ := Option.map_eq_some_iff.1 hsp.symm
    have hle := requestTarget_le hp
    have h1 : r.startLine + p.1 = o := congrArg Prod.fst hpo
    have h2 : p.2 = out.2.readBuffer.cstr o := congrArg Prod.snd hpo
    rw [← h2, hspec.startLine]
    simp only
    omega
  · intro o ho
    rw [hspec.host] at ho
    simp only [hhost] at ho
    cases ho
  · intro _
    rw [hspec.host]; exact hhost
  · have hrest : out.2.unread = r.unread := by
      unfold ReadSide.unread
      rw [hspec.checkIndex, hspec.readIndex]
      exact Buf.slice_congr fun k h1 _ => hget k h1
    simp only [Stream.body, show r.stream.state = .requestLine from hs, ← ht]
    simp only [Stream.newLine, stream_pos h]
    simp [ReadSide.stream, hrest, hspec.state, hspec.startLine, hspec.checkIndex, hspec.host,
      hspec.contentLength, hspec.linger, hs, hhost, ReadSide.span, Buf.slice_eq_nil]
    exact hspec.url

/-- the bytes of a line behind a field's name, and behind the blanks that follow it -/
theorem cstr_field {n : ℕ} {b : Buf n} {text : ℕ} {t : Bytes} (htext : b.cstr text = t) {k : ℕ} (hk : k ≤ t.length) :
    b.cstr (text + k) = t.drop k ∧ b.cstr (text + k + strspn (t.drop k) blanks) = skipBlanks (t.drop k) := by
  have hdrop : b.cstr (text + k) = t.drop k := by
    rw [Buf.cstr_drop _ (by rw [htext]; exact hk), htext]
  have hle := strspn_le (t.drop k) blanks
  refine ⟨hdrop, ?_⟩
  rw [skipBlanks, Buf.cstr_drop _ (by rw [hdrop]; exact hle), hdrop]

/-- `parseHeader` on a `Content-Length` line -/
theorem parseHeader_length {r : ReadSide} {text : ℕ} {t : Bytes} (htext : r.readBuffer.cstr text = t) (hne : t ≠ [])
    (hconn : ¬ strncasecmp t (ascii "Connection:") 11 = true) (hcl : strncasecmp t (ascii "Content-Length:") 15 = true) :
    parseHeader text r = if faults text t then (.undefined, r)
      else (.noRequest, { r with contentLength := lengthAfter r.contentLength t }) := by
  have hl := length_of_strncasecmp hcl (by decide)
  obtain ⟨hdrop, hskip⟩ := cstr_field htext hl
  have hvalue : lengthValue t = some (skipBlanks (t.drop 15)) := by
    simp only [lengthValue, hconn, hcl, Bool.false_eq_true, if_true, if_false]
  unfold parseHeader
  rw [if_neg fun hz => hne (htext.symm.trans ((Buf.cstr_eq_nil_iff _ _).2 hz))]
  simp only [htext, hconn, hcl, hdrop, hskip, faults, lengthAfter, hvalue, Bool.false_eq_true, if_true, if_false]
  cases hslot : endSlot (skipBlanks (t.drop 15)).length with
  | unused => simp
  | inUse => simp
  | this =>
    -- the value is one character long, so that its end is the end of the text
    have hone : text + 15 + strspn (t.drop 15) blanks + 1 = text + t.length := by
      have hlen := endSlot_this hslot
      have hsp := strspn_le (t.drop 15) blanks
      simp only [skipBlanks, List.length_drop] at hlen hsp
      omega
    rw [hone]
    cases storedInWriteBuffer (text + t.length) <;> simp

theorem header_stream {r : ReadSide} (h : Inv r) (he : Ended r) (hs : r.checkState = .header) :
    (loopBody r).1 = r.stream.body.1 ∧ Inv (loopBody r).2 ∧ (loopBody r).2.stream = r.stream.body.2 := by
  obtain ⟨h1, h2⟩ := newLine_stream h
  have hend := he.length_le h
  obtain ⟨t, ht⟩ : ∃ t, t = cText r.stream.scanned := ⟨_, rfl⟩
  have htext : r.readBuffer.cstr r.startLine = t := he.trans ht.symm
  have hsbody : r.stream.body = if t = [] then
      if r.contentLength ≠ 0 then (.noRequest, { r.stream.newLine with state := .content })
      else (.getRequest, r.stream.newLine)
      else if faults r.startLine t then (.undefined, r.stream.newLine)
      else (.noRequest, r.stream.newLine.field r.startLine t) := by
    simp only [Stream.body, show r.stream.state = .header from hs, ← ht]
    rfl
  rw [loopBody_parseHeader hs, hsbody, ← h2]
  by_cases hnil : t = []
  · unfold parseHeader
    rw [if_pos ((Buf.cstr_eq_nil_iff _ _).1 (htext.trans hnil)), if_pos hnil]
    split_ifs with hcl
    · refine ⟨rfl, ⟨⟨h1.start_le, h1.check_le, h1.read_le, h1.clean, h1.tail⟩, h1.url_end, h1.host_end, ?_, h1.inside⟩,
        rfl⟩
      intro hc; cases hc
    · exact ⟨rfl, h1, rfl⟩
  rw [if_neg hnil]
  have hzero : ¬ r.readBuffer.get r.startLine = 0 := fun hz => hnil (htext.symm.trans ((Buf.cstr_eq_nil_iff _ _).2 hz))
  by_cases hconn : strncasecmp t (ascii "Connection:") 11 = true
  · obtain ⟨hdrop, hskip⟩ := cstr_field htext (length_of_strncasecmp hconn (by decide))
    have hnot : faults r.startLine t = false := by simp only [faults, lengthValue, hconn, if_true]
    unfold parseHeader
    simp only [if_neg hzero, htext, hnot, Stream.field, hconn, Bool.false_eq_true, if_true, if_false, hdrop, hskip]
    split_ifs
    · exact ⟨rfl, ⟨⟨h1.start_le, h1.check_le, h1.read_le, h1.clean, h1.tail⟩, h1.url_end, h1.host_end, h1.no_host,
        h1.inside⟩, rfl⟩
    · exact ⟨rfl, h1, rfl⟩
  by_cases hcl : strncasecmp t (ascii "Content-Length:") 15 = true
  · rw [parseHeader_length (r := { r with startLine := r.checkIndex }) htext hnil hconn hcl]
    by_cases hf : faults r.startLine t = true
    · rw [if_pos hf, if_pos hf]
      exact ⟨rfl, h1, rfl⟩
    · rw [if_neg hf, if_neg hf]
      simp only [Stream.field, hconn, hcl, Bool.false_eq_true, if_true, if_false]
      exact ⟨trivial, ⟨⟨h1.start_le, h1.check_le, h1.read_le, h1.clean, h1.tail⟩, h1.url_end, h1.host_end,
        h1.no_host, h1.inside⟩, rfl⟩
  have hnot : faults r.startLine t = false := by
    simp only [faults, lengthValue, hconn, hcl, Bool.false_eq_true, if_false]
  unfold parseHeader
  simp only [if_neg hzero, htext, hnot, Stream.field, hconn, hcl, Bool.false_eq_true, if_false]
  by_cases hho : strncasecmp t (ascii "Host:") 5 = true
  · obtain ⟨hdrop, hskip⟩ := cstr_field htext (length_of_strncasecmp hho (by decide))
    have hsp := strspn_le (t.drop 5) blanks
    simp only [hho, if_true, hdrop]
    refine ⟨trivial, ⟨⟨h1.start_le, h1.check_le, h1.read_le, h1.clean, h1.tail⟩, h1.url_end, ?_, ?_, h1.inside⟩, ?_⟩
    · rintro o ho
      cases ho
      have hl := length_of_strncasecmp hho (by decide)
      simp only [hskip, skipBlanks, List.length_drop] at hsp ⊢
      rw [htext] at hend
      omega
    · intro hc; simp only [hs] at hc; cases hc
    · simp only [ReadSide.stream, ReadSide.span, Option.map_some, hskip]
      rfl
  · simp only [hho, Bool.false_eq_true, if_false]
    exact ⟨trivial, h1, trivial⟩

/-- the strings after a zero is stored at a signed offset -/
theorem span_setInt (r : ReadSide) (k : ℤ) (o : Option { i : ℤ // i < 0 }) (p : Option ℕ) :
    ({ r with readBuffer := r.readBuffer.setInt k 0, outside := o } : ReadSide).span p =
      (r.span p).map (cutString k) := by
  cases p with
  | none => rfl
  | some i =>
    simp only [ReadSide.span, Option.map_some, cutString, Buf.setInt]
    by_cases hk : 0 ≤ k
    · rw [if_pos hk, Buf.cstr_set_zero]
      by_cases hi : (i : ℤ) ≤ k
      · rw [if_pos (by omega), if_pos hi, show k.toNat - i = (k - i).toNat by omega]
      · rw [if_neg (by omega), if_neg hi]
    · rw [if_neg hk, if_neg (by omega)]

theorem content_stream {r : ReadSide} (h : Inv r) (hs : r.checkState = .content) :
    (loopBody r).1 = r.stream.body.1 ∧ SameRequest (loopBody r).2.stream r.stream.body.2 ∧
      ((loopBody r).1 ≠ .getRequest ∨ 0 ≤ r.contentLength → (loopBody r).2.outside = none) ∧
      ((loopBody r).1 ≠ .getRequest → Inv (loopBody r).2 ∧ (loopBody r).2.stream = r.stream.body.2) := by
  obtain ⟨h1, h2⟩ := newLine_stream h
  have hsbody : r.stream.body = if r.stream.bodyDone then
      (.getRequest, r.stream.newLine.cut (r.startLine + r.contentLength)) else (.noRequest, r.stream.newLine) := by
    simp only [Stream.body, show r.stream.state = .content from hs]
    rfl
  have hdone : r.stream.bodyDone ↔ (r.readIndex : ℤ) ≥ int32 (r.contentLength + r.checkIndex) := by
    unfold Stream.bodyDone
    rw [stream_total h, stream_pos h]
    rfl
  rw [loopBody_parseContext hs, hsbody, ← h2]
  unfold parseContext
  simp only [hdone]
  by_cases hd : (r.readIndex : ℤ) ≥ int32 (r.contentLength + r.checkIndex)
  · rw [if_pos hd, if_pos hd]
    refine ⟨rfl, ⟨?_, ?_, rfl, rfl⟩, fun hn => dif_neg ?_, fun hne => absurd rfl hne⟩
    · exact span_setInt { r with startLine := r.checkIndex } _ _ _
    · exact span_setInt { r with startLine := r.checkIndex } _ _ _
    · have := hn.resolve_left (not_not.2 rfl)
      omega
  · rw [if_neg hd, if_neg hd]
    exact ⟨rfl, SameRequest.of_eq rfl, fun _ => h.inside, fun _ => ⟨h1, rfl⟩⟩

/-- **One pass through the loop's body** is the stream's -/
theorem loopBody_stream {r : ReadSide} (h : Inv r) (he : r.checkState ≠ .content → Ended r) :
    (loopBody r).1 = r.stream.body.1 ∧ SameRequest (loopBody r).2.stream r.stream.body.2 ∧
      ((loopBody r).1 ≠ .getRequest ∨ 0 ≤ (loopBody r).2.contentLength → (loopBody r).2.outside = none) ∧
      ((loopBody r).1 ≠ .getRequest → Inv (loopBody r).2 ∧ (loopBody r).2.stream = r.stream.body.2) := by
  cases hs : r.checkState with
  | requestLine =>
    obtain ⟨h1, h2, h3⟩ := requestLine_stream h (he (by rw [hs]; decide)) hs
    exact ⟨h1, SameRequest.of_eq h3, fun _ => h2.inside, fun _ => ⟨h2, h3⟩⟩
  | header =>
    obtain ⟨h1, h2, h3⟩ := header_stream h (he (by rw [hs]; decide)) hs
    exact ⟨h1, SameRequest.of_eq h3, fun _ => h2.inside, fun _ => ⟨h2, h3⟩⟩
  | content =>
    obtain ⟨h1, h2, h3, h4⟩ := content_stream h hs
    have hlength : (loopBody r).2.contentLength = r.contentLength := by
      rw [loopBody_parseContext hs]
      unfold parseContext
      split_ifs <;> rfl
    exact ⟨h1, h2, fun hn => h3 (hn.imp_right fun hn => hlength ▸ hn), h4⟩

/-! ## The whole loop -/

/-- the loop of the code ends like the loop of the stream: the same code and the same request, and a NO_REQUEST leaves
the same state for the next call -/
structure SameEnd (x : HttpCode × ReadSide) (y : HttpCode × Stream) : Prop where
  code : x.1 = y.1
  request : SameRequest x.2.stream y.2
  /-- only a complete request with a negative length stores a zero in front of the buffer -/
  inside : x.1 ≠ .getRequest ∨ 0 ≤ x.2.contentLength → x.2.outside = none
  resume : x.1 = .noRequest → Inv x.2 ∧ x.2.stream = y.2 ∧ x.2.checkIndex < x.2.readIndex

/-- the scanner stops before the last byte received -/
theorem loopTest_stop {r : ReadSide} (h : Inv r) {ls : LineStatus} (hne : (loopTest ls r).1 ≠ .lineOk) :
    (loopTest ls r).2.checkIndex < (loopTest ls r).2.readIndex := by
  unfold loopTest at *
  split_ifs at * with hc
  · exact absurd hc.2 hne
  rw [parseLine_eq r fun i hi => (h.clean i hi).1] at *
  have hlen : r.unread.length = r.readIndex - r.checkIndex := Buf.length_slice _ _ _
  have hcheck := h.check_le
  rcases nextLine_cases r.unread with ⟨l, rest, hn, hs, hc⟩ | ⟨l, hn, hs, hc⟩ | ⟨l, t, hn, hs, hc, ht⟩ | ⟨hn, hc⟩
  · rw [hn] at hne; exact absurd rfl hne
  · rw [hn]
    rw [hs] at hlen
    simp only [List.length_append, List.length_singleton] at hlen
    simp only [ReadSide.afterLine, ReadSide.skip]; omega
  · rw [hn]
    have ht' : 0 < t.length := by
      rcases ht with ⟨x, u, rfl, -⟩ | ⟨u, rfl⟩ <;> simp
    rw [hs] at hlen
    simp only [List.length_append] at hlen
    simp only [ReadSide.afterLine, ReadSide.skip]; omega
  · rw [hn] at hne; exact absurd rfl hne

theorem test_state (ls : LineStatus) (a : Stream) : (a.test ls).2.state = a.state := by
  unfold Stream.test
  split_ifs
  · rfl
  · cases nextLine a.rest <;> rfl

/-- one round -/
theorem loopRound_stream (ls : LineStatus) {r : ReadSide} (h : Inv r) :
    Sum.LiftRel (fun x y => Inv x.2 ∧ y = (x.1, x.2.stream)) SameEnd (loopRound (ls, r))
      (Stream.round (ls, r.stream)) := by
  obtain ⟨h1, h2, h3⟩ := loopTest_stream h ls
  have hstop := @loopTest_stop r h ls
  have hstate : (loopTest ls r).2.checkState = r.checkState := by
    have hst := congrArg (fun x => x.2.state) h2
    simp only [test_state] at hst
    exact hst
  simp only [loopRound, Stream.round]
  rw [← h2]
  generalize loopTest ls r = p at *
  obtain ⟨ls', r'⟩ := p
  simp only at *
  cases ls' with
  | lineBad => exact .inr ⟨rfl, SameRequest.of_eq rfl, fun _ => h1.inside, fun _ => ⟨h1, rfl, hstop (by simp)⟩⟩
  | lineOpen => exact .inr ⟨rfl, SameRequest.of_eq rfl, fun _ => h1.inside, fun _ => ⟨h1, rfl, hstop (by simp)⟩⟩
  | lineOk =>
    obtain ⟨hc, hsame, hin, hgo⟩ := loopBody_stream h1 fun hne => h3 rfl (by rwa [← hstate])
    simp only
    rw [show r'.stream.body = (r'.stream.body.1, r'.stream.body.2) from rfl, ← hc]
    generalize loopBody r' = q at *
    obtain ⟨c, r''⟩ := q
    simp only at *
    cases c with
    | badRequest => exact .inr ⟨rfl, hsame, hin, fun hn => by cases hn⟩
    | getRequest => exact .inr ⟨rfl, hsame, hin, fun hn => by cases hn⟩
    | undefined => exact .inr ⟨rfl, hsame, hin, fun hn => by cases hn⟩
    | _ =>
      obtain ⟨hi, hst⟩ := hgo (by decide)
      exact .inl ⟨hi, by rw [hst]; rfl⟩

/-- **The code's loop computes the stream's loop.** -/
theorem processReadLoop_stream (fuel : ℕ) (ls : LineStatus) {r : ReadSide} (h : Inv r) :
    Option.Rel SameEnd (processReadLoop fuel ls r) (Loop.iterate Stream.round fuel (ls, r.stream)) := by
  refine Loop.iterate_rel (R := fun x y => Inv x.2 ∧ y = (x.1, x.2.stream)) ?_ fuel ⟨h, rfl⟩
  rintro ⟨ls, r⟩ _ ⟨h, rfl⟩
  exact loopRound_stream ls h

end WebServer.HttpConn
