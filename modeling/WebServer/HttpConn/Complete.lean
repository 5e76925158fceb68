/-
Which well-formed requests the parser accepts and reads correctly.

`Request` is a request as a client means it: the parts of the request line, the header lines and the body. `bytes` is
what goes over the wire, `WellFormed` the grammar.

- `WellFormed.requestTarget`: the request line is accepted and its target found.
- `run_headers`: the loop passes the header lines and collects `linger`, `host` and `contentLength` from them, unless one
  of them writes over memory in use (`run_headers_faults`).
- `LengthsStored`: the content length that the parser keeps is the one that the request denotes. `strtol` is given a
  place for its end pointer that depends on the number of characters: with one character the number is not stored, with
  four, five, seven, ten or more the program's memory is overwritten.
- `Readable`: besides, the numbers of one character, which are stored by a wrong `this`, fall into `writeBuffer`.
- `processRead_complete_iff`: a well-formed request that arrives in one piece leads to one call of `doRequest`, with the
  url, the linger flag, the host and the content length that the request denotes, if and only if it is readable.
-/
import WebServer.HttpConn.Chunks
import WebServer.HttpConn.HeadEnd
import WebServer.HttpConn.RequestLine

namespace WebServer.HttpConn

open WebServer

/-! ## Requests -/

structure Request where
  method : Bytes
  blank1 : UInt8
  target : Bytes
  blank2 : UInt8
  version : Bytes
  headers : List Bytes
  body : Bytes

/-- a `Connection:` line with the value keep-alive -/
def keepsAlive (h : Bytes) : Bool :=
  strncasecmp h (ascii "Connection:") 11 && strcasecmp (skipBlanks (h.drop 11)) (ascii "keep-alive")

/-- the value of a `Content-Length:` line -/
def lengthField (h : Bytes) : Option Bytes :=
  if strncasecmp h (ascii "Content-Length:") 15 then some (skipBlanks (h.drop 15)) else none

/-- the value of a `Host:` line -/
def hostField (h : Bytes) : Option Bytes :=
  if strncasecmp h (ascii "Host:") 5 then some (skipBlanks (h.drop 5)) else none

namespace Request

def line (q : Request) : Bytes := q.method ++ q.blank1 :: (q.target ++ q.blank2 :: q.version)

def bytes (q : Request) : Bytes :=
  q.line ++ crlf ++ (q.headers.map (· ++ crlf)).flatten ++ crlf ++ q.body

/-- the path that the target names: all of it, or for an http url the part from the first slash after the host -/
def path (q : Request) : Bytes :=
  if strncasecmp q.target (ascii "http://") 7 then (q.target.drop 7).dropWhile (· ≠ slash) else q.target

def keepAlive (q : Request) : Bool := q.headers.any keepsAlive

/-- the value of the last `Host` line -/
def host (q : Request) : Option Bytes := (q.headers.filterMap hostField).getLast?

/-- the values of the `Content-Length` lines -/
def lengths (q : Request) : List Bytes := q.headers.filterMap lengthField

/-- the number in the last `Content-Length` line, 0 if there is none -/
def contentLength (q : Request) : ℕ := (q.lengths.getLast?.map digitsVal).getD 0

structure WellFormed (q : Request) : Prop where
  method : strcasecmp q.method (ascii "GET") = true
  blank1 : q.blank1 ∈ blanks
  blank2 : q.blank2 ∈ blanks
  version : strcasecmp q.version (ascii "HTTP/1.1") = true
  target : ∀ b ∈ q.target, b ∉ blanks ∧ inLine b = true ∧ b ≠ 0
  target_form : q.target.head? = some slash ∨
    (strncasecmp q.target (ascii "http://") 7 = true ∧ slash ∈ q.target.drop 7)
  header_line : ∀ h ∈ q.headers, h ≠ [] ∧ ∀ b ∈ h, inLine b = true ∧ b ≠ 0
  header_length : ∀ h ∈ q.headers, ∀ v, lengthField h = some v → v ≠ [] ∧ ∀ d ∈ v, isDigit d = true
  body : q.body.length = q.contentLength

/-- the number in the last `Content-Length` line with more than one digit, 0 if there is none -/
def storedLength (q : Request) : ℕ := ((q.lengths.filter fun v => v.length ≠ 1).getLast?.map digitsVal).getD 0

/-- no length overwrites memory in use, and the last one that is stored is right -/
structure LengthsStored (q : Request) : Prop where
  slots : ∀ v ∈ q.lengths, v.length ∈ [1, 2, 3, 6, 8, 9]
  stored : q.storedLength = q.contentLength

/-! ## The request line -/

/-- a byte of a word equal to `t` ignoring case is none of the bytes that `t` does not have -/
theorem ne_of_strcasecmp {s t : Bytes} (h : strcasecmp s t = true) {x b : UInt8} (hx : x ∈ s)
    (hb : lower b ∉ t.map lower) : x ≠ b := by
  rintro rfl
  exact hb (mem_of_strcasecmp h hx)

theorem WellFormed.method_byte {q : Request} (h : q.WellFormed) {b : UInt8} (hb : b ∈ q.method) :
    b ∉ blanks ∧ inLine b = true ∧ b ≠ 0 := by
  have hne := fun c => ne_of_strcasecmp (b := c) h.method hb
  refine ⟨?_, inLine_iff.2 ⟨hne cr (by decide), hne lf (by decide)⟩, hne 0 (by decide)⟩
  simp only [blanks, List.mem_cons, List.not_mem_nil, or_false, not_or]
  exact ⟨hne space (by decide), hne tab (by decide)⟩

theorem WellFormed.version_byte {q : Request} (h : q.WellFormed) {b : UInt8} (hb : b ∈ q.version) :
    inLine b = true ∧ b ≠ 0 := by
  have hne := fun c => ne_of_strcasecmp (b := c) h.version hb
  exact ⟨inLine_iff.2 ⟨hne cr (by decide), hne lf (by decide)⟩, hne 0 (by decide)⟩

theorem blank_byte {b : UInt8} (h : b ∈ blanks) : inLine b = true ∧ b ≠ 0 := by
  simp only [blanks, List.mem_cons, List.not_mem_nil, or_false] at h
  rcases h with rfl | rfl <;> decide

theorem WellFormed.line_byte {q : Request} (h : q.WellFormed) {b : UInt8} (hb : b ∈ q.line) :
    inLine b = true ∧ b ≠ 0 := by
  simp only [line, List.mem_append, List.mem_cons] at hb
  rcases hb with hb | rfl | hb | rfl | hb
  · exact (h.method_byte hb).2
  · exact blank_byte h.blank1
  · exact (h.target b hb).2
  · exact blank_byte h.blank2
  · exact h.version_byte hb

theorem WellFormed.requestLine {q : Request} (h : q.WellFormed) :
    RequestLine q.line q.method q.blank1 q.target q.blank2 q.version where
  text := rfl
  blank1 := h.blank1
  blank2 := h.blank2
  method_word := fun _ hb => (h.method_byte hb).1
  target_word := fun b hb => (h.target b hb).1
  method := h.method
  version := h.version
  target := h.target_form

/-- **The request line is accepted, and `url` is its path.** -/
theorem WellFormed.requestTarget {q : Request} (h : q.WellFormed) :
    ∃ off, requestTarget q.line = (.noRequest, some (off, q.path)) :=
  h.requestLine.requestTarget

end Request

/-! ## Header lines -/

theorem field_linger (a : Stream) (off : ℕ) (t : Bytes) : (a.field off t).linger = (a.linger || keepsAlive t) := by
  unfold Stream.field keepsAlive
  split_ifs with h1 h2 <;> simp_all

theorem lengthValue_eq (t : Bytes) : lengthValue t = lengthField t := by
  unfold lengthValue lengthField
  by_cases h1 : strncasecmp t (ascii "Connection:") 11 = true
  · have := not_strncasecmp (u := ascii "Content-Length:") (m := 15) (k := 4) h1 (by decide) (by decide) (by decide)
    simp [h1, this]
  · simp only [h1, Bool.false_eq_true, if_false]

/-- the value of a `Content-Length:` line whose number is stored -/
def storedField (h : Bytes) : Option Bytes := (lengthField h).filter fun v => endSlot v.length = .unused

theorem lengthAfter_eq (n : ℤ) (t : Bytes) :
    lengthAfter n t = ((storedField t).map fun v => int32 (strtol v)).getD n := by
  unfold lengthAfter storedField
  rw [lengthValue_eq]
  cases lengthField t with
  | none => rfl
  | some v =>
    by_cases hslot : endSlot v.length = .unused
    · simp [hslot, Option.filter]
    · simp [hslot, Option.filter]

theorem field_host (a : Stream) (off : ℕ) (t : Bytes) :
    (a.field off t).host.map Prod.snd = (hostField t).or (a.host.map Prod.snd) := by
  unfold Stream.field hostField
  by_cases h1 : strncasecmp t (ascii "Connection:") 11 = true
  · have := not_strncasecmp (u := ascii "Host:") (m := 5) (k := 1) h1 (by decide) (by decide) (by decide)
    simp only [h1, this, Bool.false_eq_true, if_true, if_false]
    split_ifs <;> rfl
  by_cases h2 : strncasecmp t (ascii "Content-Length:") 15 = true
  · have := not_strncasecmp (u := ascii "Host:") (m := 5) (k := 1) h2 (by decide) (by decide) (by decide)
    simp only [h1, h2, this, Bool.false_eq_true, if_true, if_false]
    rfl
  · simp only [h1, h2, Bool.false_eq_true, if_false]
    split_ifs <;> rfl

/-- the last line that gives a value decides -/
theorem foldl_field {β γ : Type*} (f : Bytes → Option β) (g : β → γ) (hs : List Bytes) (n : γ) :
    hs.foldl (fun n h => ((f h).map g).getD n) n = ((hs.filterMap f).getLast?.map g).getD n := by
  induction hs generalizing n with
  | nil => rfl
  | cons h hs ih =>
    rw [List.foldl_cons, ih, List.filterMap_cons]
    cases f h with
    | none => rfl
    | some v =>
      simp only [List.getLast?_cons, Option.map_some, Option.getD_some]
      cases (hs.filterMap f).getLast? <;> rfl

/-- **The length that is kept** is the number of the last line whose number is stored. -/
theorem foldl_lengthAfter (hs : List Bytes) (n : ℤ) : hs.foldl lengthAfter n =
    (((hs.filterMap lengthField).filter fun v => endSlot v.length = .unused).getLast?.map
      fun v => int32 (strtol v)).getD n := by
  have hstored : (hs.filterMap lengthField).filter (fun v => endSlot v.length = .unused) = hs.filterMap storedField :=
    List.filter_filterMap
  rw [hstored, ← foldl_field]
  congr 1
  funext n h
  exact lengthAfter_eq n h

/-- some of the lines `hs`, the first of them at offset `off`, writes over memory in use -/
def headersFault (off : ℕ) : List Bytes → Bool
  | [] => false
  | h :: hs => faults off h || headersFault (off + h.length + 2) hs

/-- the lost numbers of one digit stay inside `writeBuffer`; the first of the lines is at offset `off` -/
def lostInside (off : ℕ) : List Bytes → Bool
  | [] => true
  | h :: hs => (decide ((lengthField h).map List.length ≠ some 1) || storedInWriteBuffer (off + h.length)) &&
    lostInside (off + h.length + 2) hs

theorem headersFault_iff {off : ℕ} {hs : List Bytes} : headersFault off hs = false ↔
    lostInside off hs = true ∧ ∀ v ∈ hs.filterMap lengthField, endSlot v.length ≠ .inUse := by
  induction hs generalizing off with
  | nil => simp [headersFault, lostInside]
  | cons l hs ih =>
    rw [headersFault, lostInside, Bool.or_eq_false_iff, ih, List.filterMap_cons, Bool.and_eq_true]
    cases hv : lengthField l with
    | none => simp [faults, lengthValue_eq, hv]
    | some v =>
      have hthis : endSlot v.length = .this ↔ v.length = 1 := ⟨endSlot_this, fun h => by rw [h]; rfl⟩
      simp only [faults, lengthValue_eq, hv, hthis, List.forall_mem_cons, Option.map_some, Ne, Option.some_inj,
        decide_eq_false_iff_not, Bool.or_eq_true, decide_eq_true_eq]
      generalize storedInWriteBuffer (off + l.length) = b
      grind

/-- a line of bytes that neither end a line nor a string -/
def TextLine (l : Bytes) : Prop := ∀ b ∈ l, inLine b = true ∧ b ≠ 0

theorem TextLine.clean {l : Bytes} (h : TextLine l) : Clean l := fun b hb => (h b hb).1

theorem TextLine.cText {l : Bytes} (h : TextLine l) : cText l = l := cText_eq_self fun h0 => (h 0 h0).2 rfl

theorem nextLine_text {l : Bytes} (h : TextLine l) (rest : Bytes) :
    nextLine (l ++ crlf ++ rest) = .complete l rest := by
  rw [List.append_assoc]
  exact nextLine_complete h.clean rest

namespace Stream

/-- what the header lines `hs` of a stream leave behind -/
structure HeadersRead (hs : List Bytes) (a b : Stream) : Prop where
  state : b.state = .header
  scanned : b.scanned = []
  url : b.url = a.url
  linger : b.linger = (a.linger || hs.any keepsAlive)
  host : b.host.map Prod.snd = (hs.filterMap hostField).getLast?.or (a.host.map Prod.snd)
  contentLength : b.contentLength = hs.foldl lengthAfter a.contentLength
  total : b.total = a.total
  ok : b.Ok

/-- **The loop passes the header lines.** -/
theorem run_headers {hs : List Bytes} (hh : ∀ h ∈ hs, h ≠ [] ∧ TextLine h) {a : Stream} (tail : Bytes)
    (hs' : a.state = .header) (hscan : a.scanned = []) (hok : a.Ok)
    (hrest : a.rest = (hs.map (· ++ crlf)).flatten ++ tail) (hf : headersFault a.pos hs = false) (ls : LineStatus) :
    ∃ b, a.run ls = b.run .lineOk ∧ b.rest = tail ∧ HeadersRead hs a b := by
  induction hs generalizing a ls with
  | nil =>
    refine ⟨a, run_status (by rw [hs']; decide) _ _, hrest, hs', hscan, rfl, ?_, rfl, rfl, rfl, hok⟩
    simp
  | cons h hs ih =>
    obtain ⟨hne, htext⟩ := hh h List.mem_cons_self
    have hl : nextLine a.rest = .complete h ((hs.map (· ++ crlf)).flatten ++ tail) := by
      rw [hrest, List.map_cons, List.flatten_cons, List.append_assoc]
      exact nextLine_text htext _
    have hc : cText h ≠ [] := by rw [htext.cText]; exact hne
    rw [headersFault, Bool.or_eq_false_iff] at hf
    have hpos : a.pos = a.start := by rw [pos, hscan]; rfl
    have hbody := body_header_go hs' hscan hc (by rw [htext.cText, ← hpos]; exact hf.1)
      ((hs.map (· ++ crlf)).flatten ++ tail)
    obtain ⟨h1, -⟩ := head_go (by rw [hs']; decide) hl (by rw [hbody]) ls []
    obtain ⟨g1, g2, g3, g4⟩ := afterHeader_line a h ((hs.map (· ++ crlf)).flatten ++ tail)
    obtain ⟨b, hb, hbrest, hr⟩ := ih (fun x hx => hh x (List.mem_cons_of_mem _ hx)) (g3.trans hs') g1
      (hok.afterHeader hscan _ _) g2 (by rw [pos_afterHeader]; exact hf.2) .lineOk
    refine ⟨b, ?_, hbrest, hr.state, hr.scanned, hr.url.trans g4, ?_, ?_, ?_, hr.total.trans (total_afterHeader hl), hr.ok⟩
    · rw [h1, hbody, hb]
    · rw [hr.linger, afterHeader, field_linger, htext.cText, List.any_cons, ← Bool.or_assoc]
      rfl
    · rw [hr.host, afterHeader, field_host, htext.cText, List.filterMap_cons]
      cases hostField h with
      | none => rfl
      | some v =>
        simp only [List.getLast?_cons]
        cases (hs.filterMap hostField).getLast? <;> rfl
    · rw [hr.contentLength, contentLength_afterHeader, htext.cText]
      rfl

/-- **A line that writes over memory in use ends the loop of the model.** -/
theorem run_headers_faults {hs : List Bytes} (hh : ∀ h ∈ hs, h ≠ [] ∧ TextLine h) {a : Stream} (tail : Bytes)
    (hs' : a.state = .header) (hscan : a.scanned = []) (hrest : a.rest = (hs.map (· ++ crlf)).flatten ++ tail)
    (hf : headersFault a.pos hs = true) (ls : LineStatus) : ∃ b, a.run ls = some (.undefined, b) := by
  induction hs generalizing a ls with
  | nil => cases hf
  | cons h hs ih =>
    obtain ⟨hne, htext⟩ := hh h List.mem_cons_self
    have hl : nextLine a.rest = .complete h ((hs.map (· ++ crlf)).flatten ++ tail) := by
      rw [hrest, List.map_cons, List.flatten_cons, List.append_assoc]
      exact nextLine_text htext _
    have hc : cText h ≠ [] := by rw [htext.cText]; exact hne
    have hpos : a.pos = a.start := by rw [pos, hscan]; rfl
    cases hfirst : faults a.start (cText h) with
    | true =>
      have hbody := body_header_faults hs' hscan hc hfirst ((hs.map (· ++ crlf)).flatten ++ tail)
      obtain ⟨h1, -⟩ := head_end (by rw [hs']; decide) hl (by rw [hbody]; simp) ls []
      exact ⟨_, h1.trans (congrArg some hbody)⟩
    | false =>
      have hbody := body_header_go hs' hscan hc hfirst ((hs.map (· ++ crlf)).flatten ++ tail)
      obtain ⟨h1, -⟩ := head_go (by rw [hs']; decide) hl (by rw [hbody]) ls []
      obtain ⟨g1, g2, g3, -⟩ := afterHeader_line a h ((hs.map (· ++ crlf)).flatten ++ tail)
      rw [headersFault, hpos, ← htext.cText, hfirst, Bool.false_or, htext.cText] at hf
      obtain ⟨b, hb⟩ := ih (fun x hx => hh x (List.mem_cons_of_mem _ hx)) (g3.trans hs') g1 g2
        (by rw [pos_afterHeader, hpos]; exact hf) .lineOk
      exact ⟨b, by rw [h1, hbody, hb]⟩

/-- the empty line and a complete body -/
theorem run_emptyLine {a : Stream} {body : Bytes} (hs : a.state = .header) (hscan : a.scanned = []) (hok : a.Ok)
    (ht : a.total ≤ requestSize) (hrest : a.rest = crlf ++ body) (hn : a.contentLength = body.length)
    (ls : LineStatus) : ∃ b, a.run ls = some (.getRequest, b) ∧ SameRequest b a := by
  have hne : a.state ≠ .content := by rw [hs]; decide
  have hl : nextLine a.rest = .complete [] body := by
    rw [hrest]
    exact nextLine_text (l := []) (fun _ h => by cases h) body
  by_cases hz : a.contentLength = 0
  · have hbody := body_emptyLine_end hs hscan (l := []) rfl hz body
    obtain ⟨h1, -⟩ := head_end hne hl (by rw [hbody]; simp) ls []
    exact ⟨(a.passed [] body).newLine, by rw [h1, hbody], ⟨rfl, rfl, rfl, rfl⟩⟩
  · have hbody := body_emptyLine_go hs hscan (l := []) rfl hz body
    obtain ⟨h1, -⟩ := head_go hne hl (by rw [hbody]) ls []
    have htot := total_bodyStart hl
    have hok' := hok.bodyStart [] body
    have hdone : (a.bodyStart [] body).bodyDone := by
      rw [bodyDone_iff hok' (by omega)]
      left
      rw [show (a.bodyStart [] body).contentLength = a.contentLength from rfl, hn]
      exact (by unfold Stream.total; push_cast; exact (Int.add_comm _ _).le)
    have hcut := hok'.cut (show 0 < a.contentLength by omega)
    refine ⟨_, by rw [h1, hbody, run_content rfl, proceed_done rfl hdone], ?_⟩
    exact ⟨hcut.url, hcut.host, hcut.linger, hcut.contentLength⟩

end Stream

/-! ## Whole requests -/

namespace Request

/-- the offset of the first header line -/
def headerStart (q : Request) : ℕ := q.line.length + 2

theorem WellFormed.stored_fold {q : Request} (h : q.WellFormed) (hslots : ∀ v ∈ q.lengths, endSlot v.length ≠ .inUse) :
    q.headers.foldl lengthAfter 0 = q.storedLength := by
  have hunused : q.lengths.filter (fun v => endSlot v.length = .unused) = q.lengths.filter fun v => v.length ≠ 1 := by
    refine List.filter_congr fun v hv => ?_
    have := endSlot_iff.1 (hslots v hv)
    simp only [List.mem_cons, List.not_mem_nil, or_false] at this
    rcases this with h | h | h | h | h | h | h <;> rw [h] <;> rfl
  rw [foldl_lengthAfter]
  change ((q.lengths.filter fun v => endSlot v.length = .unused).getLast?.map _).getD 0 = _
  rw [hunused, storedLength]
  cases hl : (q.lengths.filter fun v => v.length ≠ 1).getLast? with
  | none => rfl
  | some v =>
    have hmem : v ∈ q.lengths := List.mem_of_mem_filter (List.mem_of_getLast? hl)
    obtain ⟨x, hx, hv⟩ := List.mem_filterMap.1 hmem
    simp only [Option.map_some, Option.getD_some]
    rw [(int32_strtol (endSlot_le (hslots v hmem))).1, denoted_digits (h.header_length x hx v hv).2]

/-- **The stream parser on a well-formed request.** It reads the request line, and goes on with the header lines. -/
theorem WellFormed.run_line {q : Request} (h : q.WellFormed) :
    ∃ a : Stream, (Stream.fresh.load q.bytes).run .lineOk = a.run .lineOk ∧ a.state = .header ∧ a.scanned = [] ∧ a.Ok ∧
      a.rest = (q.headers.map (· ++ crlf)).flatten ++ (crlf ++ q.body) ∧ a.pos = q.headerStart ∧
      a.total = q.bytes.length ∧ a.url.map Prod.snd = some q.path ∧ a.linger = false ∧ a.host = none ∧
      a.contentLength = 0 := by
  have hline : TextLine q.line := fun b hb => h.line_byte hb
  obtain ⟨off, htarget⟩ := h.requestTarget
  set rest := (q.headers.map (· ++ crlf)).flatten ++ (crlf ++ q.body) with hrest
  have hl : nextLine (Stream.fresh.load q.bytes).rest = .complete q.line rest := by
    have hb : (Stream.fresh.load q.bytes).rest = q.line ++ crlf ++ rest := by
      simp [Stream.load, Stream.fresh, bytes, hrest]
    rw [hb]
    exact nextLine_text hline rest
  have hbody := Stream.body_requestLine (a := (Stream.fresh.load q.bytes).passed q.line rest) rfl
  rw [Stream.cText_passed rfl, hline.cText, htarget] at hbody
  obtain ⟨h1, -⟩ := Stream.head_go (a := Stream.fresh.load q.bytes) (fun h => by cases h) hl (by rw [hbody]) .lineOk []
  have hok : ((Stream.fresh.load q.bytes).passed q.line rest).Ok := by
    constructor <;> simp [Stream.passed, Stream.load, Stream.fresh]
  have hok' := hok.requestLine rfl
  have htot : ((Stream.fresh.load q.bytes).passed q.line rest).body.2.total = q.bytes.length := by
    rw [Stream.body_total, Stream.total_passed hl, Stream.total_load]
    exact Nat.zero_add _
  have hpos : ((Stream.fresh.load q.bytes).passed q.line rest).pos = q.headerStart := by
    rw [Stream.pos_passed]
    exact congrArg (· + 2) (Nat.zero_add q.line.length)
  rw [hbody] at hok' htot
  exact ⟨_, by rw [h1, hbody], rfl, rfl, hok', rfl, hpos, htot, rfl, rfl, rfl, rfl⟩

/-- the request is read as it is meant: its lengths are stored, and the numbers of one digit are lost without harm -/
structure Readable (q : Request) : Prop extends q.LengthsStored where
  lost : lostInside q.headerStart q.headers = true

theorem LengthsStored.slots_free {q : Request} (h : q.LengthsStored) : ∀ v ∈ q.lengths, endSlot v.length ≠ .inUse :=
  fun v hv => endSlot_iff.2 (List.mem_cons_of_mem _ (h.slots v hv))

/-- a request whose lines write over no memory in use, and whose length is kept -/
theorem WellFormed.readable {q : Request} (h : q.WellFormed) (hf : headersFault q.headerStart q.headers = false)
    (hstored : q.headers.foldl lengthAfter 0 = q.contentLength) : q.Readable := by
  obtain ⟨hlost, hslots⟩ := headersFault_iff.1 hf
  rw [h.stored_fold hslots] at hstored
  refine ⟨⟨fun v hv => ?_, by exact_mod_cast hstored⟩, hlost⟩
  obtain ⟨x, hx, hval⟩ := List.mem_filterMap.1 hv
  have hpos := List.length_pos_iff.2 (h.header_length x hx v hval).1
  have := endSlot_iff.1 (hslots v hv)
  simp only [List.mem_cons, List.not_mem_nil, or_false] at this ⊢
  omega

/-- a request without `Content-Length` lines -/
theorem readable_of_lengths {q : Request} (h : q.lengths = []) : q.Readable := by
  refine ⟨⟨by simp [h], by simp [storedLength, contentLength, h]⟩, ?_⟩
  have hnone : ∀ l ∈ q.headers, lengthField l = none := List.filterMap_eq_nil_iff.1 h
  have hlost : ∀ (hs : List Bytes) (off : ℕ), (∀ l ∈ hs, lengthField l = none) → lostInside off hs = true := by
    intro hs
    induction hs with
    | nil => exact fun _ _ => rfl
    | cons l hs ih =>
      intro off hl
      rw [lostInside, ih _ fun x hx => hl x (List.mem_cons_of_mem _ hx), hl l List.mem_cons_self]
      rfl
  exact hlost _ _ hnone

/-- **The stream parser reads a well-formed request correctly.** -/
theorem WellFormed.run {q : Request} (h : q.WellFormed) (hread : q.Readable) (hlen : q.bytes.length ≤ requestSize) :
    ∃ b, (Stream.fresh.load q.bytes).run .lineOk = some (.getRequest, b) ∧ b.url.map Prod.snd = some q.path ∧
      b.linger = q.keepAlive ∧ b.host.map Prod.snd = q.host ∧ b.contentLength = q.contentLength := by
  have hf := headersFault_iff.2 ⟨hread.lost, hread.slots_free⟩
  have hstored : q.headers.foldl lengthAfter 0 = q.contentLength := by
    rw [h.stored_fold hread.slots_free, hread.stored]
  obtain ⟨a, hrun, hs, hscan, hok, hrest, hpos, htot, hurl, hlinger, hhost, hzero⟩ := h.run_line
  obtain ⟨b, hb, hbrest, hr⟩ := Stream.run_headers h.header_line (crlf ++ q.body) hs hscan hok hrest (hpos ▸ hf) .lineOk
  have hlength : b.contentLength = q.contentLength := by rw [hr.contentLength, hzero, hstored]
  obtain ⟨d, hd, hsame⟩ := Stream.run_emptyLine hr.state hr.scanned hr.ok (by rw [hr.total, htot]; exact hlen) hbrest
    (by rw [hlength, h.body]) .lineOk
  refine ⟨d, by rw [hrun, hb, hd], ?_, ?_, ?_, ?_⟩
  · rw [hsame.url, hr.url, hurl]
  · rw [hsame.linger, hr.linger, hlinger]
    rfl
  · rw [hsame.host, hr.host, hhost]
    exact Option.or_none
  · rw [hsame.contentLength, hlength]

/-- a well-formed request that is read at all is kept with the length that is stored -/
theorem WellFormed.run_stored {q : Request} (h : q.WellFormed) {b : Stream}
    (hrun : (Stream.fresh.load q.bytes).run .lineOk = some (.getRequest, b)) :
    headersFault q.headerStart q.headers = false ∧ b.contentLength = q.headers.foldl lengthAfter 0 := by
  obtain ⟨a, hline, hs, hscan, hok, hrest, hpos, -, -, -, -, hzero⟩ := h.run_line
  rw [hline] at hrun
  have hf : headersFault q.headerStart q.headers = false := by
    by_contra hf
    obtain ⟨d, hd⟩ := Stream.run_headers_faults h.header_line (crlf ++ q.body) hs hscan hrest
      (hpos ▸ Bool.not_eq_false _ ▸ hf) .lineOk
    rw [hd] at hrun
    cases hrun
  refine ⟨hf, ?_⟩
  obtain ⟨d, hd, hdrest, hr⟩ := Stream.run_headers h.header_line (crlf ++ q.body) hs hscan hok hrest (hpos ▸ hf) .lineOk
  rw [hd] at hrun
  have hempty : nextLine d.rest = .complete [] q.body := by
    rw [hdrest]
    exact nextLine_text (l := []) (fun _ h => by cases h) q.body
  rw [Stream.run_complete (Or.inl (by rw [hr.state]; decide)) hempty] at hrun
  have hlength := (Stream.emptyLine_some (a := d.passed [] q.body) hr.state (Stream.cText_passed hr.scanned [] q.body)
    hrun).2
  rw [hlength, ← hzero, ← hr.contentLength]
  rfl

/-- a request without a body for which the loop ends is readable, or has written over memory in use -/
theorem WellFormed.readable_of_run {q : Request} (h : q.WellFormed) (hbody : q.body = [])
    (hlen : q.bytes.length ≤ readBufferSize) {x : HttpCode × Stream}
    (hrun : (Stream.fresh.load q.bytes).run .lineOk = some x) : x.1 = .undefined ∨ q.Readable := by
  obtain ⟨a, hline, hs, hscan, hok, hrest, hpos, htot, -, -, -, hzero⟩ := h.run_line
  rw [hline] at hrun
  cases hf : headersFault q.headerStart q.headers with
  | true =>
    obtain ⟨b, hb⟩ := Stream.run_headers_faults h.header_line (crlf ++ q.body) hs hscan hrest (hpos ▸ hf) .lineOk
    rw [hb] at hrun
    cases hrun
    exact Or.inl rfl
  | false =>
    obtain ⟨d, hd, hdrest, hr⟩ := Stream.run_headers h.header_line (crlf ++ q.body) hs hscan hok hrest (hpos ▸ hf) .lineOk
    have hempty : nextLine d.rest = .complete [] q.body := by
      rw [hdrest]
      exact nextLine_text (l := []) (fun _ h => by cases h) q.body
    have hfit : d.Fits := ⟨hr.ok.length_ge, hr.ok.length_lt, by rw [hr.total, htot]; exact hlen⟩
    have hyields := Stream.emptyLine_yields (a := d.passed [] q.body) hr.state
      (Stream.cText_passed hr.scanned [] q.body) (hfit.passed hempty)
    rw [hd, Stream.run_complete (Or.inl (by rw [hr.state]; decide)) hempty] at hrun
    -- no byte of a body is there, so that the loop would spin if the length were not zero
    have hspins : ¬ bodySpins d.contentLength q.body = true := fun hspin => by
      rw [hyields.1.2 hspin] at hrun
      cases hrun
    rw [hr.contentLength, hzero, hbody] at hspins
    have hstored := h.stored_fold (headersFault_iff.1 hf).2
    have hnone : q.contentLength = 0 := by rw [← h.body, hbody]; rfl
    refine Or.inr (h.readable hf ?_)
    rw [hstored] at hspins ⊢
    simp only [bodySpins, paired, decide_eq_true_eq, List.length_nil, Nat.cast_zero, Nat.cast_pos, and_true, not_lt]
      at hspins
    omega

theorem bytes_ne_nil (q : Request) : q.bytes ≠ [] := by
  refine List.length_pos_iff.1 ?_
  simp only [bytes, line, List.length_append, List.length_cons]
  omega

end Request

/-- a request that the stream parser completes, received on a freshly initialised connection -/
theorem processRead_doRequest {q : Bytes} (hlen : q.length ≤ readBufferSize) (fs : FileSystem) (c : Conn) (fd : ℤ)
    (e : Env) {b : Stream} (h : (Stream.fresh.load q).run .lineOk = some (.getRequest, b)) (hn : 0 ≤ b.contentLength) :
    ∃ r', processRead fs ((c.initConn fd e).1.setRead (ReadSide.fresh.load q)) (c.initConn fd e).2 =
        some (doRequest fs ((c.initConn fd e).1.setRead r') (c.initConn fd e).2) ∧ SameRequest r'.stream b := by
  obtain ⟨r', hloop, hsame, hin⟩ := loop_fresh hlen h
  refine ⟨r', ?_, hsame⟩
  unfold processRead
  rw [show ((c.initConn fd e).1.setRead (ReadSide.fresh.load q)).toReadSide = ReadSide.fresh.load q from rfl, hloop]
  dsimp only
  rw [Conn.storeOwn_none (c := ((c.initConn fd e).1.setRead (ReadSide.fresh.load q)).setRead r') (hin (Or.inr hn))]
  rfl

/-- `processRead` calls `doRequest` only when the loop says that there is a request -/
theorem doRequest_loop {fs : FileSystem} {c d : Conn} {e : Env} (h : processRead fs c e = some (doRequest fs d e)) :
    ∃ r o, processReadLoop loopRounds .lineOk c.toReadSide = some (.getRequest, r) ∧
      d.toReadSide = { r with outside := o } := by
  unfold processRead at h
  cases hloop : processReadLoop loopRounds .lineOk c.toReadSide with
  | none => rw [hloop] at h; cases h
  | some x =>
    obtain ⟨code, r⟩ := x
    rw [hloop] at h
    by_cases hcode : code = .getRequest
    · subst hcode
      obtain ⟨fd, o, hstore⟩ := (c.setRead r).storeOwn_eq
      simp only [hstore, Option.map_some, Option.some.injEq] at h
      refine ⟨r, o, rfl, ?_⟩
      rw [← doRequest_readSide fs d e, ← h, doRequest_readSide]
      rfl
    · -- any other code leaves the kernel's side as it is, and `doRequest` does not
      have hcalls := doRequest_calls fs d e
      rcases processReadLoop_code hloop with hc | hc | hc | hc <;> obtain rfl : code = _ := hc
      · rw [← Option.some.inj h] at hcalls
        exact absurd hcalls (lt_irrefl _)
      · rw [← Option.some.inj h] at hcalls
        exact absurd hcalls (lt_irrefl _)
      · exact absurd rfl hcode
      · rw [← Option.some.inj h] at hcalls
        exact absurd hcalls (lt_irrefl _)

/-- **Completeness of the parser.** A well-formed request, received by one `read` on a freshly initialised connection,
makes `processRead` end with one call of `doRequest`, in a state whose `url`, `linger`, `host` and `contentLength` are
those of the request, with no memory in use written over, if and only if the request is readable. -/
theorem processRead_complete_iff {q : Request} (hq : q.WellFormed) (hlen : q.bytes.length ≤ requestSize)
    (fs : FileSystem) (c : Conn) (fd : ℤ) (e : Env) :
    (∃ r r', read [.data q.bytes, .eagain] (c.initConn fd e).1.toReadSide = some (true, r) ∧
      processRead fs ((c.initConn fd e).1.setRead r) (c.initConn fd e).2 =
        some (doRequest fs ((c.initConn fd e).1.setRead r') (c.initConn fd e).2) ∧
      r'.url.map r'.readBuffer.cstr = some q.path ∧ r'.linger = q.keepAlive ∧
      r'.host.map r'.readBuffer.cstr = q.host ∧ r'.contentLength = q.contentLength) ↔ q.Readable := by
  have hbuffer : q.bytes.length ≤ readBufferSize := hlen.trans (by decide)
  have hread := read_chunk (r := ReadSide.fresh) q.bytes_ne_nil (by
    rw [show ReadSide.fresh.readIndex = 0 from rfl, Nat.zero_add]; exact hbuffer)
  obtain ⟨hinv, hstream⟩ := load_stream inv_fresh q.bytes (by
    rw [show ReadSide.fresh.readIndex = 0 from rfl, Nat.zero_add]; exact hbuffer) (Or.inr ⟨rfl, rfl⟩)
  constructor
  · rintro ⟨r, r', hr, hproc, -, -, -, hlength⟩
    obtain rfl : ReadSide.fresh.load q.bytes = r := congrArg Prod.snd (Option.some.inj (hread.symm.trans hr))
    obtain ⟨r'', o, hloop, hside⟩ := doRequest_loop hproc
    obtain ⟨b, hrun, hend⟩ := run_of_loop hinv hloop
    rw [hstream, stream_fresh] at hrun
    obtain ⟨hf, hstored⟩ := hq.run_stored hrun
    have hsame := congrArg (fun r : ReadSide => r.contentLength) hside
    change r'.contentLength = r''.contentLength at hsame
    refine hq.readable hf ?_
    rw [← hstored, ← hlength, hsame]
    exact hend.request.contentLength.symm
  · intro hmeant
    obtain ⟨b, hb, hurl, hlinger, hhost, hcl⟩ := hq.run hmeant hlen
    obtain ⟨r', hproc, hsame⟩ := processRead_doRequest hbuffer fs c fd e hb (by rw [hcl]; positivity)
    refine ⟨_, r', hread, hproc, ?_, hsame.linger.trans hlinger, ?_, hsame.contentLength.trans hcl⟩
    · rw [← span_map_snd, ← hurl]
      exact congrArg (Option.map Prod.snd) hsame.url
    · rw [← span_map_snd, ← hhost]
      exact congrArg (Option.map Prod.snd) hsame.host

/-- a request with three header lines and a body -/
def sampleRequest : Request where
  method := ascii "get"
  blank1 := space
  target := ascii "http://localhost/index.html"
  blank2 := tab
  version := ascii "HTTP/1.1"
  headers := [ascii "Connection: Keep-Alive", ascii "Content-Length: 03", ascii "Host:localhost"]
  body := ascii "\r\n\n"

theorem sampleRequest_wellFormed : sampleRequest.WellFormed := by
  constructor <;> decide +kernel

theorem sampleRequest_readable : sampleRequest.Readable :=
  ⟨by constructor <;> decide +kernel, by decide +kernel⟩

theorem processRead_complete_sample : ∃ r r',
    read [.data sampleRequest.bytes, .eagain] (Conn.blank.initConn 7 Env.blank).1.toReadSide = some (true, r) ∧
      processRead (plainFiles 10) ((Conn.blank.initConn 7 Env.blank).1.setRead r) (Conn.blank.initConn 7 Env.blank).2 =
        some (doRequest (plainFiles 10) ((Conn.blank.initConn 7 Env.blank).1.setRead r')
          (Conn.blank.initConn 7 Env.blank).2) ∧
      r'.url.map r'.readBuffer.cstr = some sampleRequest.path ∧ r'.linger = sampleRequest.keepAlive ∧
      r'.host.map r'.readBuffer.cstr = sampleRequest.host ∧ r'.contentLength = sampleRequest.contentLength :=
  (processRead_complete_iff sampleRequest_wellFormed (by decide +kernel) (plainFiles 10) Conn.blank 7
    Env.blank).2 sampleRequest_readable

/-- a request with a body of three bytes, the length given with one digit -/
def oneDigitRequest : Request where
  method := ascii "GET"
  blank1 := space
  target := ascii "/"
  blank2 := space
  version := ascii "HTTP/1.1"
  headers := [ascii "Content-Length: 3"]
  body := ascii "abc"

/-- `processRead` has called `doRequest` and kept the length 0 -/
theorem processRead_oneDigit : oneDigitRequest.WellFormed ∧ oneDigitRequest.bytes.length ≤ requestSize ∧
    oneDigitRequest.contentLength = 3 ∧
    ((read [.data oneDigitRequest.bytes, .eagain] (Conn.blank.initConn 7 Env.blank).1.toReadSide).bind fun x =>
      (processRead (plainFiles 10) ((Conn.blank.initConn 7 Env.blank).1.setRead x.2)
        (Conn.blank.initConn 7 Env.blank).2).map fun y => (y.1, y.2.1.contentLength)) = some (.fileRequest, 0) := by
  refine ⟨?_, by decide +kernel, by decide +kernel, by decide +kernel⟩
  constructor <;> decide +kernel

end WebServer.HttpConn
