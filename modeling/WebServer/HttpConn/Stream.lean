/-
The request parser as a function of the bytes received: the same rounds as `processRead`'s loop, but on byte strings
instead of a buffer with pointers.

A `Stream` holds the bytes of the current line that were looked at (`scanned`), the bytes after them (`rest`), and what
has been parsed so far, with `url` and `host` as strings. Each round either splits off a line (`Stream.test`, by
`nextLine`) and hands its text to the handler of the state (`Stream.body`), or stops.

The handlers work on the text of a line up to its first zero byte:
- `requestTarget`: the verdict on a request line and the url it leaves behind;
- `Stream.field`: the effect of a header line, unless it is one that writes over memory in use (`faults`);
- in the body state, the test whether `contentLength` bytes are there. A complete body stores a zero at the offset
  `contentLength` from the line start, which cuts strings that span that place (`cutString`).

`HttpConn.Refine` proves that the code's parser computes exactly this.
-/
import WebServer.HttpConn.Lines

namespace WebServer.HttpConn

open WebServer

/-! ## Texts -/

/-- the C string at the start of a byte string -/
def cText (l : Bytes) : Bytes := l.takeWhile (· ≠ 0)

/-- the text without leading blanks -/
def skipBlanks (s : Bytes) : Bytes := s.drop (strspn s blanks)

/-- the target `u`, at offset `off`, and the version `v` of a request line -/
def targetOf (off : ℕ) (u v : Bytes) : HttpCode × Option (ℕ × Bytes) :=
  if strcasecmp v (ascii "HTTP/1.1") then
    if strncasecmp u (ascii "http://") 7 then
      match strchr (u.drop 7) slash with
      | none => (.badRequest, none)
      | some k => (.noRequest, some (off + 7 + k, u.drop (7 + k)))
    else if u.head? = some slash then (.noRequest, some (off, u))
    else (.badRequest, some (off, u))
  else (.badRequest, some (off, u))

/-- `parseRequestLine` on a text: the verdict, and the offset and bytes of the string at `url` -/
def requestTarget (t : Bytes) : HttpCode × Option (ℕ × Bytes) :=
  match strpbrk t blanks with
  | none => (.badRequest, none)
  | some i =>
    let s := t.drop (i + 1)
    if strcasecmp (t.take i) (ascii "GET") then
      match strpbrk s blanks with
      | none => (.badRequest, some (i + 1, s))
      | some j => targetOf (i + 1) (s.take j) (s.drop (j + 1))
    else (.badRequest, some (i + 1, s))

/-- the value of a header line that is read as a Content-Length field -/
def lengthValue (t : Bytes) : Option Bytes :=
  if strncasecmp t (ascii "Connection:") 11 then none
  else if strncasecmp t (ascii "Content-Length:") 15 then some (skipBlanks (t.drop 15))
  else none

/-- `contentLength` after the header line with text `t`: the number is stored unless the end pointer of `strtol` is
stored over `this` -/
def lengthAfter (n : ℤ) (t : Bytes) : ℤ :=
  match lengthValue t with
  | some v => if endSlot v.length = .unused then int32 (strtol v) else n
  | none => n

/-- the header line with text `t` at offset `off` makes the parser write over memory that is in use -/
def faults (off : ℕ) (t : Bytes) : Bool :=
  match lengthValue t with
  | some v => endSlot v.length = .inUse ∨ endSlot v.length = .this ∧ ¬ storedInWriteBuffer (off + t.length)
  | none => false

/-- a zero stored at offset `k` of the stream: what is left of a string -/
def cutString (k : ℤ) (p : ℕ × Bytes) : ℕ × Bytes :=
  if (p.1 : ℤ) ≤ k then (p.1, p.2.take (k - p.1).toNat) else p

/-! ## The parser -/

structure Stream where
  state : CheckState
  /-- offset of the current line -/
  start : ℕ
  /-- bytes of the current line that the scanner has passed -/
  scanned : Bytes
  /-- bytes received and not looked at -/
  rest : Bytes
  url : Option (ℕ × Bytes)
  host : Option (ℕ × Bytes)
  linger : Bool
  contentLength : ℤ
deriving DecidableEq, Repr

namespace Stream

/-- the scanner's offset -/
def pos (a : Stream) : ℕ := a.start + a.scanned.length

/-- the number of bytes received -/
def total (a : Stream) : ℕ := a.pos + a.rest.length

def fresh : Stream := ⟨.requestLine, 0, [], [], none, none, false, 0⟩

def load (a : Stream) (q : Bytes) : Stream := { a with rest := a.rest ++ q }

/-- the effect of the header line `text` at offset `off` -/
def field (off : ℕ) (text : Bytes) (a : Stream) : Stream :=
  if strncasecmp text (ascii "Connection:") 11 then
    if strcasecmp (skipBlanks (text.drop 11)) (ascii "keep-alive") then { a with linger := true } else a
  else if strncasecmp text (ascii "Content-Length:") 15 then
    { a with contentLength := lengthAfter a.contentLength text }
  else if strncasecmp text (ascii "Host:") 5 then
    { a with host := some (off + 5 + strspn (text.drop 5) blanks, skipBlanks (text.drop 5)) }
  else a

/-- the stream when the scanner stops at the line found in `rest` -/
def afterLine (a : Stream) : Line → LineStatus × Stream
  | .complete l rest => (.lineOk, { a with scanned := a.scanned ++ l ++ [0, 0], rest := rest })
  | .waiting l => (.lineOpen, { a with scanned := a.scanned ++ l, rest := a.rest.drop l.length })
  | .malformed l => (.lineBad, { a with scanned := a.scanned ++ l, rest := a.rest.drop l.length })
  | .runOut l => (.lineOk, { a with scanned := a.scanned ++ l, rest := [] })

def test (ls : LineStatus) (a : Stream) : LineStatus × Stream :=
  if a.state = .content ∧ ls = .lineOk then (ls, a) else a.afterLine (nextLine a.rest)

/-- the body of the request is complete -/
def bodyDone (a : Stream) : Prop := (a.total : ℤ) ≥ int32 (a.contentLength + a.pos)

instance (a : Stream) : Decidable a.bodyDone := inferInstanceAs (Decidable (_ ≥ _))

/-- the strings after the store `text[contentLength] = '\0'` -/
def cut (a : Stream) (k : ℤ) : Stream := { a with url := a.url.map (cutString k), host := a.host.map (cutString k) }

/-- the next line starts where the scanner is -/
def newLine (a : Stream) : Stream := { a with start := a.pos, scanned := [] }

def body (a : Stream) : HttpCode × Stream :=
  let text := cText a.scanned
  let b := a.newLine
  match a.state with
  | .requestLine =>
    let target := requestTarget text
    (target.1, { b with
      url := target.2.map fun p => (a.start + p.1, p.2)
      state := if target.1 = .noRequest then .header else .requestLine })
  | .header =>
    if text = [] then
      if a.contentLength ≠ 0 then (.noRequest, { b with state := .content }) else (.getRequest, b)
    else if faults a.start text then (.undefined, b)
    else (.noRequest, b.field a.start text)
  | .content => if a.bodyDone then (.getRequest, b.cut (a.start + a.contentLength)) else (.noRequest, b)

/-- the line status for the round after an unfinished line -/
def statusAfter (s : CheckState) : LineStatus := if s = .content then .lineOpen else .lineOk

def round : LineStatus × Stream → (LineStatus × Stream) ⊕ (HttpCode × Stream)
  | (ls, a) =>
    match a.test ls with
    | (.lineOk, a) =>
      match a.body with
      | (.badRequest, b) => .inr (.badRequest, b)
      | (.getRequest, b) => .inr (.getRequest, b)
      | (.undefined, b) => .inr (.undefined, b)
      | (_, b) => .inl (statusAfter a.state, b)
    | (_, a) => .inr (.noRequest, a)

/-- the phases that a state has before it -/
def phase (ls : LineStatus) : CheckState → ℕ
  | .requestLine => 3
  | .header => 2
  | .content => if ls = .lineOpen then 0 else 1

/-- bytes of the current line and after it, and the phases still to come -/
def rank (x : LineStatus × Stream) : ℕ := x.2.scanned.length + x.2.rest.length + phase x.1 x.2.state

/-- what the loop makes of the bytes received; `none` when it never ends -/
def run (ls : LineStatus) (a : Stream) : Option (HttpCode × Stream) := Loop.outcome round rank (ls, a)

end Stream

/-! ## Facts about texts -/

/-- a string that ends before the zero is not cut -/
theorem cutString_of_le {k : ℤ} {p : ℕ × Bytes} (h : (p.1 + p.2.length : ℕ) ≤ k) : cutString k p = p := by
  unfold cutString
  rw [if_pos (by omega), List.take_of_length_le (by omega)]

theorem cText_eq_self {l : Bytes} (h : (0 : UInt8) ∉ l) : cText l = l := by
  refine List.takeWhile_eq_self_iff.2 fun x hx => ?_
  have : x ≠ 0 := fun he => h (he ▸ hx)
  simpa using this

theorem cText_append_zero (l m : Bytes) : cText (l ++ 0 :: m) = cText l := by
  induction l with
  | nil => simp [cText]
  | cons b l ih =>
    unfold cText at *
    by_cases hb : b = 0
    · simp [hb]
    · simpa [hb] using ih

theorem length_cText_le (l : Bytes) : (cText l).length ≤ l.length := (List.takeWhile_sublist _).length_le

theorem targetOf_le {off : ℕ} {u v : Bytes} {p : ℕ × Bytes} (h : (targetOf off u v).2 = some p) :
    p.1 + p.2.length ≤ off + u.length := by
  unfold targetOf at h
  split_ifs at h
  · split at h
    · cases h
    · rename_i k hk
      have := strchr_lt hk
      cases h
      simp only [List.length_drop] at this ⊢
      omega
  all_goals cases h; exact le_rfl

/-- the string left at `url` lies inside the text -/
theorem requestTarget_le {t : Bytes} {p : ℕ × Bytes} (h : (requestTarget t).2 = some p) :
    p.1 + p.2.length ≤ t.length := by
  unfold requestTarget at h
  split at h
  · cases h
  · rename_i i hi
    have hi' := strpbrk_lt hi
    dsimp only at h
    split_ifs at h with h1
    · split at h
      · cases h; simp only [List.length_drop]; omega
      · have := targetOf_le h
        simp only [List.length_take, List.length_drop] at this
        omega
    · cases h; simp only [List.length_drop]; omega

theorem targetOf_code (off : ℕ) (u v : Bytes) :
    (targetOf off u v).1 = .badRequest ∨ (targetOf off u v).1 = .noRequest := by
  unfold targetOf
  split_ifs
  · split
    · exact Or.inl rfl
    · exact Or.inr rfl
  · exact Or.inr rfl
  · exact Or.inl rfl
  · exact Or.inl rfl

theorem requestTarget_code (t : Bytes) : (requestTarget t).1 = .badRequest ∨ (requestTarget t).1 = .noRequest := by
  unfold requestTarget
  split
  · exact Or.inl rfl
  · dsimp only
    split_ifs
    · split
      · exact Or.inl rfl
      · exact targetOf_code _ _ _
    · exact Or.inl rfl

end WebServer.HttpConn
