/-
The request parser of `http_conn` (webServer/http_conn.cpp): `parseLine`, `parseRequestLine`, `parseHeader`,
`parseContext` and the loop of `processRead`, over the fields of the class that parsing reads and writes.

The parser works in place. It overwrites line ends and separators in `readBuffer` with zeros and keeps `url`, `version`
and `host` as pointers into the buffer, here offsets (`none` is a null pointer). `checkIndex`, `startLine` and
`checkState` survive from one call of `processRead` to the next.

Conventions of the model:
- `strtol` stores the end of the number through `&text + strlen(text)`, into the word of the stack that `endSlot` names.
  If that is `this`, the number is stored behind a wrong pointer instead of into `contentLength`: into `writeBuffer`,
  which is written before it is read, or at the end of the buffer over members in use (`storedInWriteBuffer`). If memory
  in use is written over, on the stack or there, the code is `undefined`, and the model says nothing about what the
  program does from there on;
- the store `text[contentLength] = '\0'` in front of `readBuffer` is left in `outside` for the caller, which knows the
  object and its neighbours. It is never made behind `readBuffer` (`parseContext_inside`), except at the first byte of
  `readIndex` when the buffer is full, and that byte is 0 then;
- for the same reason a string that runs to the end of `readBuffer` stops there;
- `int` arithmetic wraps (`int32`);
- `processReadLoop` runs the `while` loop for a number of rounds; `none` means that it has not ended by then. The loop
  of `processRead` calls `doRequest` in tail position, here the code `getRequest`.
-/
import WebServer.Core.CString
import WebServer.Core.Loop
import WebServer.HttpConn.Layout

namespace WebServer.HttpConn

open WebServer

/-! ## Data model -/

/-- READ_BUFFER_SIZE -/
abbrev readBufferSize : ℕ := 2048

/-- METHOD -/
inductive Method where
  | get | post | head | put | delete | trace | options | connect
deriving DecidableEq, Repr

/-- CHECK_STATE: the main state machine -/
inductive CheckState where
  | requestLine | header | content
deriving DecidableEq, Repr

/-- HTTP_CODE: the results of parsing and of preparing the answer -/
inductive HttpCode where
  | noRequest | getRequest | badRequest | noResource | forbiddenRequest | fileRequest | internalError
  | closedConnection
  /-- no code of the source: the parser has written over memory that is in use -/
  | undefined
deriving DecidableEq, Repr

/-- LINE_STATUS: the results of the line scanner -/
inductive LineStatus where
  | lineOk | lineBad | lineOpen
deriving DecidableEq, Repr

/-- the members of `http_conn` that hold the request -/
structure ReadSide where
  readBuffer : Buf readBufferSize
  /-- one past the last byte received -/
  readIndex : ℕ
  /-- the byte the scanner looks at next -/
  checkIndex : ℕ
  /-- first byte of the line being read -/
  startLine : ℕ
  checkState : CheckState
  method : Method
  url : Option ℕ
  version : Option ℕ
  host : Option ℕ
  contentLength : ℤ
  linger : Bool
  /-- a zero that `parseContext` has stored in front of `readBuffer`, as an offset from its first byte -/
  outside : Option { i : ℤ // i < 0 }

/-- the part of `init()` that resets the request -/
def ReadSide.fresh : ReadSide where
  readBuffer := Buf.zero
  readIndex := 0
  checkIndex := 0
  startLine := 0
  checkState := .requestLine
  method := .get
  url := none
  version := none
  host := none
  contentLength := 0
  linger := false
  outside := none

/-- the bytes a `recv` stores -/
def ReadSide.load (r : ReadSide) (l : Bytes) : ReadSide :=
  { r with readBuffer := r.readBuffer.write r.readIndex l, readIndex := r.readIndex + l.length }

/-! ## The line scanner -/

/-- the `for` loop of `parseLine`, with `k` bytes left to look at -/
def parseLineLoop : ℕ → ReadSide → LineStatus × ReadSide
  -- the loop runs out of bytes: the source answers LINE_OK here too
  | 0, r => (.lineOk, r)
  | k + 1, r =>
    let temp := r.readBuffer.get r.checkIndex
    if temp = cr then
      if r.checkIndex + 1 = r.readIndex then (.lineOpen, r)
      else if r.readBuffer.get (r.checkIndex + 1) = lf then
        (.lineOk, { r with
          readBuffer := (r.readBuffer.set r.checkIndex 0).set (r.checkIndex + 1) 0
          checkIndex := r.checkIndex + 2 })
      else (.lineBad, r)
    else if temp = lf then
      if r.checkIndex > 1 ∧ r.readBuffer.get (r.checkIndex - 1) = cr then
        (.lineOk, { r with
          readBuffer := (r.readBuffer.set (r.checkIndex - 1) 0).set r.checkIndex 0
          checkIndex := r.checkIndex + 1 })
      else (.lineBad, r)
    else parseLineLoop k { r with checkIndex := r.checkIndex + 1 }

def parseLine (r : ReadSide) : LineStatus × ReadSide := parseLineLoop (r.readIndex - r.checkIndex) r

/-! ## The three line handlers -/

/-- the end of `parseRequestLine`, with `url` at `p` and `version` at `v` -/
def parseTarget (p v : ℕ) (r : ReadSide) : HttpCode × ReadSide :=
  if strcasecmp (r.readBuffer.cstr v) (ascii "HTTP/1.1") then
    let r :=
      if strncasecmp (r.readBuffer.cstr p) (ascii "http://") 7 then
        { r with url := r.readBuffer.strchr (p + 7) slash }
      else r
    match r.url with
    | none => (.badRequest, r)
    | some u =>
      if r.readBuffer.get u = slash then (.noRequest, { r with checkState := .header }) else (.badRequest, r)
  else (.badRequest, r)

def parseRequestLine (text : ℕ) (r : ReadSide) : HttpCode × ReadSide :=
  match r.readBuffer.strpbrk text blanks with
  | none => (.badRequest, { r with url := none })
  | some i =>
    let r := { r with readBuffer := r.readBuffer.set i 0, url := some (i + 1) }
    if strcasecmp (r.readBuffer.cstr text) (ascii "GET") then
      let r := { r with method := .get }
      match r.readBuffer.strpbrk (i + 1) blanks with
      | none => (.badRequest, { r with version := none })
      | some j => parseTarget (i + 1) (j + 1) { r with readBuffer := r.readBuffer.set j 0, version := some (j + 1) }
    else (.badRequest, r)

def parseHeader (text : ℕ) (r : ReadSide) : HttpCode × ReadSide :=
  if r.readBuffer.get text = 0 then
    if r.contentLength ≠ 0 then (.noRequest, { r with checkState := .content })
    else (.getRequest, r)
  else if strncasecmp (r.readBuffer.cstr text) (ascii "Connection:") 11 then
    let text := text + 11
    let text := text + strspn (r.readBuffer.cstr text) blanks
    if strcasecmp (r.readBuffer.cstr text) (ascii "keep-alive") then (.noRequest, { r with linger := true })
    else (.noRequest, r)
  else if strncasecmp (r.readBuffer.cstr text) (ascii "Content-Length:") 15 then
    let text := text + 15
    let text := text + strspn (r.readBuffer.cstr text) blanks
    match endSlot (r.readBuffer.cstr text).length with
    | .unused => (.noRequest, { r with contentLength := int32 (strtol (r.readBuffer.cstr text)) })
    -- `this` is the end of the number, and the store goes into `writeBuffer`, which is written before it is read
    | .this => if storedInWriteBuffer (text + 1) then (.noRequest, r) else (.undefined, r)
    | .inUse => (.undefined, r)
  else if strncasecmp (r.readBuffer.cstr text) (ascii "Host:") 5 then
    let text := text + 5
    let text := text + strspn (r.readBuffer.cstr text) blanks
    (.noRequest, { r with host := some text })
  else (.noRequest, r)

def parseContext (text : ℕ) (r : ReadSide) : HttpCode × ReadSide :=
  if (r.readIndex : ℤ) ≥ int32 (r.contentLength + r.checkIndex) then
    let place := text + r.contentLength
    (.getRequest, { r with
      readBuffer := r.readBuffer.setInt place 0
      outside := if h : place < 0 then some ⟨place, h⟩ else none })
  else (.noRequest, r)

/-! ## The main state machine -/

/-- one evaluation of the condition of `processRead`'s loop: the line status and the state after it -/
def loopTest (lineStatus : LineStatus) (r : ReadSide) : LineStatus × ReadSide :=
  if r.checkState = .content ∧ lineStatus = .lineOk then (lineStatus, r) else parseLine r

/-- the body of the loop: `getLine`, then the handler of the state. The first component is the handler's result. -/
def loopBody (r : ReadSide) : HttpCode × ReadSide :=
  let text := r.startLine
  let r := { r with startLine := r.checkIndex }
  match r.checkState with
  | .requestLine => parseRequestLine text r
  | .header => parseHeader text r
  | .content => parseContext text r

theorem loopBody_parseRequestLine {r : ReadSide} (hs : r.checkState = .requestLine) :
    loopBody r = parseRequestLine r.startLine { r with startLine := r.checkIndex } := by
  simp only [loopBody, hs]

theorem loopBody_parseHeader {r : ReadSide} (hs : r.checkState = .header) :
    loopBody r = parseHeader r.startLine { r with startLine := r.checkIndex } := by
  simp only [loopBody, hs]

theorem loopBody_parseContext {r : ReadSide} (hs : r.checkState = .content) :
    loopBody r = parseContext r.startLine { r with startLine := r.checkIndex } := by
  simp only [loopBody, hs]

/-- one round of `processRead`'s loop -/
def loopRound : LineStatus × ReadSide → (LineStatus × ReadSide) ⊕ (HttpCode × ReadSide)
  | (lineStatus, r) =>
    match loopTest lineStatus r with
    | (.lineOk, r) =>
      match loopBody r with
      | (.badRequest, r') => .inr (.badRequest, r')
      | (.getRequest, r') => .inr (.getRequest, r')
      | (.undefined, r') => .inr (.undefined, r')
      -- in the body state the source sets `lineStatus = LINE_OPEN` before the next round
      | (_, r') => .inl (if r.checkState = .content then .lineOpen else .lineOk, r')
    | (_, r) => .inr (.noRequest, r)

/-- `processRead`'s loop, for at most the given number of rounds -/
def processReadLoop (fuel : ℕ) (lineStatus : LineStatus) (r : ReadSide) : Option (HttpCode × ReadSide) :=
  Loop.iterate loopRound fuel (lineStatus, r)

/-- rounds after which a loop that has not ended never ends (`processReadLoop_stable`) -/
def loopRounds : ℕ := readBufferSize + 4

end WebServer.HttpConn
