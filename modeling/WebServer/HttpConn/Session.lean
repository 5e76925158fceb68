/-
A connection between two calls of `init()`, one round of `processRead`'s loop at a time.

`Session` adds to the request members where the program is (in a call of `processRead` or between two) and what has
happened since `init()`: the bytes received, the header lines handed to `parseHeader`, where the body begins, and the url
as `parseRequestLine` accepted it. The moves are `read()`, the call of `processRead` and one round of its loop, so that
a property can speak about every call of a handler, also in a call of `processRead` that never returns.

- `reading_iff`: between two calls, sessions are in exactly the states of `Reading`.
- `Valid`: what holds in every state of every session.
- `line_terminated_iff`: the line handed to `parseRequestLine` or `parseHeader` ends inside `readBuffer`, unless the
  buffer is full and the line has no end.
-/
import WebServer.Core.Run
import WebServer.HttpConn.RequestLine
import WebServer.HttpConn.Reading

namespace WebServer.HttpConn

open WebServer

/-! ## Sessions -/

structure Session where
  request : ReadSide
  /-- `lineStatus` at the head of the loop, `none` between two calls of `processRead` -/
  status : Option LineStatus
  /-- the bytes that `recv` has stored -/
  received : Bytes
  /-- the texts that `parseHeader` got, without the empty line -/
  headers : List Bytes
  /-- `checkIndex` when the state became CHECK_STATE_CONTENT -/
  bodyStart : Option ℕ
  /-- the offset of the url and the string there when `parseRequestLine` accepted it -/
  accepted : Option (ℕ × Bytes)

/-- after `init()` -/
def Session.start : Session := ⟨ReadSide.fresh, none, [], [], none, none⟩

inductive Move where
  | read (rs : List Recv)
  | call
  | round
deriving DecidableEq, Repr

namespace Session

/-- the history after a handler was called in `r` and left `r'` -/
def handled (s : Session) (r r' : ReadSide) : Session :=
  match r.checkState with
  | .requestLine => { s with accepted := r'.span r'.url }
  | .header =>
    if r'.checkState = .content then { s with bodyStart := some r.checkIndex }
    else { s with headers := s.headers ++ [r.readBuffer.cstr r.startLine] }
  | .content => s

def step (s : Session) : Move → Option Session
  | .read rs =>
    match s.status, HttpConn.read rs s.request with
    | none, some (_, r) =>
      some { s with request := r, received := s.received ++ r.readBuffer.slice s.request.readIndex r.readIndex }
    | _, _ => none
  | .call =>
    match s.status with
    | none => some { s with status := some .lineOk }
    | some _ => none
  | .round =>
    match s.status with
    | none => none
    | some ls =>
      match loopRound (ls, s.request) with
      | .inl (ls', r) => some { s.handled (loopTest ls s.request).2 r with request := r, status := some ls' }
      | .inr (.noRequest, r) => some { s with request := r, status := none }
      -- the request is decided: `doRequest`, an error response, or a store over memory in use
      | .inr _ => none

/-- the state in which the next round calls a handler -/
def handling (s : Session) : Option ReadSide :=
  match s.status with
  | none => none
  | some ls =>
    match loopTest ls s.request with
    | (.lineOk, r) => some r
    | _ => none

end Session

/-! ## What one move does -/

/-- what `parseHeader` can answer and change -/
theorem parseHeader_spec (text : ℕ) (r : ReadSide) : ∃ code state linger n host, parseHeader text r =
      (code, { r with checkState := state, linger := linger, contentLength := n, host := host }) ∧
    (code = .noRequest ∨ code = .getRequest ∨ code = .undefined) := by
  unfold parseHeader
  dsimp only
  generalize endSlot (r.readBuffer.cstr (text + 15 + strspn (r.readBuffer.cstr (text + 15)) blanks)).length = slot
  cases slot
  all_goals
    dsimp only
    split_ifs
    all_goals
      refine ⟨_, _, _, _, _, rfl, ?_⟩
      simp

theorem loopBody_code (r : ReadSide) : (loopBody r).1 = .noRequest ∨ (loopBody r).1 = .badRequest ∨
    (loopBody r).1 = .getRequest ∨ (loopBody r).1 = .undefined := by
  cases hs : r.checkState with
  | requestLine =>
    rw [loopBody_parseRequestLine hs, (parseRequestLine_spec _ _).code]
    exact (requestTarget_code _).elim (fun h => Or.inr (Or.inl h)) Or.inl
  | header =>
    obtain ⟨code, state, linger, n, host, hparse, hcode⟩ :=
      parseHeader_spec r.startLine { r with startLine := r.checkIndex }
    rw [loopBody_parseHeader hs, hparse]
    exact hcode.imp_right Or.inr
  | content =>
    rw [loopBody_parseContext hs, parseContext]
    split_ifs
    · exact Or.inr (Or.inr (Or.inl rfl))
    · exact Or.inl rfl

namespace Session

variable {s t : Session}

theorem step_read {rs : List Recv} (h : s.step (.read rs) = some t) :
    s.status = none ∧ ∃ b r, HttpConn.read rs s.request = some (b, r) ∧
      t = { s with request := r, received := s.received ++ r.readBuffer.slice s.request.readIndex r.readIndex } := by
  simp only [step] at h
  split at h
  · rename_i b r hs hr
    exact ⟨hs, b, r, hr, (Option.some.inj h).symm⟩
  · cases h

theorem step_call (h : s.step .call = some t) : s.status = none ∧ t = { s with status := some .lineOk } := by
  simp only [step] at h
  split at h
  · rename_i hs
    exact ⟨hs, (Option.some.inj h).symm⟩
  · cases h

theorem handling_some {r : ReadSide} (h : s.handling = some r) :
    ∃ ls, s.status = some ls ∧ loopTest ls s.request = (.lineOk, r) := by
  simp only [handling] at h
  split at h
  · cases h
  · rename_i ls hs
    refine ⟨ls, hs, ?_⟩
    split at h
    · rename_i r' ht
      rw [ht, Option.some.inj h]
    · cases h

/-- a round calls a handler that goes on, or the scanner stops and `processRead` answers NO_REQUEST -/
theorem step_round (h : s.step .round = some t) : ∃ ls, s.status = some ls ∧
    ((∃ r, loopTest ls s.request = (.lineOk, r) ∧ (loopBody r).1 = .noRequest ∧
      t = { s.handled r (loopBody r).2 with
        request := (loopBody r).2, status := some (if r.checkState = .content then .lineOpen else .lineOk) }) ∨
    (∃ r, (loopTest ls s.request).1 ≠ .lineOk ∧ r = (loopTest ls s.request).2 ∧
      t = { s with request := r, status := none })) := by
  simp only [step] at h
  split at h
  · cases h
  · rename_i ls hs
    refine ⟨ls, hs, ?_⟩
    unfold loopRound at h
    dsimp only at h
    generalize loopTest ls s.request = x at h ⊢
    obtain ⟨ls', r⟩ := x
    cases ls' with
    | lineBad => exact Or.inr ⟨r, LineStatus.noConfusion, rfl, (Option.some.inj h).symm⟩
    | lineOpen => exact Or.inr ⟨r, LineStatus.noConfusion, rfl, (Option.some.inj h).symm⟩
    | lineOk =>
      refine Or.inl ⟨r, rfl, ?_⟩
      dsimp only at h
      have hcode := loopBody_code r
      generalize loopBody r = y at h hcode ⊢
      obtain ⟨code, r'⟩ := y
      rcases hcode with hc | hc | hc | hc <;> obtain rfl : code = _ := hc
      · exact ⟨rfl, (Option.some.inj h).symm⟩
      all_goals cases h

end Session

/-! ## One round -/

/-- what a test of the loop's condition does to the request members -/
structure Scans (r r' : ReadSide) : Prop where
  members : ∃ b k, r' = { r with readBuffer := b, checkIndex := k }
  index_le : r.checkIndex ≤ r'.checkIndex
  unread : r'.unread = r.unread.drop (r'.checkIndex - r.checkIndex)
  strings : ∀ o, o + (r.readBuffer.cstr o).length ≤ r.startLine → r'.readBuffer.cstr o = r.readBuffer.cstr o

theorem scans_skip {r : ReadSide} (h : Inv r) {l t : Bytes} (hl : r.unread = l ++ t) (hc : Clean l) :
    Scans r (r.skip l.length) where
  members := ⟨_, _, rfl⟩
  index_le := Nat.le_add_right _ _
  unread := by
    have hrest := congrArg Stream.rest (inv_move h hl hc).2
    calc (r.skip l.length).unread = t := hrest
      _ = r.unread.drop l.length := by rw [hl, List.drop_left]
      _ = r.unread.drop (r.checkIndex + l.length - r.checkIndex) := by rw [Nat.add_sub_cancel_left]
  strings := fun _ _ => rfl

theorem scans_pass {r : ReadSide} (h : Inv r) {l rest : Bytes} (hl : r.unread = l ++ cr :: lf :: rest)
    (hc : Clean l) : Scans r (r.pass l.length) where
  members := ⟨_, _, rfl⟩
  index_le := (Nat.le_add_right _ l.length).trans (Nat.le_add_right _ 2)
  unread := by
    have hrest := congrArg Stream.rest (inv_pass h hl hc).2
    calc (r.pass l.length).unread = rest := hrest
      _ = r.unread.drop (l.length + 2) := by simp [hl, List.drop_append]
      _ = r.unread.drop (r.checkIndex + l.length + 2 - r.checkIndex) := by
        rw [Nat.add_assoc, Nat.add_sub_cancel_left]
  strings := fun o ho => by
    have hstart := h.start_le
    exact cstr_zeroed (by omega)

theorem loopTest_scans {r : ReadSide} (h : Inv r) (ls : LineStatus) : Scans r (loopTest ls r).2 := by
  unfold loopTest
  split_ifs with hct
  · exact ⟨⟨_, _, rfl⟩, le_rfl, by rw [Nat.sub_self]; rfl, fun _ _ => rfl⟩
  · rw [parseLine_eq r fun i hi => (h.clean i hi).1]
    rcases nextLine_cases r.unread with ⟨l, rest, hn, hs, hc⟩ | ⟨l, hn, hs, hc⟩ | ⟨l, t, hn, hs, hc, -⟩ | ⟨hn, hc⟩
    · rw [hn]
      exact scans_pass h hs hc
    · rw [hn]
      exact scans_skip h hs hc
    · rw [hn]
      exact scans_skip h hs hc
    · rw [hn]
      exact scans_skip h (List.append_nil _).symm hc

theorem Stream.body_start (a : Stream) : a.body.2.start = a.pos := by
  cases hs : a.state with
  | requestLine =>
    rw [body_requestLine hs]
    rfl
  | header =>
    rw [body_header hs]
    split_ifs
    · rfl
    · rfl
    · rfl
    · exact (field_pos _ _ _).1
  | content =>
    rw [body_content hs]
    split_ifs <;> rfl

theorem Stream.body_url {a : Stream} (hs : a.state ≠ .requestLine) (hgo : a.body.1 = .noRequest) :
    a.body.2.url = a.url := by
  cases hstate : a.state with
  | requestLine => exact absurd hstate hs
  | header =>
    rw [body_header hstate]
    split_ifs
    · rfl
    · rfl
    · rfl
    · exact (field_pos _ _ _).2.2.2.2
  | content =>
    rw [body_content hstate] at hgo ⊢
    by_cases hdone : a.bodyDone
    · rw [if_pos hdone] at hgo
      cases hgo
    · rw [if_neg hdone]
      rfl

theorem parseHeader_kept (text : ℕ) (r : ReadSide) :
    (parseHeader text r).2.readBuffer = r.readBuffer ∧ (parseHeader text r).2.version = r.version := by
  obtain ⟨code, state, linger, n, host, hparse, -⟩ := parseHeader_spec text r
  rw [hparse]
  exact ⟨rfl, rfl⟩

/-- what a handler does to the request members when the loop goes on -/
structure Handles (r r' : ReadSide) : Prop where
  inv : Inv r'
  checkIndex : r'.checkIndex = r.checkIndex
  startLine : r'.startLine = r.checkIndex
  readIndex : r'.readIndex = r.readIndex
  unread : r'.unread = r.unread
  /-- the version string still ends before the current line -/
  version : (∀ o, r.version = some o → o + (r.readBuffer.cstr o).length ≤ r.startLine) →
    ∀ o, r'.version = some o → o + (r'.readBuffer.cstr o).length ≤ r'.startLine
  url : r.checkState ≠ .requestLine → r'.span r'.url = r.span r.url
  requestLine : r.checkState = .requestLine → r'.checkState = .header ∧ r'.contentLength = r.contentLength ∧
    ∃ u, r'.span r'.url = some u ∧ u.2.head? = some slash
  header : r.checkState = .header →
    (r'.checkState = .header ∧ r'.contentLength = lengthAfter r.contentLength (r.readBuffer.cstr r.startLine)) ∨
    (r'.checkState = .content ∧ r'.contentLength = r.contentLength)
  content : r.checkState = .content → r' = { r with startLine := r.checkIndex }

theorem loopBody_content {r : ReadSide} (hs : r.checkState = .content) (hgo : (loopBody r).1 = .noRequest) :
    (loopBody r).2 = { r with startLine := r.checkIndex } := by
  rw [loopBody_parseContext hs, parseContext] at hgo ⊢
  by_cases hdone : (r.readIndex : ℤ) ≥ int32 (r.contentLength + r.checkIndex)
  · rw [if_pos hdone] at hgo
    cases hgo
  · rw [if_neg hdone]

theorem loopBody_accepts {r : ReadSide} (hs : r.checkState = .requestLine) (hgo : (loopBody r).1 = .noRequest) :
    parseRequestLine r.startLine { r with startLine := r.checkIndex } = (.noRequest, (loopBody r).2) := by
  rw [← hgo, loopBody_parseRequestLine hs]

theorem loopBody_version {r : ReadSide} (h : Inv r) (he : r.checkState ≠ .content → Ended r)
    (hgo : (loopBody r).1 = .noRequest)
    (hv : ∀ o, r.version = some o → o + (r.readBuffer.cstr o).length ≤ r.startLine) :
    ∀ o, (loopBody r).2.version = some o → o + ((loopBody r).2.readBuffer.cstr o).length ≤ r.checkIndex := by
  intro o ho
  have hstart := h.start_le
  cases hs : r.checkState with
  | requestLine =>
    have hend := (he (by rw [hs]; decide)).length_le h
    obtain ⟨o', ho', hle⟩ := parseRequestLine_version (loopBody_accepts hs hgo)
    obtain rfl : o' = o := Option.some.inj (ho'.symm.trans ho)
    exact hle.trans hend
  | header =>
    obtain ⟨hbuf, hver⟩ := parseHeader_kept r.startLine { r with startLine := r.checkIndex }
    rw [loopBody_parseHeader hs] at ho ⊢
    rw [hver] at ho
    rw [hbuf]
    exact (hv o ho).trans hstart
  | content =>
    rw [loopBody_content hs hgo] at ho ⊢
    exact (hv o ho).trans hstart

theorem loopBody_handles {r : ReadSide} (h : Inv r) (he : r.checkState ≠ .content → Ended r)
    (hgo : (loopBody r).1 = .noRequest) : Handles r (loopBody r).2 := by
  obtain ⟨hcode, -, -, hstays⟩ := loopBody_stream h he
  obtain ⟨hinv, hstream⟩ := hstays (by rw [hgo]; decide)
  rw [hgo] at hcode
  obtain ⟨hscan, hrest, hstates⟩ := Stream.body_go hcode.symm
  rw [← hstream] at hscan hrest hstates
  have hstart : (loopBody r).2.startLine = r.checkIndex := by
    rw [← stream_pos h, ← Stream.body_start, ← hstream]
    rfl
  have hcheck : (loopBody r).2.checkIndex = r.checkIndex := by
    rw [← stream_pos hinv, Stream.pos, hscan, List.length_nil, Nat.add_zero]
    exact hstart
  refine ⟨hinv, hcheck, hstart, ?_, hrest, ?_, ?_, ?_, ?_, fun hs => loopBody_content hs hgo⟩
  · rw [← stream_total hinv, ← stream_total h, hstream, Stream.body_total]
  · intro hv
    rw [hstart]
    exact loopBody_version h he hgo hv
  · intro hs
    have hurl := congrArg Stream.url hstream
    exact hurl.trans (Stream.body_url hs hcode.symm)
  · intro hs
    have hstate : (loopBody r).2.stream.state = .header := by
      rcases hstates with hx | hx | hx | hx
      · exact hx.2
      all_goals cases (show r.stream.state = .requestLine from hs).symm.trans hx.1
    have hlen := congrArg Stream.contentLength hstream
    rw [Stream.body_requestLine hs] at hlen
    exact ⟨hstate, hlen, parseRequestLine_url (loopBody_accepts hs hgo)⟩
  · intro hs
    have hlen := congrArg Stream.contentLength hstream
    have hst := congrArg Stream.state hstream
    have htext : cText r.stream.scanned = r.readBuffer.cstr r.startLine := (he (by rw [hs]; decide)).symm
    rw [Stream.body_header hs] at hlen hst hcode
    split_ifs at hlen hst hcode
    · exact Or.inr ⟨hst, hlen⟩
    · rw [Stream.field_contentLength, htext] at hlen
      rw [(Stream.field_pos _ _ _).2.2.2.1] at hst
      exact Or.inl ⟨hst.trans hs, hlen⟩

/-! ## Runs -/

namespace Session

/-- what holds in every state of a session -/
structure Valid (s : Session) : Prop where
  inv : Inv s.request
  /-- bytes that arrive between two calls do not run into the recorded strings -/
  strings : s.status = none → s.request.startLine < s.request.readIndex ∨
    (s.request.url = none ∧ s.request.host = none ∧ s.request.version = none)
  version_end : ∀ o, s.request.version = some o → o + (s.request.readBuffer.cstr o).length ≤ s.request.startLine
  /-- what the scanner has not passed is as it was received -/
  unread : s.request.unread = s.received.drop s.request.checkIndex
  received : s.received.length = s.request.readIndex
  contentLength : s.request.contentLength = s.headers.foldl lengthAfter 0
  body_start : ∀ b, s.bodyStart = some b → s.request.checkState = .content ∧ b ≤ s.request.startLine
  body_some : s.request.checkState = .content → ∃ b, s.bodyStart = some b
  /-- the accepted url is still there -/
  accepted : s.request.checkState ≠ .requestLine →
    ∃ u, s.accepted = some u ∧ s.request.span s.request.url = some u ∧ u.2.head? = some slash

theorem valid_start : Valid start where
  inv := inv_fresh
  strings := fun _ => Or.inr ⟨rfl, rfl, rfl⟩
  version_end := nofun
  unread := rfl
  received := rfl
  contentLength := rfl
  body_start := nofun
  body_some := nofun
  accepted := fun h => absurd rfl h

variable {s t : Session}

/-- the bytes that a `read()` brings, behind what was there -/
theorem Valid.arrive (h : Valid s) {rs : List Recv} (hs : s.step (.read rs) = some t) :
    ∃ q, t = { s with request := s.request.load q, received := s.received ++ q } ∧ s.status = none ∧
      Inv (s.request.load q) ∧ (s.request.load q).stream = s.request.stream.load q := by
  obtain ⟨hidle, b, r, hr, rfl⟩ := step_read hs
  obtain ⟨q, rfl, hq⟩ := read_load hr h.inv.read_le
  have hnew : (s.request.load q).readBuffer.slice s.request.readIndex (s.request.load q).readIndex = q :=
    Buf.slice_write _ _ _ hq
  refine ⟨q, ?_, hidle, load_stream h.inv q hq ((h.strings hidle).imp_right fun hx => ⟨hx.1, hx.2.1⟩)⟩
  rw [hnew]

theorem Valid.read (h : Valid s) {rs : List Recv} (hs : s.step (.read rs) = some t) : Valid t := by
  obtain ⟨q, rfl, hidle, hinv, hstream⟩ := h.arrive hs
  have hstrings := h.strings hidle
  refine ⟨hinv, fun _ => ?_, fun o ho => ?_, ?_, ?_, h.contentLength, h.body_start, h.body_some, fun hs => ?_⟩
  · exact hstrings.imp_left fun hlt => Nat.lt_add_right q.length hlt
  · have hend := h.version_end o ho
    rcases hstrings with hlt | ⟨-, -, hnone⟩
    · have hkept : (s.request.load q).readBuffer.cstr o = s.request.readBuffer.cstr o :=
        Buf.cstr_write _ _ (lt_of_le_of_lt hend hlt)
      rw [hkept]
      exact hend
    · cases hnone.symm.trans ho
  · have hrest : (s.request.load q).unread = s.request.unread ++ q := congrArg Stream.rest hstream
    have hle : s.request.checkIndex ≤ s.received.length := h.received ▸ h.inv.check_le
    rw [hrest, h.unread]
    exact (List.drop_append_of_le_length hle).symm
  · rw [List.length_append, h.received]
    rfl
  · obtain ⟨u, hu, hspan, hslash⟩ := h.accepted hs
    exact ⟨u, hu, (congrArg Stream.url hstream).trans hspan, hslash⟩

/-- what the loop's test leaves behind, at the call of a handler or when the scanner stops -/
structure Scanned (s : Session) (r : ReadSide) : Prop where
  inv : Inv r
  version_end : ∀ o, r.version = some o → o + (r.readBuffer.cstr o).length ≤ r.startLine
  unread : r.unread = s.received.drop r.checkIndex
  readIndex : r.readIndex = s.request.readIndex
  contentLength : r.contentLength = s.request.contentLength
  checkState : r.checkState = s.request.checkState
  startLine : r.startLine = s.request.startLine
  url : r.span r.url = s.request.span s.request.url

theorem Valid.scanned (h : Valid s) (ls : LineStatus) : Scanned s (loopTest ls s.request).2 := by
  have hscan := loopTest_scans h.inv ls
  obtain ⟨hinv, hstream, -⟩ := loopTest_stream h.inv ls
  have hurl : (loopTest ls s.request).2.stream.url = s.request.stream.url := by
    obtain ⟨l, t, hmoved⟩ := (Stream.test_moves ls s.request.stream).1
    rw [← hstream] at hmoved
    have hurl := congrArg Stream.url hmoved
    exact hurl
  generalize (loopTest ls s.request).2 = r at hscan hinv hurl ⊢
  obtain ⟨b, k, rfl⟩ := hscan.members
  refine ⟨hinv, fun o ho => ?_, ?_, rfl, rfl, rfl, rfl, hurl⟩
  · have hend := h.version_end o ho
    rw [hscan.strings o hend]
    exact hend
  · have hle := hscan.index_le
    rw [hscan.unread, h.unread, List.drop_drop, Nat.add_sub_cancel' hle]

theorem Valid.tested (h : Valid s) {ls : LineStatus} {r : ReadSide} (ht : loopTest ls s.request = (.lineOk, r)) :
    Scanned s r := by
  have hscanned := h.scanned ls
  rwa [ht] at hscanned

theorem Valid.stop (h : Valid s) {ls : LineStatus} (hne : (loopTest ls s.request).1 ≠ .lineOk) :
    Valid { s with request := (loopTest ls s.request).2, status := none } := by
  have hr := h.scanned ls
  have hlt := loopTest_stop h.inv hne
  refine ⟨hr.inv, fun _ => Or.inl ?_, hr.version_end, hr.unread, h.received.trans hr.readIndex.symm,
    hr.contentLength.trans h.contentLength, ?_, ?_, ?_⟩
  · exact lt_of_le_of_lt hr.inv.start_le hlt
  · intro b hb
    dsimp only
    rw [hr.checkState, hr.startLine]
    exact h.body_start b hb
  · intro hs
    exact h.body_some (hr.checkState.symm.trans hs)
  · intro hs
    obtain ⟨u, hu, hspan, hslash⟩ := h.accepted (hr.checkState ▸ hs)
    exact ⟨u, hu, hr.url.trans hspan, hslash⟩

/-- the line handed to a handler ends at a zero, outside the body -/
theorem Valid.ended (h : Valid s) {ls : LineStatus} {r : ReadSide} (ht : loopTest ls s.request = (.lineOk, r))
    (hs : r.checkState ≠ .content) : Ended r := by
  have hended := (loopTest_stream h.inv ls).2.2
  rw [ht] at hended
  exact hended rfl ((h.tested ht).checkState ▸ hs)

theorem Valid.go (h : Valid s) {ls ls' : LineStatus} {r : ReadSide} (ht : loopTest ls s.request = (.lineOk, r))
    (hgo : (loopBody r).1 = .noRequest) :
    Valid { s.handled r (loopBody r).2 with request := (loopBody r).2, status := some ls' } := by
  obtain ⟨hinv, hversion, hunread, hread, hlen, hstate, hstart, hspan⟩ := h.tested ht
  have hh := loopBody_handles hinv (h.ended ht) hgo
  have hrest : (loopBody r).2.unread = s.received.drop (loopBody r).2.checkIndex := by
    rw [hh.unread, hh.checkIndex]
    exact hunread
  have hreceived : s.received.length = (loopBody r).2.readIndex := h.received.trans (hread.symm.trans hh.readIndex.symm)
  have hlength : r.contentLength = s.headers.foldl lengthAfter 0 := hlen.trans h.contentLength
  have hnobody : r.checkState ≠ .content → s.bodyStart = none := by
    intro hne
    by_contra hsome
    obtain ⟨b, hb⟩ := Option.ne_none_iff_exists'.mp hsome
    exact hne (hstate.trans (h.body_start b hb).1)
  have hkept : r.checkState ≠ .requestLine → ∃ u, s.accepted = some u ∧
      (loopBody r).2.span (loopBody r).2.url = some u ∧ u.2.head? = some slash := by
    intro hne
    obtain ⟨u, hu, hold, hslash⟩ := h.accepted (hstate ▸ hne)
    exact ⟨u, hu, (hh.url hne).trans (hspan.trans hold), hslash⟩
  cases hs : r.checkState with
  | requestLine =>
    obtain ⟨hst, hl, u, hu, hslash⟩ := hh.requestLine hs
    have hsame : s.handled r (loopBody r).2 = { s with accepted := (loopBody r).2.span (loopBody r).2.url } := by
      simp only [handled, hs]
    rw [hsame]
    refine ⟨hh.inv, nofun, hh.version hversion, hrest, hreceived, hl.trans hlength, fun b hb => ?_, fun hc => ?_,
      fun _ => ⟨u, hu, hu, hslash⟩⟩
    · cases (hnobody (by rw [hs]; decide)).symm.trans hb
    · cases hst.symm.trans hc
  | header =>
    have hurl := hkept (by rw [hs]; decide)
    rcases hh.header hs with ⟨hst, hl⟩ | ⟨hst, hl⟩
    · have hsame : s.handled r (loopBody r).2 =
          { s with headers := s.headers ++ [r.readBuffer.cstr r.startLine] } := by
        simp only [handled, hs]
        exact if_neg (by rw [hst]; decide)
      rw [hsame]
      refine ⟨hh.inv, nofun, hh.version hversion, hrest, hreceived, ?_, fun b hb => ?_, fun hc => ?_, fun _ => hurl⟩
      · rw [List.foldl_append, ← hlength]
        exact hl
      · cases (hnobody (by rw [hs]; decide)).symm.trans hb
      · cases hst.symm.trans hc
    · have hsame : s.handled r (loopBody r).2 = { s with bodyStart := some r.checkIndex } := by
        simp only [handled, hs]
        exact if_pos hst
      rw [hsame]
      refine ⟨hh.inv, nofun, hh.version hversion, hrest, hreceived, hl.trans hlength, fun b hb => ?_,
        fun _ => ⟨_, rfl⟩, fun _ => hurl⟩
      obtain rfl : r.checkIndex = b := Option.some.inj hb
      exact ⟨hst, hh.startLine.ge⟩
  | content =>
    have hsame : s.handled r (loopBody r).2 = s := by simp only [handled, hs]
    have hr' := hh.content hs
    rw [hsame]
    refine ⟨hh.inv, nofun, hh.version hversion, hrest, hreceived, ?_, fun b hb => ?_, fun _ => ?_,
      fun _ => hkept (by rw [hs]; decide)⟩
    · rw [hr']
      exact hlength
    · rw [hr']
      exact ⟨hs, (h.body_start b hb).2.trans (hstart ▸ hinv.start_le)⟩
    · exact h.body_some (hstate.symm.trans hs)

theorem Valid.step {m : Move} (h : Valid s) (hs : s.step m = some t) : Valid t := by
  cases m with
  | read rs => exact h.read hs
  | call =>
    obtain ⟨hidle, rfl⟩ := step_call hs
    exact ⟨h.inv, nofun, h.version_end, h.unread, h.received, h.contentLength, h.body_start, h.body_some, h.accepted⟩
  | round =>
    obtain ⟨ls, -, ⟨r, ht, hgo, rfl⟩ | ⟨r, hne, rfl, rfl⟩⟩ := step_round hs
    · exact h.go ht hgo
    · exact h.stop hne

theorem run_valid {ms : List Move} (h : Run.exec step start ms = some s) : Valid s :=
  Run.exec_inv (fun _ _ _ hv hs => hv.step hs) valid_start h

/-! ## Sessions and calls of `processRead` -/

theorem handled_received (s : Session) (r r' : ReadSide) : (s.handled r r').received = s.received := by
  unfold handled
  split
  · rfl
  · split_ifs <;> rfl
  · rfl

/-- the same round, seen as one of `processRead`'s loop -/
theorem step_loopRound (h : s.step .round = some t) : ∃ ls, s.status = some ls ∧ t.received = s.received ∧
    ((∃ ls', t.status = some ls' ∧ loopRound (ls, s.request) = .inl (ls', t.request)) ∨
      (t.status = none ∧ loopRound (ls, s.request) = .inr (.noRequest, t.request))) := by
  simp only [step] at h
  split at h
  · cases h
  · rename_i ls hs
    refine ⟨ls, hs, ?_⟩
    split at h
    · rename_i ls' r hr
      cases h
      exact ⟨handled_received _ _ _, Or.inl ⟨ls', rfl, hr⟩⟩
    · rename_i r hr
      cases h
      exact ⟨rfl, Or.inr ⟨rfl, hr⟩⟩
    · cases h

/-- a call of `processRead` that answers NO_REQUEST, in rounds -/
theorem rounds_of_loop {n : ℕ} {ls : LineStatus} {r : ReadSide} (hstatus : s.status = some ls)
    (h : processReadLoop n ls s.request = some (.noRequest, r)) :
    ∃ k t, Run.exec step s (List.replicate k .round) = some t ∧ t.status = none ∧ t.request = r := by
  induction n generalizing s ls with
  | zero => cases h
  | succ n ih =>
    unfold processReadLoop at h
    cases hr : loopRound (ls, s.request) with
    | inl x =>
      obtain ⟨ls', r'⟩ := x
      rw [Loop.iterate_inl hr] at h
      have hstep : s.step .round =
          some { s.handled (loopTest ls s.request).2 r' with request := r', status := some ls' } := by
        simp only [step, hstatus, hr]
      obtain ⟨k, t, hk, ht⟩ := ih (s := { s.handled (loopTest ls s.request).2 r' with request := r', status := some ls' })
        rfl h
      refine ⟨k + 1, t, ?_, ht⟩
      simp only [List.replicate_succ, Run.exec, hstep]
      exact hk
    | inr x =>
      rw [Loop.iterate_inr hr] at h
      cases h
      refine ⟨1, { s with request := r, status := none }, ?_, rfl, rfl⟩
      simp only [List.replicate_one, Run.exec, step, hstatus, hr]

/-- where a session is in its call of `processRead` -/
structure Traced (s : Session) : Prop where
  idle : s.status = none → Reading s.request
  busy : ∀ ls, s.status = some ls → ∃ r k, Reading r ∧
    ∀ n, processReadLoop (n + k) .lineOk r = processReadLoop n ls s.request

theorem Traced.step {m : Move} (h : Traced s) (hs : s.step m = some t) : Traced t := by
  cases m with
  | read rs =>
    obtain ⟨hidle, b, r, hr, rfl⟩ := step_read hs
    refine ⟨fun _ => .read (h.idle hidle) hr, fun ls hls => ?_⟩
    cases hidle.symm.trans hls
  | call =>
    obtain ⟨hidle, rfl⟩ := step_call hs
    refine ⟨nofun, fun ls hls => ⟨s.request, 0, h.idle hidle, fun n => ?_⟩⟩
    cases hls
    rfl
  | round =>
    obtain ⟨ls, hls, -, ⟨ls', ht, hr⟩ | ⟨ht, hr⟩⟩ := step_loopRound hs
    · refine ⟨fun hidle => ?_, fun ls'' hls'' => ?_⟩
      · cases ht.symm.trans hidle
      · obtain rfl : ls' = ls'' := Option.some.inj (ht.symm.trans hls'')
        obtain ⟨r, k, hreading, hk⟩ := h.busy ls hls
        refine ⟨r, k + 1, hreading, fun n => ?_⟩
        calc processReadLoop (n + (k + 1)) .lineOk r = processReadLoop (n + 1 + k) .lineOk r := by
              rw [Nat.add_assoc, Nat.add_comm 1 k]
          _ = processReadLoop (n + 1) ls s.request := hk (n + 1)
          _ = processReadLoop n ls' t.request := Loop.iterate_inl hr n
    · refine ⟨fun _ => ?_, fun ls' hls' => ?_⟩
      · obtain ⟨r, k, hreading, hk⟩ := h.busy ls hls
        have hend : processReadLoop (1 + k) .lineOk r = some (.noRequest, t.request) :=
          (hk 1).trans (Loop.iterate_inr hr 0)
        exact .parse hreading (processReadLoop_enough hreading.steady.inv hend)
      · cases ht.symm.trans hls'

/-- **Between two calls of `processRead` a session is in a state of `Reading`, and in every one of them.** -/
theorem reading_iff {r : ReadSide} :
    Reading r ↔ ∃ ms s, Run.exec step start ms = some s ∧ s.status = none ∧ s.request = r := by
  constructor
  · intro h
    induction h with
    | init => exact ⟨[], start, rfl, rfl, rfl⟩
    | @read r r' rs b h hr ih =>
      obtain ⟨ms, s, hs, hidle, rfl⟩ := ih
      let t : Session :=
        { s with request := r', received := s.received ++ r'.readBuffer.slice s.request.readIndex r'.readIndex }
      have hstep : s.step (.read rs) = some t := by simp only [step, hidle, hr, t]
      refine ⟨ms ++ [.read rs], t, ?_, hidle, rfl⟩
      rw [Run.exec_append hs]
      simp only [Run.exec, hstep]
    | @parse r r' h hp ih =>
      obtain ⟨ms, s, hs, hidle, rfl⟩ := ih
      obtain ⟨k, t, hk, ht⟩ := rounds_of_loop (s := { s with status := some .lineOk }) rfl hp
      refine ⟨ms ++ .call :: List.replicate k .round, t, ?_, ht⟩
      rw [Run.exec_append hs]
      simp only [Run.exec, step, hidle]
      exact hk
  · rintro ⟨ms, s, hs, hidle, rfl⟩
    have hstart : Traced start := ⟨fun _ => .init, fun ls hls => absurd hls (Option.some_ne_none ls).symm⟩
    have htraced : Traced s := Run.exec_inv (fun _ _ _ hv hm => hv.step hm) hstart hs
    exact htraced.idle hidle

/-! ## The end of a line -/

end Session

/-- the current line ends inside `readBuffer`: there is room behind it, or a CR LF at its end, or a zero in it -/
def ReadSide.lineEnds (r : ReadSide) : Bool :=
  decide (r.readIndex < readBufferSize) ||
    (match nextLine r.unread with
      | .complete _ _ => true
      | _ => false) ||
    decide ((0 : UInt8) ∈ r.readBuffer.slice r.startLine r.readIndex)

/-- the text handed to a handler has its end inside `readBuffer` -/
def Terminated (r : ReadSide) : Prop := ∃ j, r.startLine ≤ j ∧ j < readBufferSize ∧ r.readBuffer.get j = 0

theorem Terminated.length_lt {r : ReadSide} (h : Terminated r) :
    r.startLine + (r.readBuffer.cstr r.startLine).length < readBufferSize := by
  obtain ⟨j, hj, hlt, hz⟩ := h
  exact lt_of_le_of_lt (Buf.cstr_le_of_zero _ hj hz) hlt

theorem terminated_runOut {r : ReadSide} (h : Inv r) (k : ℕ) :
    Terminated (r.skip k) ↔
      r.readIndex < readBufferSize ∨ (0 : UInt8) ∈ r.readBuffer.slice r.startLine r.readIndex := by
  have hstart := h.start_le.trans h.check_le
  constructor
  · rintro ⟨j, hj, hlt, hz⟩
    by_cases hin : j < r.readIndex
    · exact Or.inr (Buf.mem_slice.2 ⟨j, hj, hin, hz⟩)
    · exact Or.inl (by omega)
  · rintro (hlt | hmem)
    · exact ⟨r.readIndex, hstart, hlt, h.tail _ le_rfl⟩
    · obtain ⟨j, hj, hin, hz⟩ := Buf.mem_slice.1 hmem
      exact ⟨j, hj, lt_of_lt_of_le hin h.read_le, hz⟩

namespace Session

variable {s : Session}

theorem Valid.terminated_iff (h : Valid s) {r : ReadSide} (hr : s.handling = some r) (hs : r.checkState ≠ .content) :
    Terminated r ↔ s.request.lineEnds = true := by
  obtain ⟨ls, -, ht⟩ := handling_some hr
  have hstate := (h.tested ht).checkState
  have hparse : parseLine s.request = (.lineOk, r) := by
    rw [← ht, loopTest, if_neg fun hc => hs (hstate.trans hc.1)]
  rw [parseLine_eq _ fun i hi => (h.inv.clean i hi).1] at hparse
  unfold ReadSide.lineEnds
  rcases nextLine_cases s.request.unread with ⟨l, rest, hn, hl, -⟩ | ⟨l, hn, -⟩ | ⟨l, t, hn, -⟩ | ⟨hn, -⟩
  · -- the zero written over the CR
    rw [hn] at hparse ⊢
    obtain rfl : s.request.pass l.length = r := congrArg Prod.snd hparse
    have hlen := congrArg List.length hl
    simp only [ReadSide.unread, Buf.length_slice, List.length_append, List.length_cons] at hlen
    have hread := h.inv.read_le
    have hstart := h.inv.start_le
    simp only [Bool.or_true, Bool.true_or, iff_true]
    refine ⟨s.request.checkIndex + l.length, ?_, by omega, ?_⟩
    · exact hstart.trans (Nat.le_add_right _ _)
    · simp [ReadSide.pass, Buf.get_set_zero]
  · rw [hn] at hparse
    cases congrArg Prod.fst hparse
  · rw [hn] at hparse
    cases congrArg Prod.fst hparse
  · rw [hn] at hparse ⊢
    obtain rfl : s.request.skip s.request.unread.length = r := congrArg Prod.snd hparse
    rw [terminated_runOut h.inv]
    simp only [Bool.or_false, Bool.or_eq_true, decide_eq_true_eq]

/-- **Lines handed to a handler end inside the buffer.** In every state of every session, when `processRead` is about to
call `parseRequestLine` or `parseHeader`: there is a zero in `readBuffer` from the start of the line on, if and only if
the buffer is not full, or the line is ended by CR LF, or it has a zero byte. Then everything that the handler reads is
inside the buffer. -/
theorem line_terminated_iff {ms : List Move} (h : Run.exec step start ms = some s) {r : ReadSide}
    (hr : s.handling = some r) (hs : r.checkState ≠ .content) :
    ((∃ j, r.startLine ≤ j ∧ j < readBufferSize ∧ r.readBuffer.get j = 0) ↔ s.request.lineEnds = true) ∧
    (s.request.lineEnds = true → r.startLine + (r.readBuffer.cstr r.startLine).length < readBufferSize) := by
  have hiff := (run_valid h).terminated_iff hr hs
  exact ⟨hiff, fun hends => (hiff.2 hends).length_lt⟩

/-- the bytes `p` arrive at once and a worker calls `processRead` -/
def arrival (p : Bytes) : List Move := [.read [.data p, .eagain], .call]

def shortRun : Option Session := Run.exec step start (arrival (ascii "GET / HTTP/1.1\r\nHost"))

theorem shortRun_isSome : shortRun.isSome = true := by decide +kernel

theorem shortRun_handling : (shortRun.get shortRun_isSome).handling.isSome = true := by decide +kernel

theorem line_terminated_shortRun :
    (((shortRun.get shortRun_isSome).handling.get shortRun_handling).startLine +
      (((shortRun.get shortRun_isSome).handling.get shortRun_handling).readBuffer.cstr
        ((shortRun.get shortRun_isSome).handling.get shortRun_handling).startLine).length) < readBufferSize :=
  (line_terminated_iff (Option.some_get shortRun_isSome).symm (Option.some_get shortRun_handling).symm
    (by decide +kernel)).2 (by decide +kernel)

theorem arrival_exec {p : Bytes} (hne : p ≠ []) (hlen : p.length ≤ readBufferSize) :
    Run.exec step start (arrival p) = some ⟨ReadSide.fresh.load p, some .lineOk, p, [], none, none⟩ := by
  have hzero : ReadSide.fresh.readIndex = 0 := rfl
  have hread : HttpConn.read [.data p, .eagain] ReadSide.fresh = some (true, ReadSide.fresh.load p) := by
    rw [HttpConn.read, hzero, if_neg (by decide), readLoop, hzero, Nat.sub_zero, List.take_of_length_le hlen, if_neg hne,
      readLoop]
  have hnew : (ReadSide.fresh.load p).readBuffer.slice ReadSide.fresh.readIndex (ReadSide.fresh.load p).readIndex = p :=
    Buf.slice_write ReadSide.fresh.readBuffer ReadSide.fresh.readIndex p (by rwa [hzero, Nat.zero_add])
  simp only [arrival, Run.exec, step, start, hread, hnew, List.nil_append]

/-- as many bytes as the buffer holds, and neither a line end nor a zero among them -/
theorem arrival_unterminated {p : Bytes} (hlen : p.length = readBufferSize) (hclean : Clean p) (hzero : (0 : UInt8) ∉ p) :
    ∃ s r, Run.exec step start (arrival p) = some s ∧ s.handling = some r ∧ r.checkState = .requestLine ∧
      ¬ Terminated r := by
  have hpos : 0 < p.length := by rw [hlen]; decide
  have hrun := arrival_exec (List.length_pos_iff.1 hpos) hlen.le
  have hvalid := run_valid hrun
  have hunread : (ReadSide.fresh.load p).unread = p := hvalid.unread
  have hslice : (ReadSide.fresh.load p).readBuffer.slice (ReadSide.fresh.load p).startLine
      (ReadSide.fresh.load p).readIndex = p := hunread
  have htest : loopTest .lineOk (ReadSide.fresh.load p) = (.lineOk, (ReadSide.fresh.load p).skip p.length) := by
    rw [loopTest, if_neg fun hc => absurd hc.1 nofun, parseLine_eq _ fun i hi => (hvalid.inv.clean i hi).1, hunread,
      nextLine_runOut hclean]
    rfl
  have hhandling : (⟨ReadSide.fresh.load p, some .lineOk, p, [], none, none⟩ : Session).handling =
      some ((ReadSide.fresh.load p).skip p.length) := by
    simp only [handling, htest]
  refine ⟨_, _, hrun, hhandling, rfl, fun hend => ?_⟩
  rcases (terminated_runOut hvalid.inv _).1 hend with hlt | hmem
  · have hindex : (ReadSide.fresh.load p).readIndex = p.length := Nat.zero_add _
    exact absurd (hindex.trans hlen) (ne_of_lt hlt)
  · rw [hslice] at hmem
    exact hzero hmem

/-- **2048 bytes without a line end.** The buffer is full and the scanner hands all of it to `parseRequestLine`. -/
theorem line_unterminated : ∃ s r, Run.exec step start (arrival (List.replicate readBufferSize 97)) = some s ∧
    s.handling = some r ∧ r.checkState = .requestLine ∧
    ¬ ∃ j, r.startLine ≤ j ∧ j < readBufferSize ∧ r.readBuffer.get j = 0 := by
  apply arrival_unterminated
  · exact List.length_replicate
  · intro b hb
    rw [List.eq_of_mem_replicate hb]
    decide
  · intro hmem
    have hbyte : (0 : UInt8) = 97 := List.eq_of_mem_replicate hmem
    exact absurd hbyte (by decide)

end Session

end WebServer.HttpConn
