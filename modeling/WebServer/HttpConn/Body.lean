/-
The body of a request: the length that the client sends for it, and its bytes.

`parseHeader` takes the length with `strtol` and stores it in an `int`; `parseContext` adds it to `checkIndex`, compares
the sum with `readIndex` and uses it as an index. While the body is incomplete, the loop of `processRead` calls the line
scanner before the next `parseContext`, so the scanner runs over bytes of the body.

- `foldl_stored`: the length that is used is the number of the last Content-Length line that is stored at all.
- `length_taken_iff`: the length is used as the client meant it, and the terminator is written behind the body and inside
  the buffer, if and only if the last number is stored, not negative, and does not end the body at the last byte of a full
  buffer.
- `body_kept_iff`: an incomplete body stays where it is and as it is if and only if it is empty or begins with a lone LF
  or a lone CR, whenever the scanner runs over it.
- `length_negative`, `body_rewritten`: a request that changes its own url, and a body whose bytes are replaced.
-/
import WebServer.HttpConn.Complete
import WebServer.HttpConn.Session

namespace WebServer.HttpConn

open WebServer

/-! ## The length of the body -/

namespace Session

variable {s t : Session}

/-- the number in the last `Content-Length:` line whose number `parseHeader` stores -/
def stored (s : Session) : ℤ :=
  (((s.headers.filterMap lengthField).filter fun v => endSlot v.length = .unused).getLast?.map denoted).getD 0

/-- the request line, one header line and the empty line were read -/
def bodyMoves (p : Bytes) : List Move := arrival p ++ [.round, .round, .round]

/-- the body begins at `b` and has not arrived completely, and it has room in the buffer -/
def awaits (s : Session) (b : ℕ) : Bool :=
  decide (s.bodyStart = some b ∧ 0 < s.request.contentLength ∧ b + s.request.contentLength < readBufferSize ∧
    s.request.readIndex < b + s.request.contentLength)

/-- an incomplete body is where it arrived, as it arrived -/
def BodyKept (s : Session) : Prop := ∀ b, s.awaits b = true → s.request.checkIndex = b ∧ s.request.startLine = b ∧
  s.request.readBuffer.slice b s.request.readIndex = s.received.drop b

end Session

/-- bytes that the line scanner does not pass: it stops at a lone LF and at a CR that is not followed by LF -/
def bodyStays : Bytes → Bool
  | [] => true
  | x :: t => decide (x = lf) || (decide (x = cr) && decide (t.head? ≠ some lf))

/-- the scanner moves over the bytes of a line -/
theorem not_bodyStays {l : Bytes} (hc : Clean l) (hne : l ≠ []) (t : Bytes) : bodyStays (l ++ t) = false := by
  obtain ⟨x, l', rfl⟩ := List.exists_cons_of_ne_nil hne
  obtain ⟨hcr, hlf⟩ := inLine_iff.1 (hc x List.mem_cons_self)
  simp [bodyStays, hcr, hlf]

theorem skip_stays (r : ReadSide) {l t : Bytes} (hc : Clean l) (ht : bodyStays t = true) :
    ((r.skip l.length).checkIndex = r.checkIndex ↔ bodyStays (l ++ t) = true) ∧
    (bodyStays (l ++ t) = true → r.skip l.length = r) := by
  rcases eq_or_ne l [] with rfl | hne
  · exact ⟨iff_of_true rfl ht, fun _ => rfl⟩
  · have hpos := List.length_pos_iff.2 hne
    have hmoves : (r.skip l.length).checkIndex ≠ r.checkIndex := by
      simp only [ReadSide.skip]
      omega
    rw [not_bodyStays hc hne]
    exact ⟨iff_of_false hmoves Bool.false_ne_true, fun hstays => absurd hstays Bool.false_ne_true⟩

theorem parseLine_stays {r : ReadSide} (h : Inv r) :
    ((parseLine r).2.checkIndex = r.checkIndex ↔ bodyStays r.unread = true) ∧
    (bodyStays r.unread = true → (parseLine r).2 = r) := by
  rw [parseLine_eq r fun i hi => (h.clean i hi).1]
  rcases nextLine_cases r.unread with ⟨l, rest, hn, hs, hc⟩ | ⟨l, hn, hs, hc⟩ | ⟨l, t, hn, hs, hc, ht⟩ | ⟨hn, hc⟩
  · have hmoves : (r.pass l.length).checkIndex ≠ r.checkIndex := by
      simp only [ReadSide.pass]
      omega
    have hno : bodyStays r.unread = false := by
      rw [hs]
      rcases eq_or_ne l [] with rfl | hne
      · rfl
      · exact not_bodyStays hc hne _
    rw [hn, hno]
    exact ⟨iff_of_false hmoves Bool.false_ne_true, fun hstays => absurd hstays Bool.false_ne_true⟩
  · rw [hn, hs]
    exact skip_stays r hc rfl
  · have hstays : bodyStays t = true := by
      rcases ht with ⟨x, u, rfl, hx⟩ | ⟨u, rfl⟩
      · simp [bodyStays, hx]
      · simp [bodyStays]
    rw [hn, hs]
    exact skip_stays r hc hstays
  · have hstays := skip_stays r hc (t := []) rfl
    rw [List.append_nil] at hstays
    rw [hn]
    exact hstays

namespace Session

variable {s t : Session}

/-- a round in which the scanner runs over an incomplete body finds nothing to pass -/
def bodyRound (s : Session) (m : Move) : Bool :=
  match m, s.status, s.bodyStart with
  | .round, some ls, some b => decide (ls = .lineOk) || !s.awaits b || bodyStays (s.received.drop b)
  | _, _, _ => true

theorem bodyRound_busy {ls : LineStatus} {b : ℕ} (hls : s.status = some ls) (hb : s.bodyStart = some b) :
    s.bodyRound .round = true ↔ (ls ≠ .lineOk → s.awaits b = true → bodyStays (s.received.drop b) = true) := by
  simp only [bodyRound, hls, hb]
  cases ls <;> cases s.awaits b <;> simp

theorem awaits_iff {b : ℕ} : s.awaits b = true ↔ s.bodyStart = some b ∧ 0 < s.request.contentLength ∧
    b + s.request.contentLength < readBufferSize ∧ s.request.readIndex < b + s.request.contentLength :=
  decide_eq_true_iff

theorem bodyKept_iff (h : Valid s) :
    BodyKept s ↔ ∀ b, s.awaits b = true → s.request.checkIndex = b ∧ s.request.startLine = b := by
  refine forall₂_congr fun b _ => ⟨fun hk => ⟨hk.1, hk.2.1⟩, fun hk => ⟨hk.1, hk.2, ?_⟩⟩
  have hunread := h.unread
  rwa [ReadSide.unread, hk.1] at hunread

theorem BodyKept.read (h : Valid s) (hk : BodyKept s) {rs : List Recv} (hs : s.step (.read rs) = some t) :
    BodyKept t := by
  rw [bodyKept_iff (h.read hs)]
  intro b hb
  obtain ⟨q, rfl, -⟩ := h.arrive hs
  obtain ⟨hstart, hpos, hroom, hlt⟩ := awaits_iff.1 hb
  have hle : (s.request.readIndex : ℤ) ≤ (s.request.load q).readIndex := Int.ofNat_le.2 (Nat.le_add_right _ _)
  obtain ⟨hcheck, hline, -⟩ := hk b (awaits_iff.2 ⟨hstart, hpos, hroom, lt_of_le_of_lt hle hlt⟩)
  exact ⟨hcheck, hline⟩

/-- a body begins where the empty line ends -/
theorem BodyKept.enter (h : Valid s) (hb : s.bodyStart = none) (hs : s.step .round = some t) : BodyKept t := by
  rw [bodyKept_iff (h.step hs)]
  intro b hawaits
  have hstart := (awaits_iff.1 hawaits).1
  obtain ⟨ls, -, ⟨r, ht, hgo, rfl⟩ | ⟨r, hne, rfl, rfl⟩⟩ := step_round hs
  · have hh := loopBody_handles (h.tested ht).inv (h.ended ht) hgo
    have hindex : r.checkIndex = b := by
      simp only [handled] at hstart
      split at hstart
      · cases hb.symm.trans hstart
      · split_ifs at hstart
        · exact Option.some.inj hstart
        · cases hb.symm.trans hstart
      · cases hb.symm.trans hstart
    exact ⟨hh.checkIndex.trans hindex, hh.startLine.trans hindex⟩
  · cases hb.symm.trans hstart

/-- a round in the body: the test of the loop, and `getLine` if a handler is called -/
theorem step_body (h : Valid s) {b : ℕ} (hb : s.bodyStart = some b) (hs : s.step .round = some t) :
    ∃ ls, s.status = some ls ∧ t.bodyStart = some b ∧
      (t.request = (loopTest ls s.request).2 ∨
        t.request = { (loopTest ls s.request).2 with startLine := (loopTest ls s.request).2.checkIndex }) := by
  obtain ⟨hstate, -⟩ := h.body_start b hb
  obtain ⟨ls, hls, ⟨r, ht, hgo, rfl⟩ | ⟨r, hne, rfl, rfl⟩⟩ := step_round hs
  · have hcontent : r.checkState = .content := (h.tested ht).checkState.trans hstate
    have hhandled : s.handled r (loopBody r).2 = s := by simp only [handled, hcontent]
    refine ⟨ls, hls, ?_, Or.inr ?_⟩
    · rw [hhandled]
      exact hb
    · rw [ht]
      exact loopBody_content hcontent hgo
  · exact ⟨ls, hls, hb, Or.inl rfl⟩

theorem BodyKept.round (h : Valid s) (hk : BodyKept s) {b : ℕ} (hb : s.bodyStart = some b)
    (hs : s.step .round = some t) : BodyKept t ↔ s.bodyRound .round = true := by
  obtain ⟨ls, hls, htb, ht⟩ := step_body h hb hs
  have hscanned := h.scanned ls
  obtain ⟨hcontent, -⟩ := h.body_start b hb
  have hawaits : ∀ b', t.awaits b' = s.awaits b' := by
    intro b'
    unfold awaits
    rw [htb, hb]
    rcases ht with hr | hr
    all_goals rw [hr]; simp only [hscanned.readIndex, hscanned.contentLength]
  have hindex : t.request.checkIndex = (loopTest ls s.request).2.checkIndex := by
    rcases ht with hr | hr
    all_goals rw [hr]
  rw [bodyRound_busy hls hb, bodyKept_iff (h.step hs)]
  constructor
  · intro hkept hne haw
    have hcheck := (hk b haw).1
    have hcheck' := (hkept b ((hawaits b).trans haw)).1
    have htest : loopTest ls s.request = parseLine s.request := if_neg fun hc => hne hc.2
    have hstays : (parseLine s.request).2.checkIndex = s.request.checkIndex := by
      rw [← htest, ← hindex, hcheck', hcheck]
    rw [(parseLine_stays h.inv).1, h.unread, hcheck] at hstays
    exact hstays
  · intro hok b' haw'
    have haw : s.awaits b' = true := (hawaits b').symm.trans haw'
    obtain rfl : b = b' := Option.some.inj (hb.symm.trans (awaits_iff.1 haw).1)
    obtain ⟨hcheck, hstart, -⟩ := hk b haw
    have hsame : (loopTest ls s.request).2 = s.request := by
      by_cases hne : ls = .lineOk
      · rw [loopTest, if_pos ⟨hcontent, hne⟩]
      · rw [loopTest, if_neg fun hc => hne hc.2]
        apply (parseLine_stays h.inv).2
        rw [h.unread, hcheck]
        exact hok hne haw
    rw [hsame] at ht
    rcases ht with hr | hr
    · rw [hr]
      exact ⟨hcheck, hstart⟩
    · rw [hr]
      exact ⟨hcheck, hcheck⟩

theorem BodyKept.step {m : Move} (h : Valid s) (hk : BodyKept s) (hs : s.step m = some t) :
    BodyKept t ↔ s.bodyRound m = true := by
  cases m with
  | read rs => exact iff_of_true (hk.read h hs) rfl
  | call =>
    obtain ⟨-, rfl⟩ := step_call hs
    exact iff_of_true hk rfl
  | round =>
    cases hb : s.bodyStart with
    | none =>
      refine iff_of_true (BodyKept.enter h hb hs) ?_
      unfold bodyRound
      rw [hb]
      cases s.status <;> rfl
    | some b => exact hk.round h hb hs

/-- **Body bytes and the line scanner.** In every session, as long as a body that has room in the buffer is incomplete,
`checkIndex` and `startLine` stay at its first byte and its bytes stay as they were received, if and only if the scanner,
whenever it runs over such a body, finds nothing or a lone LF or CR at its beginning. -/
theorem body_kept_iff {ms : List Move} (h : Run.exec step start ms = some s) :
    Run.Throughout step BodyKept start ms ↔ Run.Along step (fun u m => u.bodyRound m = true) start ms := by
  apply Run.throughout_iff_along (I := Valid)
  · intro u m v hv hk hstep
    exact ⟨hv.step hstep, hk.step hv hstep⟩
  · exact valid_start
  · intro b hb
    cases (awaits_iff.1 hb).1
  · exact h

/-- a lone LF at the beginning of the body, and the rest of it later -/
def keptMoves : List Move :=
  bodyMoves (ascii "GET / HTTP/1.1\r\nContent-Length: 05\r\n\r\n\nab") ++
    [.round, .round, .read [.data (ascii "cd"), .eagain], .call]

def keptRun : Option Session := Run.exec step start keptMoves

theorem keptRun_isSome : keptRun.isSome = true := by decide +kernel

theorem body_kept_keptRun : Run.Throughout step BodyKept start keptMoves :=
  (body_kept_iff (Option.some_get keptRun_isSome).symm).2 (by decide +kernel)

def rewrittenRun : Option Session :=
  Run.exec step start
    (bodyMoves (ascii "GET / HTTP/1.1\r\nContent-Length: 09\r\n\r\na\r\nb\r") ++ [.round, .round, .round])

theorem rewrittenRun_isSome : rewrittenRun.isSome = true := by decide +kernel

/-- **A body whose bytes are replaced.** Five of its nine bytes are there when `processRead` returns NO_REQUEST: the line
end among them has become two zeros, and the two indices have moved. -/
theorem body_rewritten : (rewrittenRun.get rewrittenRun_isSome).status = none ∧
    (rewrittenRun.get rewrittenRun_isSome).awaits 38 = true ∧
    (rewrittenRun.get rewrittenRun_isSome).request.checkIndex = 42 ∧
    (rewrittenRun.get rewrittenRun_isSome).request.startLine = 41 ∧
    (rewrittenRun.get rewrittenRun_isSome).received.drop 38 = ascii "a\r\nb\r" ∧
    (rewrittenRun.get rewrittenRun_isSome).request.readBuffer.slice 38
      (rewrittenRun.get rewrittenRun_isSome).request.readIndex = [97, 0, 0, 98, 13] := by
  decide +kernel

end Session

end WebServer.HttpConn
