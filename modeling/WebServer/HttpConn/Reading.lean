/-
The states in which the request members can be while a request is received: `read` stores bytes behind those that are
there, `processRead` parses them and, with NO_REQUEST, leaves its state for the next call.

- `Reading`: these states, from `init` on.
- `Reading.steady`: in all of them the members fit together (`Inv`), more bytes do not run into the recorded strings, and
  `contentLength` has at most nine digits.
-/
import WebServer.HttpConn.Conn
import WebServer.HttpConn.Rounds

namespace WebServer.HttpConn

open WebServer

/-! ## Lengths -/

namespace Stream

/-- `contentLength` after the handler of a line -/
theorem body_length {a : Stream} (h1 : -10 ^ 9 ≤ a.contentLength) (h2 : a.contentLength < 10 ^ 9) :
    -10 ^ 9 ≤ a.body.2.contentLength ∧ a.body.2.contentLength < 10 ^ 9 := by
  cases hs : a.state with
  | requestLine =>
    rw [body_requestLine hs]
    exact ⟨h1, h2⟩
  | header =>
    rw [body_header hs]
    split_ifs
    · exact ⟨h1, h2⟩
    · exact ⟨h1, h2⟩
    · exact ⟨h1, h2⟩
    · rw [field_contentLength]
      exact lengthAfter_fits h1 h2 _
  | content =>
    rw [body_content hs]
    split_ifs <;> exact ⟨h1, h2⟩

/-- `contentLength` keeps its bounds -/
theorem run_length {a : Stream} {ls : LineStatus} {x : HttpCode × Stream} (h1 : -10 ^ 9 ≤ a.contentLength)
    (h2 : a.contentLength < 10 ^ 9) (h : a.run ls = some x) :
    -10 ^ 9 ≤ x.2.contentLength ∧ x.2.contentLength < 10 ^ 9 := by
  refine Loop.iterate_inv (I := fun x : LineStatus × Stream => -10 ^ 9 ≤ x.2.contentLength ∧ x.2.contentLength < 10 ^ 9)
    (Q := fun x => -10 ^ 9 ≤ x.2.contentLength ∧ x.2.contentLength < 10 ^ 9) ?_ (s := (ls, a)) ⟨h1, h2⟩ h
  rintro ⟨ls, b⟩ ⟨hb1, hb2⟩
  obtain ⟨⟨sc, rs, htest⟩, -, -⟩ := test_moves ls b
  have ht : (b.test ls).2.contentLength = b.contentLength := by rw [htest]
  have hbody := body_length (a := (b.test ls).2) (ht ▸ hb1) (ht ▸ hb2)
  rw [round_eq]
  split_ifs
  · exact hbody
  · exact hbody
  · exact ⟨ht ▸ hb1, ht ▸ hb2⟩

end Stream

/-! ## The states of a request -/

theorem load_nil (r : ReadSide) : r.load [] = r := by
  rw [ReadSide.load, Buf.write_nil]
  rfl

theorem load_load (r : ReadSide) (l m : Bytes) : (r.load l).load m = r.load (l ++ m) := by
  simp only [ReadSide.load, Buf.write_append, List.length_append, Nat.add_assoc]

theorem readLoop_load {rs : List Recv} {r r' : ReadSide} {b : Bool} (hr : readLoop rs r = some (b, r'))
    (h : r.readIndex ≤ readBufferSize) : ∃ q, r' = r.load q ∧ r.readIndex + q.length ≤ readBufferSize := by
  have hnone : ∃ q, r = r.load q ∧ r.readIndex + q.length ≤ readBufferSize := ⟨[], (load_nil r).symm, h⟩
  induction rs generalizing r with
  | nil => cases hr
  | cons x rs ih =>
    cases x with
    | eagain => cases hr; exact hnone
    | error => cases hr; exact hnone
    | eof => cases hr; exact hnone
    | data l =>
      simp only [readLoop] at hr
      split_ifs at hr with hgot
      · cases hr
        exact hnone
      · have hlen : (r.load (l.take (readBufferSize - r.readIndex))).readIndex ≤ readBufferSize := by
          simp only [ReadSide.load, List.length_take]
          omega
        obtain ⟨q, rfl, hq⟩ := ih hr hlen ⟨[], (load_nil _).symm, hlen⟩
        refine ⟨_, load_load r _ q, ?_⟩
        rw [List.length_append]
        simp only [ReadSide.load] at hq
        omega

/-- `read` stores some bytes behind those that are there -/
theorem read_load {rs : List Recv} {r r' : ReadSide} {b : Bool} (hr : read rs r = some (b, r'))
    (h : r.readIndex ≤ readBufferSize) : ∃ q, r' = r.load q ∧ r.readIndex + q.length ≤ readBufferSize := by
  unfold HttpConn.read at hr
  split_ifs at hr
  · cases hr
    exact ⟨[], (load_nil r).symm, h⟩
  · exact readLoop_load hr h

/-- the request members from `init` on, while `read` and `processRead` receive a request; a NO_REQUEST leaves the state
for the next call -/
inductive Reading : ReadSide → Prop
  | init : Reading ReadSide.fresh
  | read {r r' : ReadSide} {rs : List Recv} {b : Bool} (h : Reading r) (hr : read rs r = some (b, r')) : Reading r'
  | parse {r r' : ReadSide} (h : Reading r) (hp : processReadLoop loopRounds .lineOk r = some (.noRequest, r')) :
      Reading r'

structure Steady (r : ReadSide) : Prop where
  inv : Inv r
  /-- more bytes do not run into the recorded strings -/
  strings : r.startLine < r.readIndex ∨ (r.url = none ∧ r.host = none)
  length_ge : -10 ^ 9 ≤ r.contentLength
  length_lt : r.contentLength < 10 ^ 9

theorem Steady.load {r : ReadSide} (h : Steady r) {q : Bytes} (hq : r.readIndex + q.length ≤ readBufferSize) :
    Steady (r.load q) := by
  refine ⟨(load_stream h.inv q hq h.strings).1, ?_, h.length_ge, h.length_lt⟩
  exact h.strings.imp_left fun hlt => Nat.lt_add_right q.length hlt

theorem Steady.parse {r r' : ReadSide} (h : Steady r)
    (hp : processReadLoop loopRounds .lineOk r = some (.noRequest, r')) : Steady r' := by
  obtain ⟨b, hrun, hend⟩ := run_of_loop h.inv hp
  obtain ⟨hinv, hstream, hlt⟩ := hend.resume rfl
  have hlength := Stream.run_length (a := r.stream) h.length_ge h.length_lt hrun
  rw [← hstream] at hlength
  exact ⟨hinv, Or.inl (lt_of_le_of_lt hinv.start_le hlt), hlength.1, hlength.2⟩

theorem Reading.steady {r : ReadSide} (h : Reading r) : Steady r := by
  induction h with
  | init => exact ⟨inv_fresh, Or.inr ⟨rfl, rfl⟩, by decide, by decide⟩
  | @read r r' rs b h hr ih =>
    obtain ⟨q, rfl, hq⟩ := read_load hr ih.inv.read_le
    exact ih.load hq
  | parse h hp ih => exact ih.parse hp

end WebServer.HttpConn
