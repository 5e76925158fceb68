/-
The write buffer under any sequence of calls of `addResponse`.

`addResponse` asks whether the buffer is full, but lets `vsnprintf` format into one byte less than is left, and compares
the length of the text with the same number. `vsnprintf` stores the beginning of a text also when the call is going to
fail. The length it reports is an `int`, so a text has fewer than 2^31 bytes.

- `addResponse_appends`: what one call does, when `writeIndex` has not reached the last byte of the buffer.
- `addResponses_written`: that is so after all calls, and the buffer holds the accepted texts.
- `addResponse_sequence`: both together, for any calls from an empty buffer on.
-/
import WebServer.HttpConn.ResponseText

namespace WebServer.HttpConn

open WebServer

/-! ## One call -/

/-- the bytes that `vsnprintf` stores from `writeIndex` on; none if `addResponse` returns before it -/
def stored (text : Bytes) (c : Conn) : Bytes :=
  if c.writeIndex ≥ writeBufferSize ∨ writeBufferSize - 1 - c.writeIndex = 0 then []
  else text.take (writeBufferSize - 1 - c.writeIndex - 1) ++ [0]

/-- a call with the given text in `c` answers `b` and leaves `c'` -/
structure Appends (text : Bytes) (c : Conn) (b : Bool) (c' : Conn) : Prop where
  accepts : b = true ↔ text.length < writeBufferSize - 1 - c.writeIndex
  appended : b = true → c'.writeIndex = c.writeIndex + text.length ∧ c'.written = c.written ++ text ∧
    c'.writeIndex < writeBufferSize ∧ c'.writeBuffer.get c'.writeIndex = 0
  kept : b = false → c'.writeIndex = c.writeIndex ∧ c'.written = c.written
  stores : c'.writeBuffer = c.writeBuffer.write c.writeIndex (stored text c)
  /-- no store at the last byte of the buffer or behind it -/
  stores_inside : c.writeIndex + (stored text c).length ≤ writeBufferSize - 1

theorem addResponse_stores (text : Bytes) (c : Conn) :
    (addResponse text c).2.writeBuffer = c.writeBuffer.write c.writeIndex (stored text c) := by
  unfold addResponse stored
  by_cases hfull : c.writeIndex ≥ writeBufferSize
  · rw [if_pos hfull, if_pos (Or.inl hfull), Buf.write_nil]
  · simp only [hfull, false_or, if_false]
    split_ifs <;> rfl

theorem stored_length (text : Bytes) {c : Conn} (h : c.writeIndex < writeBufferSize - 1) :
    c.writeIndex + (stored text c).length ≤ writeBufferSize - 1 := by
  unfold stored
  rw [if_neg (by omega), List.length_append, List.length_take, List.length_singleton]
  omega

/-- a text that does not fit -/
theorem addResponse_refuses {text : Bytes} {c : Conn} (h : writeBufferSize - 1 - c.writeIndex ≤ text.length) :
    (addResponse text c).1 = false ∧ (addResponse text c).2.writeIndex = c.writeIndex := by
  unfold addResponse
  split_ifs
  · exact ⟨rfl, rfl⟩
  · dsimp only
    rw [if_pos h]
    exact ⟨rfl, rfl⟩

/-- **One call of `addResponse`.** -/
theorem addResponse_appends (text : Bytes) {c : Conn} (h : c.writeIndex < writeBufferSize - 1) :
    Appends text c (addResponse text c).1 (addResponse text c).2 := by
  have hstores := addResponse_stores text c
  have hinside := stored_length text h
  by_cases hfits : text.length < writeBufferSize - 1 - c.writeIndex
  · have hput : addResponse text c = (true, c.put text) := addResponse_put (by omega)
    rw [hput] at hstores ⊢
    refine ⟨iff_of_true rfl hfits, fun _ => ⟨rfl, written_put (by omega), ?_, ?_⟩, nofun, hstores, hinside⟩
    · have hlt : c.writeIndex + text.length < writeBufferSize := by omega
      exact hlt
    · -- the zero behind the text
      have hzero := Buf.get_write c.writeBuffer c.writeIndex (c.writeIndex + text.length) (text ++ [0])
        (by rw [List.length_append, List.length_singleton]; omega)
      rw [if_pos (Nat.le_add_right _ _), Nat.add_sub_cancel_left, List.getElem?_concat_length, Option.getD_some] at hzero
      exact hzero
  · obtain ⟨hfalse, hindex⟩ := addResponse_refuses (not_lt.1 hfits)
    refine ⟨iff_of_false (by rw [hfalse]; exact Bool.false_ne_true) hfits, fun htrue => ?_, fun _ => ⟨hindex, ?_⟩,
      hstores, hinside⟩
    · rw [hfalse] at htrue
      cases htrue
    · -- what was stored lies behind `writeIndex`
      rw [Conn.written, hindex, hstores]
      exact Buf.slice_congr fun k _ hk => Buf.get_write_lt _ _ hk

/-! ## Sequences of calls -/

/-- the calls with their answers, and the connection after them -/
def addResponses : List Bytes → Conn → List (Bytes × Bool) × Conn
  | [], c => ([], c)
  | text :: texts, c =>
    let call := addResponse text c
    let rest := addResponses texts call.2
    ((text, call.1) :: rest.1, rest.2)

/-- the texts of the calls that answered true -/
def accepted (calls : List (Bytes × Bool)) : List Bytes := (calls.filter Prod.snd).map Prod.fst

theorem addResponses_written (texts : List Bytes) {c : Conn} (h : c.writeIndex < writeBufferSize - 1) :
    (addResponses texts c).2.writeIndex < writeBufferSize - 1 ∧
      (addResponses texts c).2.written = c.written ++ (accepted (addResponses texts c).1).flatten := by
  induction texts generalizing c with
  | nil => exact ⟨h, (List.append_nil _).symm⟩
  | cons text texts ih =>
    have hcall := addResponse_appends text h
    have haccepts := hcall.accepts
    simp only [addResponses, accepted]
    cases hb : (addResponse text c).1 with
    | true =>
      obtain ⟨hindex, hwritten, -⟩ := hcall.appended hb
      obtain ⟨hlt, hrest⟩ := ih (c := (addResponse text c).2) (by have := haccepts.1 hb; omega)
      refine ⟨hlt, ?_⟩
      rw [hrest, hwritten, List.filter_cons_of_pos rfl, List.map_cons, List.flatten_cons, List.append_assoc]
      rfl
    | false =>
      obtain ⟨hindex, hwritten⟩ := hcall.kept hb
      obtain ⟨hlt, hrest⟩ := ih (c := (addResponse text c).2) (by omega)
      refine ⟨hlt, ?_⟩
      rw [hrest, hwritten, List.filter_cons_of_neg Bool.false_ne_true]
      rfl

/-- **Any sequence of calls of `addResponse` from `writeIndex = 0` on.** The buffer holds exactly the accepted texts in
order. The next call answers true if and only if its text is shorter than `WRITE_BUFFER_SIZE - 1 - writeIndex`, and
appends it, with a zero behind it inside the buffer; otherwise `writeIndex` and the bytes before it stay. No call stores
at the last byte of the buffer or behind it. -/
theorem addResponse_sequence (c : Conn) (texts : List Bytes) (text : Bytes) :
    (addResponses texts { c with writeIndex := 0 }).2.written =
      (accepted (addResponses texts { c with writeIndex := 0 }).1).flatten ∧
    Appends text (addResponses texts { c with writeIndex := 0 }).2
      (addResponse text (addResponses texts { c with writeIndex := 0 }).2).1
      (addResponse text (addResponses texts { c with writeIndex := 0 }).2).2 := by
  have hzero : 0 < writeBufferSize - 1 := by decide
  obtain ⟨hlt, hwritten⟩ := addResponses_written texts (c := { c with writeIndex := 0 }) hzero
  have hempty : Conn.written { c with writeIndex := 0 } = [] := written_nil rfl
  rw [hempty, List.nil_append] at hwritten
  exact ⟨hwritten, addResponse_appends text hlt⟩

end WebServer.HttpConn
