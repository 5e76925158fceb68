/-
The text of a response, byte for byte.

- `responseHead`: status line, `Content-Length`, `Content-Type`, `Connection` and the empty line.
- `processWrite_written`: `processWrite` on an empty buffer leaves exactly the head and, for an error code, its text.
  The texts are so short that none of the calls of `addResponse` whose results `addHeaders` ignores can fail.
- `processWrite_response`: `Content-Length` counts the bytes behind the head, and `bytesToSend` those of the entries.
- `write_completes`: the call of `write` that sends the last byte returns `linger`.
-/
import WebServer.HttpConn.Effects

namespace WebServer.HttpConn

open WebServer

/-! ## Texts -/

def responseHead (code : HttpCode) (contentLength : ℤ) (linger : Bool) : Bytes :=
  (headTexts code.status code.title contentLength linger).flatten

/-- the bytes that follow the head: the text of the error, or the file -/
def bodyLength (code : HttpCode) (c : Conn) : ℕ :=
  if code = .fileRequest then c.fileStat.stSize else code.form.length

/-- `writeBuffer[0..writeIndex)` -/
def Conn.written (c : Conn) : Bytes := c.writeBuffer.slice 0 c.writeIndex

/-! ## What is written -/

theorem written_put {c : Conn} {text : Bytes} (h : c.writeIndex + text.length < writeBufferSize) :
    (c.put text).written = c.written ++ text := by
  have hcopy : (c.writeBuffer.write c.writeIndex (text ++ [0])).slice c.writeIndex
      (c.writeIndex + (text ++ [0]).length) = text ++ [0] :=
    Buf.slice_write _ _ _ (by rw [List.length_append, List.length_singleton]; omega)
  have hold : (c.put text).writeBuffer.slice 0 c.writeIndex = c.written :=
    Buf.slice_congr fun k _ hk => Buf.get_write_lt _ _ hk
  have hnew : (c.put text).writeBuffer.slice c.writeIndex (c.writeIndex + text.length) = text :=
    (Buf.slice_eq_append hcopy).1
  calc (c.put text).written
      = (c.put text).writeBuffer.slice 0 c.writeIndex ++
          (c.put text).writeBuffer.slice c.writeIndex (c.writeIndex + text.length) :=
        (Buf.slice_append _ (Nat.zero_le _) (Nat.le_add_right _ _)).symm
    _ = c.written ++ text := by rw [hold, hnew]

theorem written_putAll (c : Conn) (texts : List Bytes) (h : c.writeIndex + texts.flatten.length < writeBufferSize) :
    (c.putAll texts).written = c.written ++ texts.flatten := by
  induction texts generalizing c with
  | nil => simp [Conn.putAll]
  | cons t ts ih =>
    rw [List.flatten_cons, List.length_append] at h
    have hindex : (c.put t).writeIndex = c.writeIndex + t.length := rfl
    have hrest := ih (c.put t) (by omega)
    rw [written_put (by omega)] at hrest
    rw [List.flatten_cons, ← List.append_assoc]
    exact hrest

theorem written_nil {c : Conn} (h : c.writeIndex = 0) : c.written = [] := by
  rw [Conn.written, h]
  exact Buf.slice_eq_nil _ le_rfl

theorem errorResponse_written {status : ℤ} {title form : Bytes} {c : Conn} (hc : c.writeIndex = 0)
    (hs1 : -2 ^ 31 ≤ status) (hs2 : status < 2 ^ 31) (hlen : title.length + form.length ≤ 1000) :
    (errorResponse status title form c).2.written =
      (headTexts status title form.length c.linger).flatten ++ form := by
  have hsize : writeBufferSize = 2048 := rfl
  obtain ⟨-, hle⟩ := length_headTexts (n := form.length) title c.linger hs1 hs2 (by omega) (by omega)
  have hhead := head_put (c := c) status title form.length (by rw [hc]; omega)
  have htext := written_putAll c (headTexts status title form.length c.linger) (by rw [hc]; omega)
  have hindex := (putAll_spec c (headTexts status title form.length c.linger)).2
  rw [written_nil hc, List.nil_append] at htext
  generalize c.putAll (headTexts status title form.length c.linger) = d at hhead htext hindex
  have hform : addResponse form d = (true, d.put form) := addResponse_put (by rw [hindex, hc]; omega)
  rw [← htext, ← written_put (by rw [hindex, hc]; omega)]
  unfold errorResponse addContent
  dsimp only
  rw [hhead, hform]
  rfl

theorem fileResponse_written {c : Conn} (hc : c.writeIndex = 0) :
    (fileResponse c).2.written = (headTexts 200 ok200Title (int32 c.fileStat.stSize) c.linger).flatten := by
  have hst : (addStatusLine 200 ok200Title c).2.fileStat = c.fileStat := (addResponse_kept _ c).fileStat
  obtain ⟨hn1, hn2, -⟩ := int32_spec c.fileStat.stSize
  obtain ⟨-, hle⟩ := @length_headTexts 200 ok200Title _ c.linger (by decide) (by decide) hn1 hn2
  have hlt : ok200Title.length = 2 := rfl
  have hsize : writeBufferSize = 2048 := rfl
  have hhead := head_put (c := c) 200 ok200Title (int32 c.fileStat.stSize) (by rw [hc]; omega)
  have htext := written_putAll c (headTexts 200 ok200Title (int32 c.fileStat.stSize) c.linger) (by rw [hc]; omega)
  rw [written_nil hc, List.nil_append] at htext
  generalize c.putAll (headTexts 200 ok200Title (int32 c.fileStat.stSize) c.linger) = d at hhead htext
  rw [← htext]
  unfold fileResponse
  dsimp only
  rw [hst, hhead]
  simp only [Conn.written]

/-- **The text of a response.** -/
theorem processWrite_written {code : HttpCode} {c : Conn} (hcode : code.answered = true) (hc : c.writeIndex = 0) :
    (processWrite code c).2.written = responseHead code (int32 (bodyLength code c)) c.linger ++ code.form := by
  by_cases hfile : code = .fileRequest
  · subst hfile
    rw [show (HttpCode.form .fileRequest) = [] from rfl, List.append_nil]
    exact fileResponse_written hc
  · have hlen := length_texts code
    obtain ⟨hs1, hs2⟩ := status_bounds code
    rw [bodyLength, if_neg hfile, int32_natCast (by omega), processWrite_error hcode hfile]
    exact errorResponse_written hc hs1 hs2 hlen

/-! ## Lengths -/

/-- a response as it is generated -/
structure Response (code : HttpCode) (c : Conn) : Prop where
  /-- `Content-Length` is the number of bytes behind the head -/
  text : c.written = responseHead code (bodyLength code c) c.linger ++ code.form
  whole : c.bytesToSend = (responseHead code (bodyLength code c) c.linger).length + bodyLength code c
  iov : c.iov = ⟨.writeBuffer 0, c.writeIndex⟩ ::
    (if code = .fileRequest then [⟨.mem c.fileAddress, c.fileStat.stSize⟩] else [])
  toSend : c.bytesToSend = (c.iov.map IoVec.len).sum

theorem length_written (c : Conn) : c.written.length = c.writeIndex := by
  rw [Conn.written, Buf.length_slice, Nat.sub_zero]

/-- **Lengths of a response.** -/
theorem processWrite_response {code : HttpCode} {c : Conn} (hcode : code.answered = true) (hc : c.writeIndex = 0)
    (hfit : code = .fileRequest → (processWrite code c).2.writeIndex + c.fileStat.stSize < 2 ^ 31) :
    Response code (processWrite code c).2 := by
  obtain ⟨-, hp⟩ := processWrite_spec hcode hc
  have htext := processWrite_written hcode hc
  have hlen := length_written (processWrite code c).2
  have hlinger : (processWrite code c).2.linger = c.linger := congrArg ReadSide.linger hp.kept.readSide
  have hbody : bodyLength code (processWrite code c).2 = bodyLength code c := by
    rw [bodyLength, bodyLength, hp.kept.fileStat]
  have haddr := hp.kept.fileAddress
  have hstat := hp.kept.fileStat
  generalize (processWrite code c).2 = d at *
  have hiv0 : d.iv0 = ⟨.writeBuffer 0, d.writeIndex⟩ := hp.iv0
  have hdeclared : int32 (bodyLength code c) = bodyLength code c := by
    apply int32_natCast
    by_cases hfile : code = .fileRequest
    · have := hfit hfile
      rw [bodyLength, if_pos hfile]
      omega
    · have hlen := length_texts code
      rw [bodyLength, if_neg hfile]
      omega
  rw [hdeclared] at htext
  rw [htext, List.length_append] at hlen
  by_cases hfile : code = .fileRequest
  · obtain ⟨hcount, hiv1, hto⟩ := hp.file hfile
    have hlt := hfit hfile
    rw [int32_eq (by omega) (by omega)] at hto
    have hiov : d.iov = [⟨.writeBuffer 0, d.writeIndex⟩, ⟨.mem d.fileAddress, d.fileStat.stSize⟩] := by
      rw [Conn.iov, hcount, hiv0, hiv1, haddr, hstat]
      rfl
    have hform : code.form.length = 0 := by rw [hfile]; rfl
    refine ⟨by rw [htext, hbody, hlinger], ?_, by rw [hiov, if_pos hfile], ?_⟩
    · rw [hbody, hlinger, hto, ← hlen, hform, bodyLength, if_pos hfile]
      simp
    · rw [hiov, hto, hstat]
      simp
  · obtain ⟨hcount, hto⟩ := hp.error hfile
    have hiov : d.iov = [⟨.writeBuffer 0, d.writeIndex⟩] := by
      rw [Conn.iov, hcount, hiv0]
      rfl
    refine ⟨by rw [htext, hbody, hlinger], ?_, by rw [hiov, if_neg hfile], ?_⟩
    · rw [hbody, hlinger, hto, ← hlen, bodyLength, if_neg hfile]
      simp
    · rw [hiov, hto]
      simp

/-! ## Sending -/

/-- among these results is the one with which everything is sent -/
def sendsLast : List Writev → Conn → Bool
  | .sent n :: rs, c => decide ((advance c n).bytesToSend ≤ 0) || sendsLast rs (advance c n)
  | _, _ => false

/-- a call of `write` that sends the rest of a response -/
def completes (rs : List Writev) (c : Conn) : Bool := decide (c.bytesToSend ≠ 0) && sendsLast rs c

theorem advance_writeBuffer (c : Conn) (n : ℕ) : (advance c n).writeBuffer = c.writeBuffer := by
  unfold advance
  dsimp only
  split_ifs <;> rfl

theorem writeLoop_completes {rs : List Writev} {c : Conn} {e : Env} (h : sendsLast rs c = true) :
    ∃ d e', d.sockfd = c.sockfd ∧ writeLoop rs c e = some (c.linger, if c.linger then d.init else d, e') := by
  induction rs generalizing c e with
  | nil => cases h
  | cons r rs ih =>
    cases r with
    | eagain => cases h
    | error => cases h
    | sent n =>
      have hs := (Sends.refl c).advance n
      have hlinger : (advance c n).linger = c.linger := congrArg ReadSide.linger hs.readSide
      have hunmapped : (advance c n).unmapped.linger = c.linger := hlinger
      have hsock : (advance c n).unmapped.sockfd = c.sockfd := hs.sockfd
      simp only [writeLoop, unmap_eq, hunmapped]
      by_cases hz : (advance c n).bytesToSend ≤ 0
      · rw [if_pos hz]
        cases c.linger with
        | true => exact ⟨_, _, hsock, rfl⟩
        | false => exact ⟨_, _, hsock, rfl⟩
      · simp only [sendsLast, hz, decide_false, Bool.false_or] at h
        rw [if_neg hz, ← hlinger, ← hs.sockfd]
        exact ih h

/-- **The last call of `write` for a response returns `linger`**, and resets the object if the connection stays. -/
theorem write_completes {rs : List Writev} {c : Conn} {e : Env} (h : completes rs c = true) :
    ∃ d e', d.sockfd = c.sockfd ∧ write rs c e = some (c.linger, if c.linger then d.init else d, e') := by
  simp only [completes, Bool.and_eq_true, decide_eq_true_eq] at h
  unfold write
  rw [if_neg h.1]
  exact writeLoop_completes h.2

end WebServer.HttpConn
