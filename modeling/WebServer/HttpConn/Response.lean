/-
The response that `processWrite` prepares: what the `add...` functions put into `writeBuffer`, and the entries and
counters that are left for `write`.

- `addResponse_put`: a text that fits is appended, and `addResponse` answers true.
- `Kept`: the members that no part of `processWrite` touches.
- `processWrite_spec`: started with an empty write buffer, on each of the five codes that have an answer, `processWrite`
  returns true and leaves a pending response (`Prepared`).
-/
import WebServer.HttpConn.Conn

namespace WebServer.HttpConn

open WebServer

/-! ## Appending texts -/

theorem modfd_calls (e : Env) (fd : ℤ) (ev : Interest) : (modfd e fd ev).calls = e.calls := by
  unfold modfd
  split <;> rfl

/-- `text` appended to `writeBuffer`, with a zero behind it -/
def Conn.put (c : Conn) (text : Bytes) : Conn :=
  { c with writeBuffer := c.writeBuffer.write c.writeIndex (text ++ [0]), writeIndex := c.writeIndex + text.length }

theorem addResponse_put {c : Conn} {text : Bytes} (h : c.writeIndex + text.length < writeBufferSize - 1) :
    addResponse text c = (true, c.put text) := by
  unfold addResponse Conn.put
  rw [if_neg (by omega)]
  dsimp only
  rw [if_neg (by omega), if_neg (by omega), List.take_of_length_le (by omega)]

def Conn.putAll (c : Conn) (texts : List Bytes) : Conn := texts.foldl Conn.put c

/-- the members of the connection that `processWrite` does not touch -/
structure Kept (c c' : Conn) : Prop where
  readSide : c'.toReadSide = c.toReadSide
  sockfd : c'.sockfd = c.sockfd
  realFile : c'.realFile = c.realFile
  fileAddress : c'.fileAddress = c.fileAddress
  fileStat : c'.fileStat = c.fileStat
  bytesHaveSend : c'.bytesHaveSend = c.bytesHaveSend

theorem Kept.refl (c : Conn) : Kept c c := ⟨rfl, rfl, rfl, rfl, rfl, rfl⟩

theorem Kept.trans {c d f : Conn} (h : Kept c d) (h' : Kept d f) : Kept c f :=
  ⟨h'.readSide.trans h.readSide, h'.sockfd.trans h.sockfd, h'.realFile.trans h.realFile,
    h'.fileAddress.trans h.fileAddress, h'.fileStat.trans h.fileStat, h'.bytesHaveSend.trans h.bytesHaveSend⟩

theorem addResponse_kept (text : Bytes) (c : Conn) : Kept c (addResponse text c).2 := by
  unfold addResponse
  dsimp only
  split_ifs <;> exact ⟨rfl, rfl, rfl, rfl, rfl, rfl⟩

/-- the header lines -/
theorem addHeaders_kept (n : ℤ) (c : Conn) : Kept c (addHeaders n c).2 := by
  have hlength : Kept c (addContentLength n c).2 := addResponse_kept _ c
  unfold addHeaders
  generalize (addContentLength n c).2 = c₁ at hlength
  have htype : Kept c (addContentType c₁).2 := hlength.trans (addResponse_kept _ c₁)
  generalize (addContentType c₁).2 = c₂ at htype
  have hlinger : Kept c (addLinger c₂).2 := htype.trans (addResponse_kept _ c₂)
  generalize (addLinger c₂).2 = c₃ at hlinger
  exact hlinger.trans (addResponse_kept _ c₃)

/-- the status line and the header lines -/
theorem head_kept (status : ℤ) (title : Bytes) (n : ℤ) (c : Conn) :
    Kept c (addHeaders n (addStatusLine status title c).2).2 :=
  (addResponse_kept _ c).trans (addHeaders_kept n _)

theorem errorResponse_kept (status : ℤ) (title form : Bytes) (c : Conn) :
    Kept c (errorResponse status title form c).2 := by
  have h := (head_kept status title form.length c).trans (addResponse_kept form _)
  unfold errorResponse addContent
  dsimp only
  generalize addResponse form _ = p at h ⊢
  obtain ⟨b, d⟩ := p
  cases b with
  | false => exact h
  | true => exact ⟨h.readSide, h.sockfd, h.realFile, h.fileAddress, h.fileStat, h.bytesHaveSend⟩

theorem fileResponse_kept (c : Conn) : Kept c (fileResponse c).2 := by
  have h := head_kept 200 ok200Title (int32 (addStatusLine 200 ok200Title c).2.fileStat.stSize) c
  unfold fileResponse
  dsimp only
  generalize (addHeaders _ (addStatusLine 200 ok200Title c).2).2 = d at h
  exact ⟨h.readSide, h.sockfd, h.realFile, h.fileAddress, h.fileStat, h.bytesHaveSend⟩

theorem processWrite_kept (ret : HttpCode) (c : Conn) : Kept c (processWrite ret c).2 := by
  cases ret <;> simp only [processWrite]
  case fileRequest => exact fileResponse_kept c
  case noRequest => exact Kept.refl c
  case getRequest => exact Kept.refl c
  case closedConnection => exact Kept.refl c
  case undefined => exact Kept.refl c
  all_goals exact errorResponse_kept _ _ _ _

/-! ## The text of a response -/

/-- the status line, the header lines and the empty line -/
def headTexts (status : ℤ) (title : Bytes) (contentLength : ℤ) (linger : Bool) : List Bytes :=
  [ascii "HTTP/1.1" ++ ascii " " ++ decimal status ++ ascii " " ++ title ++ ascii "\r\n",
    ascii "Content-Length: " ++ decimal contentLength ++ ascii "\r\n",
    ascii "Content-Type:" ++ ascii "text/html" ++ ascii "\r\n",
    ascii "Connection: " ++ (if linger then ascii "keep-alive" else ascii "close") ++ ascii "\r\n",
    ascii "\r\n"]

theorem putAll_spec (c : Conn) (texts : List Bytes) :
    Kept c (c.putAll texts) ∧ (c.putAll texts).writeIndex = c.writeIndex + texts.flatten.length := by
  induction texts generalizing c with
  | nil => exact ⟨Kept.refl c, rfl⟩
  | cons t ts ih =>
    obtain ⟨h1, h2⟩ := ih (c.put t)
    have ht : Kept c (c.put t) := ⟨rfl, rfl, rfl, rfl, rfl, rfl⟩
    refine ⟨ht.trans h1, ?_⟩
    rw [show c.putAll (t :: ts) = (c.put t).putAll ts from rfl, h2]
    simp only [Conn.put, List.flatten_cons, List.length_append]
    omega

/-- texts that fit together are appended one after the other -/
theorem addResponse_all {c : Conn} {texts : List Bytes}
    (h : c.writeIndex + texts.flatten.length < writeBufferSize - 1) :
    texts.foldl (fun c t => (addResponse t c).2) c = c.putAll texts := by
  induction texts generalizing c with
  | nil => rfl
  | cons t ts ih =>
    simp only [List.flatten_cons, List.length_append] at h
    rw [List.foldl_cons, addResponse_put (by omega), ih (by simp only [Conn.put]; omega)]
    rfl

theorem head_put (status : ℤ) (title : Bytes) (n : ℤ) {c : Conn}
    (h : c.writeIndex + (headTexts status title n c.linger).flatten.length < writeBufferSize - 1) :
    (addHeaders n (addStatusLine status title c).2).2 = c.putAll (headTexts status title n c.linger) := by
  rw [← addResponse_all h]
  have hl : (addContentType (addContentLength n (addStatusLine status title c).2).2).2.linger = c.linger :=
    congrArg ReadSide.linger
      (((addResponse_kept _ c).trans (addResponse_kept _ _)).trans (addResponse_kept _ _)).readSide
  unfold addHeaders addLinger
  rw [hl]
  rfl

theorem length_decimal {n : ℤ} (h1 : -2 ^ 31 ≤ n) (h2 : n < 2 ^ 31) : (decimal n).length ≤ 11 := by
  have hd : (Nat.toDigits 10 n.natAbs).length ≤ 10 := (Nat.length_toDigits_le_iff (by decide) (by decide)).2 (by omega)
  unfold decimal
  rw [List.length_append, List.length_map]
  split_ifs <;> simp only [List.length_singleton, List.length_nil] <;> omega

theorem length_headTexts {status : ℤ} (title : Bytes) {n : ℤ} (linger : Bool) (hs1 : -2 ^ 31 ≤ status)
    (hs2 : status < 2 ^ 31) (hn1 : -2 ^ 31 ≤ n) (hn2 : n < 2 ^ 31) :
    0 < (headTexts status title n linger).flatten.length ∧
      (headTexts status title n linger).flatten.length ≤ 102 + title.length := by
  have h1 := length_decimal hs1 hs2
  have h2 := length_decimal hn1 hn2
  have h3 : (if linger then ascii "keep-alive" else ascii "close").length ≤ 10 := by cases linger <;> decide
  have l1 : (ascii "HTTP/1.1").length = 8 := rfl
  have l2 : (ascii " ").length = 1 := rfl
  have l3 : (ascii "\r\n").length = 2 := rfl
  have l4 : (ascii "Content-Length: ").length = 16 := rfl
  have l5 : (ascii "Content-Type:").length = 13 := rfl
  have l6 : (ascii "text/html").length = 9 := rfl
  have l7 : (ascii "Connection: ").length = 12 := rfl
  simp only [headTexts, List.flatten_cons, List.flatten_nil, List.length_append, List.length_nil, l1, l2, l3, l4, l5, l6,
    l7]
  omega

/-! ## The prepared response -/

/-- a response that is ready to be sent -/
structure Prepared (ret : HttpCode) (c c' : Conn) : Prop where
  kept : Kept c c'
  index_pos : 0 < c'.writeIndex
  index_lt : c'.writeIndex < writeBufferSize - 1
  iv0 : c'.iv0 = ⟨.writeBuffer 0, c'.writeIndex⟩
  error : ret ≠ .fileRequest → c'.ivCount = 1 ∧ c'.bytesToSend = c'.writeIndex
  file : ret = .fileRequest → c'.ivCount = 2 ∧ c'.iv1 = ⟨.mem c.fileAddress, c.fileStat.stSize⟩ ∧
    c'.bytesToSend = int32 (c'.writeIndex + c.fileStat.stSize)

theorem errorResponse_spec {ret : HttpCode} {status : ℤ} {title form : Bytes} {c : Conn} (hret : ret ≠ .fileRequest)
    (hc : c.writeIndex = 0) (hs1 : -2 ^ 31 ≤ status) (hs2 : status < 2 ^ 31)
    (hlen : title.length + form.length ≤ 1000) :
    (errorResponse status title form c).1 = true ∧ Prepared ret c (errorResponse status title form c).2 := by
  have hsize : writeBufferSize = 2048 := rfl
  obtain ⟨hpos, hle⟩ := length_headTexts (n := form.length) title c.linger hs1 hs2 (by omega) (by omega)
  have hhead := head_put (c := c) status title form.length (by rw [hc]; omega)
  obtain ⟨hk, hw⟩ := putAll_spec c (headTexts status title form.length c.linger)
  generalize c.putAll (headTexts status title form.length c.linger) = d at hhead hk hw
  have hform : addResponse form d = (true, d.put form) := addResponse_put (by rw [hw, hc]; omega)
  unfold errorResponse addContent
  dsimp only
  rw [hhead, hform]
  refine ⟨rfl, ⟨hk.readSide, hk.sockfd, hk.realFile, hk.fileAddress, hk.fileStat, hk.bytesHaveSend⟩, ?_, ?_, rfl,
    fun _ => ⟨rfl, rfl⟩, fun h => absurd h hret⟩
  · simp only [Conn.put, hw, hc]; omega
  · simp only [Conn.put, hw, hc]; omega

theorem fileResponse_spec {c : Conn} (hc : c.writeIndex = 0) :
    (fileResponse c).1 = true ∧ Prepared .fileRequest c (fileResponse c).2 := by
  have hst : (addStatusLine 200 ok200Title c).2.fileStat = c.fileStat := (addResponse_kept _ c).fileStat
  obtain ⟨hn1, hn2, -⟩ := int32_spec c.fileStat.stSize
  obtain ⟨hpos, hle⟩ := @length_headTexts 200 ok200Title _ c.linger (by decide) (by decide) hn1 hn2
  have hlt : ok200Title.length = 2 := rfl
  have hsize : writeBufferSize = 2048 := rfl
  have hhead := head_put (c := c) 200 ok200Title (int32 c.fileStat.stSize)
    (by rw [hc]; omega)
  obtain ⟨hk, hw⟩ := putAll_spec c (headTexts 200 ok200Title (int32 c.fileStat.stSize) c.linger)
  generalize c.putAll (headTexts 200 ok200Title (int32 c.fileStat.stSize) c.linger) = d at hhead hk hw
  unfold fileResponse
  dsimp only
  rw [hst, hhead]
  refine ⟨rfl, ⟨hk.readSide, hk.sockfd, hk.realFile, hk.fileAddress, hk.fileStat, hk.bytesHaveSend⟩, ?_, ?_, rfl,
    fun h => absurd rfl h, fun _ => ?_⟩
  · simp only [hw, hc]; omega
  · simp only [hw, hc]; omega
  · simp only [hk.fileAddress, hk.fileStat, and_self]

/-! ## Codes -/

/-- the codes with an answer -/
def HttpCode.answered : HttpCode → Bool
  | .badRequest | .noResource | .forbiddenRequest | .fileRequest | .internalError => true
  | _ => false

/-- the number in the status line -/
def HttpCode.status : HttpCode → ℤ
  | .internalError => 500
  | .badRequest => 400
  | .noResource => 404
  | .forbiddenRequest => 403
  | _ => 200

/-- the words in the status line -/
def HttpCode.title : HttpCode → Bytes
  | .internalError => error500Title
  | .badRequest => error400Title
  | .noResource => error404Title
  | .forbiddenRequest => error403Title
  | _ => ok200Title

/-- the text of an error; the content of a file is not copied into `writeBuffer` -/
def HttpCode.form : HttpCode → Bytes
  | .internalError => error500Form
  | .badRequest => error400Form
  | .noResource => error404Form
  | .forbiddenRequest => error403Form
  | _ => []

theorem length_texts (code : HttpCode) : code.title.length + code.form.length ≤ 1000 := by
  cases code <;> decide +kernel

theorem processWrite_error {code : HttpCode} (hcode : code.answered = true) (hfile : code ≠ .fileRequest) (c : Conn) :
    processWrite code c = errorResponse code.status code.title code.form c := by
  cases code with
  | internalError | badRequest | noResource | forbiddenRequest => rfl
  | fileRequest => exact absurd rfl hfile
  | noRequest | getRequest | closedConnection | undefined => cases hcode

theorem status_bounds (code : HttpCode) : -2 ^ 31 ≤ code.status ∧ code.status < 2 ^ 31 := by
  cases code <;> decide

/-- **`processWrite` on an empty buffer prepares a response and returns true.** -/
theorem processWrite_spec {ret : HttpCode} {c : Conn} (hret : ret.answered = true) (hc : c.writeIndex = 0) :
    (processWrite ret c).1 = true ∧ Prepared ret c (processWrite ret c).2 := by
  by_cases hfile : ret = .fileRequest
  · subst hfile
    exact fileResponse_spec hc
  · rw [processWrite_error hret hfile]
    exact errorResponse_spec hfile hc (status_bounds ret).1 (status_bounds ret).2 (length_texts ret)

/-- `process` when the request has an answer and the response fits -/
theorem process_answer {fs : FileSystem} {c c' : Conn} {e e' : Env} {code : HttpCode}
    (h : processRead fs c e = some (code, c', e')) (hcode : code.answered = true)
    (hw : (processWrite code c').1 = true) :
    process fs c e =
      some (code, (processWrite code c').2, modfd e' (processWrite code c').2.sockfd .epollOut) := by
  unfold process
  rw [h]
  dsimp only
  rw [if_neg (by rintro rfl; cases hcode), if_neg (by rintro rfl; cases hcode), if_pos hw]

end WebServer.HttpConn
