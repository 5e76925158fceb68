/-
Nothing of an earlier client or request is left in a connection object.

`init` does not reset `fileAddress`, `fileStat`, `iv` and `ivCount`. Two objects that agree on the other members
(`Same`) cannot be told apart: the open members are written before they are used. As long as a response is pending, the
entries below `ivCount` agree as well (`SameIov`).

- `use_same`: every operation of the server on two such objects shows the same, and leaves two such objects.
- `isolation`: so two histories of a slot make no difference once `init` was called, neither the public one nor the
  one at the end of a response.
-/
import WebServer.Core.Run
import WebServer.HttpConn.ResponseText

namespace WebServer.HttpConn

open WebServer

/-! ## What can be seen -/

/-- what the server does with a connection, with the results of the system calls -/
inductive Use where
  | read (rs : List Recv)
  | process (fs : FileSystem)
  | write (rs : List Writev)

inductive Shown where
  | read (keeps : Bool)
  /-- a code without a response -/
  | code (code : HttpCode)
  | response (code : HttpCode) (written : Bytes) (iov : List IoVec) (bytesToSend : ℤ)
  /-- the entries that each `writev` was given, and whether the connection is kept -/
  | write (iovs : List (List IoVec)) (keeps : Bool)
deriving DecidableEq

def Call.iov? : Call → Option (List IoVec)
  | .writev iov _ => some iov
  | _ => none

/-- the entries of all `writev` calls so far -/
def Env.iovs (e : Env) : List (List IoVec) := e.calls.filterMap Call.iov?

/-- one operation and what is seen of it -/
def use (x : Conn × Env) : Use → Option (Shown × Conn × Env)
  | .read rs =>
    match read rs x.1.toReadSide with
    | some (b, r) => some (.read b, x.1.setRead r, x.2)
    | none => none
  | .process fs =>
    match process fs x.1 x.2 with
    | some (code, c, e) =>
      let shown := if code = .noRequest ∨ c.sockfd = -1 then .code code else
        .response code c.written c.iov c.bytesToSend
      if code = .undefined then none else some (shown, c, e)
    | none => none
  | .write rs =>
    match write rs x.1 x.2 with
    | some (b, c, e) => some (.write (e.iovs.drop x.2.iovs.length) b, c, e)
    | none => none

/-! ## Objects that cannot be told apart -/

structure SameIov (c d : Conn) : Prop where
  ivCount : c.ivCount = d.ivCount
  iv0 : c.iv0 = d.iv0
  file : c.ivCount = 1 ∨ c.ivCount = 2 ∧ c.iv1 = d.iv1 ∧ c.fileAddress = d.fileAddress

structure Same (c d : Conn) : Prop where
  readSide : c.toReadSide = d.toReadSide
  sockfd : c.sockfd = d.sockfd
  realFile : c.realFile = d.realFile
  writeBuffer : c.writeBuffer = d.writeBuffer
  writeIndex : c.writeIndex = d.writeIndex
  bytesHaveSend : c.bytesHaveSend = d.bytesHaveSend
  bytesToSend : c.bytesToSend = d.bytesToSend
  iov : c.bytesToSend ≠ 0 → SameIov c d

theorem SameIov.iov_eq {c d : Conn} (h : SameIov c d) : c.iov = d.iov := by
  rcases h.file with h1 | ⟨h2, hiv1, -⟩
  · rw [Conn.iov, Conn.iov, ← h.ivCount, h1, h.iv0]
    rfl
  · rw [Conn.iov, Conn.iov, ← h.ivCount, h2, h.iv0, hiv1]

theorem same_init {c d : Conn} (h : c.sockfd = d.sockfd) : Same c.init d.init :=
  ⟨rfl, h, rfl, rfl, rfl, rfl, rfl, fun hne => absurd rfl hne⟩

theorem Same.setRead {c d : Conn} (h : Same c d) (r : ReadSide) : Same (c.setRead r) (d.setRead r) :=
  ⟨rfl, h.sockfd, h.realFile, h.writeBuffer, h.writeIndex, h.bytesHaveSend, h.bytesToSend,
    fun hne => ⟨(h.iov hne).ivCount, (h.iov hne).iv0, (h.iov hne).file⟩⟩

theorem Same.linger {c d : Conn} (h : Same c d) : c.linger = d.linger := congrArg ReadSide.linger h.readSide

theorem Same.closeConn {c d : Conn} (h : Same c d) (e f : Env) : Same (closeConn c e).1 (closeConn d f).1 := by
  have hiov : ∀ fd, c.bytesToSend ≠ 0 → SameIov { c with sockfd := fd } { d with sockfd := fd } :=
    fun _ hne => ⟨(h.iov hne).ivCount, (h.iov hne).iv0, (h.iov hne).file⟩
  by_cases hs : c.sockfd = -1
  · rw [closeConn_closed hs, closeConn_closed (h.sockfd ▸ hs)]
    exact h
  · rw [closeConn_open hs, closeConn_open (h.sockfd ▸ hs)]
    exact ⟨h.readSide, rfl, h.realFile, h.writeBuffer, h.writeIndex, h.bytesHaveSend, h.bytesToSend, hiov _⟩

/-! ## Writing -/

theorem Same.unmapped {c d : Conn} (h : Same c d) : Same c.unmapped d.unmapped := by
  refine ⟨h.readSide, h.sockfd, h.realFile, h.writeBuffer, h.writeIndex, h.bytesHaveSend, h.bytesToSend, fun hne => ?_⟩
  exact ⟨(h.iov hne).ivCount, (h.iov hne).iv0, (h.iov hne).file.imp_right fun hf => ⟨hf.1, hf.2.1, rfl⟩⟩

theorem SameIov.advance {c d : Conn} (h : Same c d) (hiov : SameIov c d) (n : ℕ) :
    SameIov (advance c n) (advance d n) := by
  obtain ⟨hcount, hiv0, hfile⟩ := hiov
  unfold HttpConn.advance
  dsimp only
  rw [← h.bytesToSend, ← h.bytesHaveSend, ← h.writeIndex, ← hiv0]
  split_ifs
  · exact ⟨hcount, rfl, hfile.imp_right fun hf => ⟨hf.1, by rw [hf.2.2], hf.2.2⟩⟩
  · exact ⟨hcount, rfl, hfile⟩

theorem Same.advance {c d : Conn} (h : Same c d) (hiov : SameIov c d) (n : ℕ) : Same (advance c n) (advance d n) := by
  have hiov' := SameIov.advance h hiov n
  unfold HttpConn.advance at hiov' ⊢
  dsimp only at hiov' ⊢
  rw [← h.bytesToSend, ← h.bytesHaveSend, ← h.writeIndex, ← hiov.iv0] at hiov' ⊢
  split_ifs at hiov' ⊢ <;>
    exact ⟨h.readSide, h.sockfd, h.realFile, h.writeBuffer, rfl, rfl, rfl, fun _ => hiov'⟩

/-- the entries given to `writev` since `e₀` and since `f₀` are the same -/
def SameCalls (e₀ f₀ e f : Env) : Prop := ∃ l, e.iovs = e₀.iovs ++ l ∧ f.iovs = f₀.iovs ++ l

theorem iovs_modfd (e : Env) (fd : ℤ) (ev : Interest) : (modfd e fd ev).iovs = e.iovs := by
  rw [Env.iovs, modfd_calls]
  rfl

theorem iovs_munmaps (e : Env) (c : Conn) : (e.append c.munmaps).iovs = e.iovs := by
  unfold Env.iovs Env.append Conn.munmaps
  split_ifs <;> simp [Call.iov?]

theorem SameCalls.modfd {e₀ f₀ e f : Env} (h : SameCalls e₀ f₀ e f) (fd : ℤ) (ev : Interest) :
    SameCalls e₀ f₀ (modfd e fd ev) (modfd f fd ev) := by
  unfold SameCalls
  rw [iovs_modfd, iovs_modfd]
  exact h

theorem SameCalls.unmap {e₀ f₀ e f : Env} (h : SameCalls e₀ f₀ e f) (c d : Conn) :
    SameCalls e₀ f₀ (e.append c.munmaps) (f.append d.munmaps) := by
  unfold SameCalls
  rw [iovs_munmaps, iovs_munmaps]
  exact h

theorem SameCalls.writev {e₀ f₀ e f : Env} (h : SameCalls e₀ f₀ e f) (iov : List IoVec) (n : ℕ) :
    SameCalls e₀ f₀ (e.record (.writev iov n)) (f.record (.writev iov n)) := by
  have hrecord : ∀ e : Env, (e.record (.writev iov n)).iovs = e.iovs ++ [iov] := fun e => by
    simp [Env.iovs, Env.record, Call.iov?]
  obtain ⟨l, he, hf⟩ := h
  exact ⟨l ++ [iov], by rw [hrecord, he, List.append_assoc], by rw [hrecord, hf, List.append_assoc]⟩

/-- two calls of `write` that return the same and give `writev` the same entries -/
structure SameSends (e₀ f₀ : Env) (x y : Bool × Conn × Env) : Prop where
  result : x.1 = y.1
  conn : Same x.2.1 y.2.1
  calls : SameCalls e₀ f₀ x.2.2 y.2.2

theorem writeLoop_same {rs : List Writev} {c d : Conn} {e₀ f₀ e f : Env} (h : Same c d) (hiov : SameIov c d)
    (hcalls : SameCalls e₀ f₀ e f) : Option.Rel (SameSends e₀ f₀) (writeLoop rs c e) (writeLoop rs d f) := by
  induction rs generalizing c d e f with
  | nil => exact .none
  | cons r rs ih =>
    cases r with
    | eagain =>
      simp only [writeLoop, ← h.sockfd]
      exact .some ⟨rfl, h, hcalls.modfd _ _⟩
    | error =>
      simp only [writeLoop, unmap_eq]
      exact .some ⟨rfl, h.unmapped, hcalls.unmap c d⟩
    | sent n =>
      have hsame := h.advance hiov n
      have hcalls' := hcalls.writev c.iov n
      have hdone := (hcalls'.unmap (HttpConn.advance c n) (HttpConn.advance d n)).modfd
        (HttpConn.advance c n).unmapped.sockfd .epollIn
      simp only [writeLoop, unmap_eq, ← hiov.iov_eq, ← hsame.bytesToSend, ← hsame.unmapped.linger,
        ← hsame.unmapped.sockfd]
      split_ifs
      · exact .some ⟨rfl, same_init hsame.unmapped.sockfd, hdone⟩
      · exact .some ⟨rfl, hsame.unmapped, hdone⟩
      · exact ih hsame (SameIov.advance h hiov n) hcalls'

theorem write_same {c d : Conn} (h : Same c d) (rs : List Writev) (e f : Env) :
    Option.Rel (SameSends e f) (write rs c e) (write rs d f) := by
  have hcalls : SameCalls e f e f := ⟨[], by simp, by simp⟩
  unfold write
  rw [← h.bytesToSend, ← h.sockfd]
  split_ifs with h0
  · exact .some ⟨rfl, same_init h.sockfd, hcalls.modfd _ _⟩
  · exact writeLoop_same h (h.iov h0) hcalls

/-! ## Processing -/

theorem Same.setText {c d : Conn} (h : Same c d) (b : Buf writeBufferSize) (w : ℕ) :
    Same { c with writeBuffer := b, writeIndex := w } { d with writeBuffer := b, writeIndex := w } :=
  ⟨h.readSide, h.sockfd, h.realFile, rfl, rfl, h.bytesHaveSend, h.bytesToSend,
    fun hne => ⟨(h.iov hne).ivCount, (h.iov hne).iv0, (h.iov hne).file⟩⟩

theorem addResponse_same {c d : Conn} (h : Same c d) (text : Bytes) :
    (addResponse text c).1 = (addResponse text d).1 ∧ Same (addResponse text c).2 (addResponse text d).2 := by
  unfold addResponse
  dsimp only
  rw [← h.writeIndex, ← h.writeBuffer]
  generalize (if writeBufferSize - 1 - c.writeIndex = 0 then [] else _) = stored
  split_ifs
  · exact ⟨rfl, h⟩
  · exact ⟨rfl, h.setText _ _⟩
  · exact ⟨rfl, h.setText _ _⟩

theorem addLinger_same {c d : Conn} (h : Same c d) : Same (addLinger c).2 (addLinger d).2 := by
  unfold addLinger
  rw [← h.linger]
  exact (addResponse_same h _).2

theorem addHeaders_same {c d : Conn} (h : Same c d) (n : ℤ) : Same (addHeaders n c).2 (addHeaders n d).2 := by
  have hlength : Same (addContentLength n c).2 (addContentLength n d).2 := (addResponse_same h _).2
  generalize hc : (addContentLength n c).2 = c₁ at hlength
  generalize hd : (addContentLength n d).2 = d₁ at hlength
  have htype : Same (addContentType c₁).2 (addContentType d₁).2 := (addResponse_same hlength _).2
  have hlinger := addLinger_same htype
  unfold addHeaders
  rw [hc, hd]
  generalize (addLinger (addContentType c₁).2).2 = c₂ at hlinger
  generalize (addLinger (addContentType d₁).2).2 = d₂ at hlinger
  exact (addResponse_same hlinger _).2

theorem head_same {c d : Conn} (h : Same c d) (status : ℤ) (title : Bytes) (n : ℤ) :
    Same (addHeaders n (addStatusLine status title c).2).2 (addHeaders n (addStatusLine status title d).2).2 :=
  addHeaders_same (addResponse_same h _).2 n

theorem sameIov_error {c d : Conn} (h : Same c d) :
    SameIov { c with iv0 := ⟨.writeBuffer 0, c.writeIndex⟩, ivCount := 1, bytesToSend := c.writeIndex }
      { d with iv0 := ⟨.writeBuffer 0, d.writeIndex⟩, ivCount := 1, bytesToSend := d.writeIndex } :=
  ⟨rfl, congrArg (IoVec.mk (.writeBuffer 0)) h.writeIndex, Or.inl rfl⟩

theorem sameIov_file {c d : Conn} (h : Same c d) (haddr : c.fileAddress = d.fileAddress)
    (hstat : c.fileStat = d.fileStat) :
    SameIov { c with
        iv0 := ⟨.writeBuffer 0, c.writeIndex⟩, iv1 := ⟨.mem c.fileAddress, c.fileStat.stSize⟩, ivCount := 2,
        bytesToSend := int32 (c.writeIndex + c.fileStat.stSize) }
      { d with
        iv0 := ⟨.writeBuffer 0, d.writeIndex⟩, iv1 := ⟨.mem d.fileAddress, d.fileStat.stSize⟩, ivCount := 2,
        bytesToSend := int32 (d.writeIndex + d.fileStat.stSize) } :=
  ⟨rfl, congrArg (IoVec.mk (.writeBuffer 0)) h.writeIndex, Or.inr ⟨rfl, by rw [haddr, hstat], haddr⟩⟩

theorem errorResponse_same {c d : Conn} (h : Same c d) (status : ℤ) (title form : Bytes) :
    (errorResponse status title form c).1 = (errorResponse status title form d).1 ∧
      Same (errorResponse status title form c).2 (errorResponse status title form d).2 ∧
      ((errorResponse status title form c).1 = true →
        SameIov (errorResponse status title form c).2 (errorResponse status title form d).2) := by
  obtain ⟨hresult, hsame⟩ := addResponse_same (head_same h status title form.length) form
  unfold errorResponse addContent
  dsimp only
  generalize addResponse form (addHeaders form.length (addStatusLine status title c).2).2 = x at hresult hsame
  generalize addResponse form (addHeaders form.length (addStatusLine status title d).2).2 = y at hresult hsame
  obtain ⟨b, c'⟩ := x
  obtain ⟨b', d'⟩ := y
  obtain rfl : b = b' := hresult
  dsimp only at hsame
  cases b with
  | false => exact ⟨rfl, hsame, fun hno => absurd hno Bool.false_ne_true⟩
  | true =>
    dsimp only
    have hiov := sameIov_error hsame
    exact ⟨rfl, ⟨hsame.readSide, hsame.sockfd, hsame.realFile, hsame.writeBuffer, hsame.writeIndex,
      hsame.bytesHaveSend, congrArg Nat.cast hsame.writeIndex, fun _ => hiov⟩, fun _ => hiov⟩

theorem fileResponse_same {c d : Conn} (h : Same c d) (haddr : c.fileAddress = d.fileAddress)
    (hstat : c.fileStat = d.fileStat) :
    (fileResponse c).1 = (fileResponse d).1 ∧ Same (fileResponse c).2 (fileResponse d).2 ∧
      SameIov (fileResponse c).2 (fileResponse d).2 := by
  have hc : (addStatusLine 200 ok200Title c).2.fileStat = c.fileStat := (addResponse_kept _ c).fileStat
  have hd : (addStatusLine 200 ok200Title d).2.fileStat = c.fileStat := (addResponse_kept _ d).fileStat.trans hstat.symm
  have hsame := head_same h 200 ok200Title (int32 c.fileStat.stSize)
  have hkc := head_kept 200 ok200Title (int32 c.fileStat.stSize) c
  have hkd := head_kept 200 ok200Title (int32 c.fileStat.stSize) d
  unfold fileResponse
  dsimp only
  rw [hc, hd]
  generalize (addHeaders (int32 c.fileStat.stSize) (addStatusLine 200 ok200Title c).2).2 = c' at *
  generalize (addHeaders (int32 c.fileStat.stSize) (addStatusLine 200 ok200Title d).2).2 = d' at *
  have haddr' : c'.fileAddress = d'.fileAddress := by rw [hkc.fileAddress, hkd.fileAddress, haddr]
  have hstat' : c'.fileStat = d'.fileStat := by rw [hkc.fileStat, hkd.fileStat, hstat]
  have hiov := sameIov_file hsame haddr' hstat'
  refine ⟨rfl, ⟨hsame.readSide, hsame.sockfd, hsame.realFile, hsame.writeBuffer, hsame.writeIndex,
      hsame.bytesHaveSend, ?_, fun _ => hiov⟩, hiov⟩
  dsimp only
  rw [hsame.writeIndex, hstat']

theorem processWrite_same {c d : Conn} (h : Same c d) (code : HttpCode)
    (hfile : code = .fileRequest → c.fileAddress = d.fileAddress ∧ c.fileStat = d.fileStat) :
    (processWrite code c).1 = (processWrite code d).1 ∧ Same (processWrite code c).2 (processWrite code d).2 ∧
      ((processWrite code c).1 = true → SameIov (processWrite code c).2 (processWrite code d).2) := by
  cases code <;> simp only [processWrite]
  case noRequest => exact ⟨trivial, h, fun hno => absurd hno Bool.false_ne_true⟩
  case getRequest => exact ⟨trivial, h, fun hno => absurd hno Bool.false_ne_true⟩
  case closedConnection => exact ⟨trivial, h, fun hno => absurd hno Bool.false_ne_true⟩
  case undefined => exact ⟨trivial, h, fun hno => absurd hno Bool.false_ne_true⟩
  case fileRequest =>
    obtain ⟨h1, h2, h3⟩ := fileResponse_same h (hfile rfl).1 (hfile rfl).2
    exact ⟨h1, h2, fun _ => h3⟩
  all_goals exact errorResponse_same h _ _ _

/-- the same store into both objects -/
theorem Same.stored {c d : Conn} (h : Same c d) (fd : ℤ) (o : Option { i : ℤ // i < 0 }) :
    Same { c with sockfd := fd, outside := o } { d with sockfd := fd, outside := o } where
  readSide := congrArg (fun r : ReadSide => { r with outside := o }) h.readSide
  sockfd := rfl
  realFile := h.realFile
  writeBuffer := h.writeBuffer
  writeIndex := h.writeIndex
  bytesHaveSend := h.bytesHaveSend
  bytesToSend := h.bytesToSend
  iov := fun hne => ⟨(h.iov hne).ivCount, (h.iov hne).iv0, (h.iov hne).file⟩

/-- what two calls of `processRead` leave -/
structure SameFile (x y : HttpCode × Conn × Env) : Prop where
  code : x.1 = y.1
  conn : Same x.2.1 y.2.1
  file : x.1 = .fileRequest → x.2.1.fileAddress = y.2.1.fileAddress ∧ x.2.1.fileStat = y.2.1.fileStat

theorem doRequest_same {c d : Conn} (h : Same c d) (fs : FileSystem) (e f : Env) :
    SameFile (doRequest fs c e) (doRequest fs d f) := by
  have hpath : buildPath c = buildPath d := by
    unfold buildPath
    rw [h.realFile, h.readSide]
  have hreal : ∀ p st, Same { c with realFile := p, fileStat := st } { d with realFile := p, fileStat := st } :=
    fun p st => ⟨h.readSide, h.sockfd, rfl, h.writeBuffer, h.writeIndex, h.bytesHaveSend, h.bytesToSend,
      fun hne => ⟨(h.iov hne).ivCount, (h.iov hne).iv0, (h.iov hne).file⟩⟩
  unfold doRequest
  dsimp only
  rw [← hpath]
  cases fs.stat ((buildPath c).cstr 0) with
  | none =>
    refine ⟨rfl, ⟨h.readSide, h.sockfd, rfl, h.writeBuffer, h.writeIndex, h.bytesHaveSend, h.bytesToSend, ?_⟩, nofun⟩
    exact fun hne => ⟨(h.iov hne).ivCount, (h.iov hne).iv0, (h.iov hne).file⟩
  | some st =>
    dsimp only
    split_ifs
    · exact ⟨rfl, hreal _ _, nofun⟩
    · exact ⟨rfl, hreal _ _, nofun⟩
    · refine ⟨rfl, ⟨h.readSide, h.sockfd, rfl, h.writeBuffer, h.writeIndex, h.bytesHaveSend, h.bytesToSend, ?_⟩,
        fun _ => ⟨rfl, rfl⟩⟩
      intro hne
      exact ⟨(h.iov hne).ivCount, (h.iov hne).iv0, (h.iov hne).file.imp_right fun hf => ⟨hf.1, hf.2.1, rfl⟩⟩

theorem processRead_same {c d : Conn} (h : Same c d) (fs : FileSystem) (e f : Env) :
    Option.Rel SameFile (processRead fs c e) (processRead fs d f) := by
  unfold processRead
  rw [← h.readSide]
  cases hloop : processReadLoop loopRounds .lineOk c.toReadSide with
  | none => exact .none
  | some x =>
    obtain ⟨code, r⟩ := x
    rcases processReadLoop_code hloop with hc | hc | hc | hc <;> obtain rfl : code = _ := hc
    · exact .some ⟨rfl, h.setRead r, nofun⟩
    · exact .some ⟨rfl, h.setRead r, nofun⟩
    · obtain ⟨fd, o, hstore⟩ := storeOwn_of r.outside c.sockfd
      simp only [hstore (c.setRead r) rfl rfl, hstore (d.setRead r) rfl h.sockfd.symm, Option.map_some]
      exact .some (doRequest_same ((h.setRead r).stored fd o) fs e f)
    · exact .some ⟨rfl, h.setRead r, nofun⟩

/-- what two calls of `process` leave; a response is there unless the object is closed -/
structure SameAnswer (x y : HttpCode × Conn × Env) : Prop where
  code : x.1 = y.1
  conn : Same x.2.1 y.2.1
  iov : x.1 ≠ .noRequest → x.1 ≠ .undefined → x.2.1.sockfd ≠ -1 → x.2.1.iov = y.2.1.iov

theorem closeConn_sockfd (c : Conn) (e : Env) : (closeConn c e).1.sockfd = -1 := by
  unfold closeConn
  split_ifs with h
  · rfl
  · exact not_not.1 h

theorem process_same {c d : Conn} (h : Same c d) (fs : FileSystem) (e f : Env) :
    Option.Rel SameAnswer (process fs c e) (process fs d f) := by
  have hread := processRead_same h fs e f
  unfold process
  generalize processRead fs c e = x at hread
  generalize processRead fs d f = y at hread
  cases hread with
  | none => exact .none
  | some hxy =>
    rename_i x y
    obtain ⟨code, c', e'⟩ := x
    obtain ⟨code', d', f'⟩ := y
    obtain ⟨rfl, hsame, hfile⟩ : code = code' ∧ Same c' d' ∧ _ := ⟨hxy.code, hxy.conn, hxy.file⟩
    obtain ⟨hresult, hwritten, hiov⟩ := processWrite_same hsame code hfile
    dsimp only
    split_ifs with hcode hdef hc hd hd
    · exact .some ⟨rfl, hsame, fun hne => absurd hcode hne⟩
    · exact .some ⟨rfl, hsame, fun _ hne => absurd hdef hne⟩
    · exact .some ⟨rfl, hwritten, fun _ _ _ => (hiov hc).iov_eq⟩
    · exact absurd (hresult.symm.trans hc) hd
    · exact absurd (hresult.trans hd) hc
    · exact .some ⟨rfl, hwritten.closeConn e' f', fun _ _ hopen => absurd (closeConn_sockfd _ _) hopen⟩

/-! ## Two histories of a slot -/

/-- **Every operation on two such objects shows the same, and leaves two such objects.** -/
theorem use_same {x y : Conn × Env} (h : Same x.1 y.1) (op : Use) :
    Option.Rel (fun a b => a.1 = b.1 ∧ Same a.2.1 b.2.1) (use x op) (use y op) := by
  cases op with
  | read rs =>
    simp only [use, ← h.readSide]
    cases read rs x.1.toReadSide with
    | none => exact .none
    | some r => exact .some ⟨rfl, h.setRead r.2⟩
  | process fs =>
    have hrel := process_same h fs x.2 y.2
    simp only [use]
    generalize process fs x.1 x.2 = a at hrel
    generalize process fs y.1 y.2 = b at hrel
    cases hrel with
    | none => exact .none
    | some hab =>
      dsimp only
      rw [← hab.code, ← hab.conn.sockfd]
      split_ifs with hdef hno
      · exact .none
      · exact .some ⟨rfl, hab.conn⟩
      · refine .some ⟨?_, hab.conn⟩
        obtain ⟨hcode, hopen⟩ := not_or.1 hno
        rw [Conn.written, hab.conn.writeBuffer, hab.conn.writeIndex, hab.conn.bytesToSend, hab.iov hcode hdef hopen]
        rfl
  | write rs =>
    have hrel := write_same h rs x.2 y.2
    simp only [use]
    generalize write rs x.1 x.2 = a at hrel
    generalize write rs y.1 y.2 = b at hrel
    cases hrel with
    | none => exact .none
    | some hab =>
      obtain ⟨l, hl, hl'⟩ := hab.calls
      refine .some ⟨?_, hab.conn⟩
      dsimp only
      rw [hab.result, hl, hl', List.drop_left, List.drop_left]

/-- what is seen of an object from now on depends only on the members that `init` resets -/
theorem observe_init {c d : Conn} (h : c.sockfd = d.sockfd) (e f : Env) (ops : List Use) :
    Run.observe use (c.init, e) ops = Run.observe use (d.init, f) ops :=
  Run.observe_eq (R := fun x y : Conn × Env => Same x.1 y.1) (fun _ _ op hxy => use_same hxy op) (same_init h) ops

/-- **Isolation.** Two objects with any histories, from `init(fd, addr)` on and with the same results of the system
calls: all codes, responses and decisions are the same. And an object that has sent a response and is kept shows the
same from then on as an object with any other history that was just given to a new client. -/
theorem isolation (c d : Conn) (e f : Env) (fd : ℤ) (ops : List Use) :
    Run.observe use (c.initConn fd e) ops = Run.observe use (d.initConn fd f) ops ∧
    (∀ rs c' e', c.sockfd = fd → completes rs c = true → write rs c e = some (true, c', e') →
      Run.observe use (c', e') ops = Run.observe use (d.initConn fd f) ops) := by
  refine ⟨observe_init (c := { c with sockfd := fd }) (d := { d with sockfd := fd }) rfl _ _ ops, ?_⟩
  intro rs c' e' hsock hlast hwrite
  obtain ⟨c₁, e₁, hs, hw⟩ := write_completes (e := e) hlast
  rw [hw] at hwrite
  obtain ⟨hlinger, hconn⟩ := Prod.mk.inj (Option.some.inj hwrite)
  obtain ⟨rfl, rfl⟩ := Prod.mk.inj hconn
  rw [if_pos hlinger]
  exact observe_init (hs.trans hsock) _ _ ops

/-- a client that keeps the connection has got a file -/
def keptConn : Conn := (processWrite .fileRequest { Conn.blank with
  sockfd := 5, linger := true, fileAddress := 4096, fileStat := ⟨0o100644, 10⟩ }).2

def keptWrite : Option (Bool × Conn × Env) := write [.sent 97] keptConn Env.blank

theorem keptWrite_isSome : keptWrite.isSome = true := by decide +kernel

/-- its next request, for a file that does not exist -/
def nextRequest : List Use := [.read [.data (ascii "GET /a HTTP/1.1\r\n\r\n"), .eagain],
  .process ⟨fun _ => none, fun _ => false, fun _ => none⟩, .write [.sent 138]]

theorem isolation_keptConn :
    Run.observe use (keptWrite.get keptWrite_isSome).2 nextRequest =
      Run.observe use (Conn.blank.initConn 5 Env.blank) nextRequest := by
  refine (isolation keptConn Conn.blank Env.blank Env.blank 5 nextRequest).2 [.sent 97] _ _ rfl (by decide +kernel) ?_
  have hresult : (keptWrite.get keptWrite_isSome).1 = true := by decide +kernel
  have hget : keptWrite = some (keptWrite.get keptWrite_isSome) := (Option.some_get keptWrite_isSome).symm
  exact hget.trans (congrArg some (Prod.ext hresult rfl))

end WebServer.HttpConn
