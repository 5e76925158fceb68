/-
One connection object of the web server, `http_conn` (webServer/http_conn.h, http_conn.cpp), with the epoll and socket
side effects of its members: `init`, `close_conn`, `read`, `doRequest`, `unmap`, `write`, the `add...` functions,
`processWrite` and `process`. The parser is in `HttpConn.ReadSide`.

What the kernel answers is an argument: the results of `recv` and `writev` come as lists, the file system as a
`FileSystem`. A function whose list of results is used up before it returns gives `none`, and so does `processRead`
when its loop does not end. The code `undefined` of the parser is passed on, and nothing is done any more.

A zero that the parser stores in front of `readBuffer` is carried out by `storeOwn` if it lies in the object itself, and
left in `outside` if it belongs to another object of the array.

What the program does to the kernel is collected in `Env`: the epoll entry of every descriptor, the open client
descriptors, and the list of file, mapping and sending calls in the order in which they are made. `Env.userCount` is
the static member of the class.

Left out: `address` (stored, never read), `setsockopt`, `setnonblocking` and the `printf` calls, which no result uses.
-/
import WebServer.HttpConn.ReadSide
import Mathlib.Data.Finset.Basic
import Mathlib.Logic.Function.Basic

namespace WebServer.HttpConn

open WebServer

/-! ## The kernel's side -/

/-- the direction a descriptor is armed for; EPOLLRDHUP, EPOLLHUP and EPOLLERR are reported in both -/
inductive Interest where
  | epollIn | epollOut
deriving DecidableEq, Repr

/-- the entry of a descriptor in the epoll set; with EPOLLONESHOT a delivered event disarms it -/
inductive EpollItem where
  | absent | disarmed | armed (ev : Interest)
deriving DecidableEq, Repr

/-- addresses that `iov_base` takes: inside `writeBuffer`, or an address of the process -/
inductive Ptr where
  | writeBuffer (off : ℤ)
  | mem (addr : ℤ)
deriving DecidableEq, Repr

/-- struct iovec -/
structure IoVec where
  base : Ptr
  len : ℕ
deriving DecidableEq, Repr

/-- the calls whose arguments or order the results speak about -/
inductive Call where
  | stat (path : Bytes)
  | openFile (path : Bytes)
  | mmap (len res : ℕ)
  | munmap (addr len : ℕ)
  | writev (iov : List IoVec) (sent : ℕ)
  | close (fd : ℤ)
deriving DecidableEq, Repr

structure Env where
  epoll : ℤ → EpollItem
  /-- descriptors of accepted connections that are not closed yet -/
  opened : Finset ℤ
  userCount : ℤ
  calls : List Call

/-- struct stat, the two members that are read -/
structure Stat where
  stMode : ℕ
  stSize : ℕ
deriving DecidableEq, Repr

def sIroth : ℕ := 0o4

/-- S_ISDIR -/
def sIsdir (mode : ℕ) : Bool := mode &&& 0o170000 = 0o040000

/-- MAP_FAILED, (void *) -1 -/
def mapFailed : ℕ := 2 ^ 64 - 1

/-- an address that a successful `mmap(0, ...)` can return: neither null nor MAP_FAILED -/
abbrev MapAddr := { a : ℕ // a ≠ 0 ∧ a ≠ mapFailed }

/-- what the file system answers while one request is handled -/
structure FileSystem where
  /-- `none`: stat returns -1 and leaves the buffer as it is -/
  stat : Bytes → Option Stat
  canOpen : Bytes → Bool
  /-- the mapping of an open file of the given length -/
  mmap : ℕ → Option MapAddr

/-- `mmap` of the file just opened: it fails on a descriptor of -1 and on the length 0 -/
def FileSystem.mapFile (fs : FileSystem) (path : Bytes) (len : ℕ) : ℕ :=
  if fs.canOpen path ∧ len ≠ 0 then (fs.mmap len).elim mapFailed Subtype.val else mapFailed

/-- a file system in which every path is a readable regular file of `size` bytes, mapped at 4096 -/
def plainFiles (size : ℕ) : FileSystem := ⟨fun _ => some ⟨0o100644, size⟩, fun _ => true, fun _ => some ⟨4096, by decide⟩⟩

/-- before the first connection -/
def Env.blank : Env := ⟨fun _ => .absent, ∅, 0, []⟩

def Env.record (e : Env) (c : Call) : Env := { e with calls := e.calls ++ [c] }

/-- EPOLL_CTL_ADD with EPOLLIN | EPOLLRDHUP | EPOLLONESHOT -/
def addfd (e : Env) (fd : ℤ) : Env :=
  match e.epoll fd with
  | .absent => { e with epoll := Function.update e.epoll fd (.armed .epollIn) }
  | _ => e

/-- EPOLL_CTL_MOD: re-arms a registered descriptor, fails on any other -/
def modfd (e : Env) (fd : ℤ) (ev : Interest) : Env :=
  match e.epoll fd with
  | .absent => e
  | _ => { e with epoll := Function.update e.epoll fd (.armed ev) }

/-- EPOLL_CTL_DEL and `close` -/
def removefd (e : Env) (fd : ℤ) : Env :=
  { e.record (.close fd) with epoll := Function.update e.epoll fd .absent, opened := e.opened.erase fd }

/-! ## The connection object -/

/-- WRITE_BUFFER_SIZE -/
abbrev writeBufferSize : ℕ := 2048

/-- FILENAME_SIZE -/
abbrev filenameSize : ℕ := 200

structure Conn extends ReadSide where
  sockfd : ℤ
  realFile : Buf filenameSize
  writeBuffer : Buf writeBufferSize
  writeIndex : ℕ
  /-- 0 is the null pointer -/
  fileAddress : ℕ
  fileStat : Stat
  iv0 : IoVec
  iv1 : IoVec
  ivCount : ℕ
  bytesHaveSend : ℤ
  bytesToSend : ℤ

/-- an object of the `users` array before its first `init`, with zeros where the source leaves members open -/
def Conn.blank : Conn where
  toReadSide := ReadSide.fresh
  sockfd := -1
  realFile := Buf.zero
  writeBuffer := Buf.zero
  writeIndex := 0
  fileAddress := 0
  fileStat := ⟨0, 0⟩
  iv0 := ⟨.mem 0, 0⟩
  iv1 := ⟨.mem 0, 0⟩
  ivCount := 0
  bytesHaveSend := 0
  bytesToSend := 0

/-- the connection with its request members replaced -/
def Conn.setRead (c : Conn) (r : ReadSide) : Conn := { c with toReadSide := r }

/-- `close_conn` -/
def closeConn (c : Conn) (e : Env) : Conn × Env :=
  if c.sockfd ≠ -1 then
    let e := removefd e c.sockfd
    ({ c with sockfd := -1 }, { e with userCount := e.userCount - 1 })
  else (c, e)

/-- `init()`, the private one -/
def Conn.init (c : Conn) : Conn :=
  { c with
    toReadSide := ReadSide.fresh
    bytesToSend := 0
    bytesHaveSend := 0
    writeIndex := 0
    writeBuffer := Buf.zero
    realFile := Buf.zero }

/-- `init(sockfd, addr)` -/
def Conn.initConn (c : Conn) (fd : ℤ) (e : Env) : Conn × Env :=
  let c := { c with sockfd := fd }
  let e := addfd e c.sockfd
  let e := { e with userCount := e.userCount + 1 }
  (c.init, e)

/-! ## Reading -/

/-- a result of `recv` -/
inductive Recv where
  /-- these bytes are pending; `recv` stores as many of them as were asked for -/
  | data (l : Bytes)
  | eagain
  | error
  /-- end of stream, result 0 -/
  | eof
deriving DecidableEq, Repr

/-- the loop of `read` -/
def readLoop : List Recv → ReadSide → Option (Bool × ReadSide)
  | [], _ => none
  | .eagain :: _, r => some (true, r)
  | .error :: _, r => some (false, r)
  | .eof :: _, r => some (false, r)
  | .data l :: rs, r =>
    let got := l.take (readBufferSize - r.readIndex)
    if got = [] then some (false, r) else readLoop rs (r.load got)

def read (rs : List Recv) (r : ReadSide) : Option (Bool × ReadSide) :=
  if r.readIndex ≥ readBufferSize then some (false, r) else readLoop rs r

/-! ## The requested file -/

/-- documentRoot: the root directory of the site -/
def documentRoot : Bytes := ascii "/workspaces/Web/webServer/resources"

/-- `strncpy(dst, s, n)`: n bytes, padded with zeros -/
def strncpyBytes (s : Bytes) (n : ℕ) : Bytes := s.take n ++ List.replicate (n - s.length) 0

/-- the C string a pointer into `readBuffer` denotes -/
def ReadSide.string (r : ReadSide) (p : Option ℕ) : Bytes := p.elim [] r.readBuffer.cstr

/-- the first three statements of `doRequest`: the path in `realFile` -/
def buildPath (c : Conn) : Buf filenameSize :=
  let b := c.realFile.write 0 (documentRoot ++ [0])
  let len := documentRoot.length
  b.write len (strncpyBytes (c.string c.url) (filenameSize - len - 1))

def doRequest (fs : FileSystem) (c : Conn) (e : Env) : HttpCode × Conn × Env :=
  let c := { c with realFile := buildPath c }
  let path := c.realFile.cstr 0
  let e := e.record (.stat path)
  match fs.stat path with
  | none => (.noResource, c, e)
  | some st =>
    let c := { c with fileStat := st }
    if st.stMode &&& sIroth = 0 then (.forbiddenRequest, c, e)
    else if sIsdir st.stMode then (.badRequest, c, e)
    else
      let e := e.record (.openFile path)
      let addr := fs.mapFile path st.stSize
      (.fileRequest, { c with fileAddress := addr }, e.record (.mmap st.stSize addr))

def unmap (c : Conn) (e : Env) : Conn × Env :=
  if c.fileAddress ≠ 0 then
    ({ c with fileAddress := 0 }, e.record (.munmap c.fileAddress c.fileStat.stSize))
  else (c, e)

/-! ## A zero stored into an object -/

/-- the number with its byte `k` cleared, the lowest byte being byte 0 -/
def clearByte (n k : ℕ) : ℕ := n - n / 256 ^ k % 256 * 256 ^ k

/-- an `int` with one byte cleared -/
def clearByteInt (x : ℤ) (k : ℕ) : ℤ := int32 (clearByte (x % 2 ^ 32).toNat k)

/-- a zero in a pointer: a null pointer stays what it is, any other has no value in the model -/
def clearPointer : Option ℕ → Option (Option ℕ)
  | none => some none
  | some _ => none

/-- a zero at byte `k` of a struct stat, where `st_mode` starts at 24 and `st_size` at 48 -/
def Stat.zeroAt (st : Stat) (k : ℕ) : Stat :=
  if 24 ≤ k ∧ k < 28 then { st with stMode := clearByte st.stMode (k - 24) }
  else if 48 ≤ k ∧ k < 56 then { st with stSize := clearByte st.stSize (k - 48) }
  else st

/-- a zero at byte `k` of a struct iovec -/
def IoVec.zeroAt (v : IoVec) (k : ℕ) : Option IoVec :=
  if k < 8 then
    match v.base with
    | .writeBuffer _ => none
    | .mem addr => some { v with base := .mem (clearByte (sizeT addr) k) }
  else some { v with len := clearByte v.len (k - 8) }

/-- a zero at byte `k` of a member -/
def Conn.zeroIn (c : Conn) (k : ℕ) : Member → Option Conn
  | .sockfd => some { c with sockfd := clearByteInt c.sockfd k }
  | .address => some c
  | .readBuffer => some { c with readBuffer := c.readBuffer.set k 0 }
  | .readIndex => some { c with readIndex := clearByte c.readIndex k }
  | .checkIndex => some { c with checkIndex := clearByte c.checkIndex k }
  | .startLine => some { c with startLine := clearByte c.startLine k }
  -- the values of the two enumerations are small numbers
  | .checkState => some { c with checkState := if k = 0 then .requestLine else c.checkState }
  | .method => some { c with method := if k = 0 then .get else c.method }
  | .realFile => some { c with realFile := c.realFile.set k 0 }
  | .url => (clearPointer c.url).map fun p => { c with url := p }
  | .version => (clearPointer c.version).map fun p => { c with version := p }
  | .host => (clearPointer c.host).map fun p => { c with host := p }
  | .contentLength => some { c with contentLength := clearByteInt c.contentLength k }
  | .linger => some { c with linger := false }
  | .writeBuffer => some { c with writeBuffer := c.writeBuffer.set k 0 }
  | .writeIndex => some { c with writeIndex := clearByte c.writeIndex k }
  | .fileAddress => some { c with fileAddress := clearByte c.fileAddress k }
  | .fileStat => some { c with fileStat := c.fileStat.zeroAt k }
  | .iv =>
    if k < 16 then (c.iv0.zeroAt k).map fun v => { c with iv0 := v }
    else (c.iv1.zeroAt (k - 16)).map fun v => { c with iv1 := v }
  | .ivCount => some { c with ivCount := clearByte c.ivCount k }
  | .bytesHaveSend => some { c with bytesHaveSend := clearByteInt c.bytesHaveSend k }
  | .bytesToSend => some { c with bytesToSend := clearByteInt c.bytesToSend k }

/-- a zero at offset `k` of the object -/
def Conn.zeroAt (c : Conn) (k : ℕ) : Option Conn :=
  match locate k with
  | some (m, i) => c.zeroIn i m
  | none => some c

/-- the zero that the parser has stored, if it belongs to this object: `sockfd` and `address` are in front of
`readBuffer` -/
def Conn.storeOwn (c : Conn) : Option Conn :=
  match c.outside with
  | none => some c
  | some i =>
    let k := offsetOf .readBuffer + i.val
    if 0 ≤ k then { c with outside := none }.zeroAt k.toNat else some c

theorem locate_front : ∀ k < offsetOf .readBuffer,
    locate k = if k < 4 then some (.sockfd, k) else some (.address, k - 4) := by
  decide

/-- of its own object the parser can overwrite the descriptor, and nothing else that is modelled -/
theorem storeOwn_of (o : Option { i : ℤ // i < 0 }) (fd : ℤ) : ∃ fd' o', ∀ c : Conn, c.outside = o → c.sockfd = fd →
    c.storeOwn = some { c with sockfd := fd', outside := o' } := by
  cases o with
  | none =>
    refine ⟨fd, none, fun c ho hfd => ?_⟩
    simp only [Conn.storeOwn, ho, ← hfd]
    rw [← ho]
  | some i =>
    by_cases hk : 0 ≤ (offsetOf .readBuffer : ℤ) + i.val
    · have hlt : ((offsetOf .readBuffer : ℤ) + i.val).toNat < offsetOf .readBuffer := by
        have := i.property
        omega
      have hplace := locate_front _ hlt
      split_ifs at hplace
      · refine ⟨clearByteInt fd ((offsetOf .readBuffer : ℤ) + i.val).toNat, none, fun c ho hfd => ?_⟩
        simp only [Conn.storeOwn, ho, if_pos hk, Conn.zeroAt, hplace, Conn.zeroIn, ← hfd]
      · refine ⟨fd, none, fun c ho hfd => ?_⟩
        simp only [Conn.storeOwn, ho, if_pos hk, Conn.zeroAt, hplace, Conn.zeroIn, ← hfd]
    · refine ⟨fd, some i, fun c ho hfd => ?_⟩
      simp only [Conn.storeOwn, ho, if_neg hk, ← hfd]
      rw [← ho]

theorem Conn.storeOwn_eq (c : Conn) : ∃ fd o, c.storeOwn = some { c with sockfd := fd, outside := o } := by
  obtain ⟨fd, o, h⟩ := storeOwn_of c.outside c.sockfd
  exact ⟨fd, o, h c rfl rfl⟩

theorem Conn.storeOwn_none {c : Conn} (h : c.outside = none) : c.storeOwn = some c := by
  simp only [Conn.storeOwn, h]

/-- `processRead`: the parser's loop and, on a complete request, `doRequest` -/
def processRead (fs : FileSystem) (c : Conn) (e : Env) : Option (HttpCode × Conn × Env) :=
  match processReadLoop loopRounds .lineOk c.toReadSide with
  | none => none
  | some (.getRequest, r) => (c.setRead r).storeOwn.map fun c => doRequest fs c e
  | some (ret, r) => some (ret, c.setRead r, e)

/-! ## Sending -/

/-- a result of `writev` -/
inductive Writev where
  | sent (n : ℕ)
  | eagain
  | error
deriving DecidableEq, Repr

/-- the entries handed to `writev` -/
def Conn.iov (c : Conn) : List IoVec := [c.iv0, c.iv1].take c.ivCount

/-- the counters and entries after `writev` returned `n` -/
def advance (c : Conn) (n : ℕ) : Conn :=
  let tmp := int32 n
  let c := { c with bytesToSend := int32 (c.bytesToSend - tmp), bytesHaveSend := int32 (c.bytesHaveSend + tmp) }
  if sizeT c.bytesHaveSend ≥ c.iv0.len then
    { c with
      iv0 := { c.iv0 with len := 0 }
      iv1 := ⟨.mem (c.fileAddress + int32 (c.bytesHaveSend - c.writeIndex)), sizeT c.bytesToSend⟩ }
  else
    { c with iv0 := ⟨.writeBuffer c.bytesHaveSend, sizeT (c.iv0.len - tmp)⟩ }

/-- the loop of `write` -/
def writeLoop : List Writev → Conn → Env → Option (Bool × Conn × Env)
  | [], _, _ => none
  | .eagain :: _, c, e => some (true, c, modfd e c.sockfd .epollOut)
  | .error :: _, c, e =>
    let (c, e) := unmap c e
    some (false, c, e)
  | .sent n :: rs, c, e =>
    let e := e.record (.writev c.iov n)
    let c := advance c n
    if c.bytesToSend ≤ 0 then
      let (c, e) := unmap c e
      let e := modfd e c.sockfd .epollIn
      if c.linger then some (true, c.init, e) else some (false, c, e)
    else writeLoop rs c e

def write (rs : List Writev) (c : Conn) (e : Env) : Option (Bool × Conn × Env) :=
  if c.bytesToSend = 0 then some (true, c.init, modfd e c.sockfd .epollIn) else writeLoop rs c e

/-! ## The response -/

def ok200Title : Bytes := ascii "OK"
def error400Title : Bytes := ascii "Bad Request"
def error400Form : Bytes := ascii "Your request has bad syntax or is inherently impossible to satisfy.\n"
def error403Title : Bytes := ascii "Forbidden"
def error403Form : Bytes := ascii "You do not have permission to get file from this server.\n"
def error404Title : Bytes := ascii "Not Found"
def error404Form : Bytes := ascii "The requested file was not found on this server.\n"
def error500Title : Bytes := ascii "Internal Error"
def error500Form : Bytes := ascii "There was an unusual problem serving the requested file.\n"

/-- `addResponse` with the formatted text: `vsnprintf` stores what fits and a zero, and reports the full length -/
def addResponse (text : Bytes) (c : Conn) : Bool × Conn :=
  if c.writeIndex ≥ writeBufferSize then (false, c)
  else
    let size := writeBufferSize - 1 - c.writeIndex
    let stored := if size = 0 then [] else text.take (size - 1) ++ [0]
    let c := { c with writeBuffer := c.writeBuffer.write c.writeIndex stored }
    if text.length ≥ size then (false, c) else (true, { c with writeIndex := c.writeIndex + text.length })

def addStatusLine (status : ℤ) (title : Bytes) : Conn → Bool × Conn :=
  addResponse (ascii "HTTP/1.1" ++ ascii " " ++ decimal status ++ ascii " " ++ title ++ ascii "\r\n")

def addContentLength (contentLength : ℤ) : Conn → Bool × Conn :=
  addResponse (ascii "Content-Length: " ++ decimal contentLength ++ ascii "\r\n")

def addContentType : Conn → Bool × Conn := addResponse (ascii "Content-Type:" ++ ascii "text/html" ++ ascii "\r\n")

def addLinger (c : Conn) : Bool × Conn :=
  addResponse (ascii "Connection: " ++ (if c.linger then ascii "keep-alive" else ascii "close") ++ ascii "\r\n") c

def addBlankLine : Conn → Bool × Conn := addResponse (ascii "\r\n")

def addContent (content : Bytes) : Conn → Bool × Conn := addResponse content

/-- the results of the four calls are ignored -/
def addHeaders (contentLength : ℤ) (c : Conn) : Bool × Conn :=
  (true, (addBlankLine (addLinger (addContentType (addContentLength contentLength c).2).2).2).2)

/-- the four error branches of `processWrite` and the statements after its `switch` -/
def errorResponse (status : ℤ) (title form : Bytes) (c : Conn) : Bool × Conn :=
  let c := (addStatusLine status title c).2
  let c := (addHeaders form.length c).2
  match addContent form c with
  | (false, c) => (false, c)
  | (true, c) =>
    (true, { c with iv0 := ⟨.writeBuffer 0, c.writeIndex⟩, ivCount := 1, bytesToSend := c.writeIndex })

def fileResponse (c : Conn) : Bool × Conn :=
  let c := (addStatusLine 200 ok200Title c).2
  let c := (addHeaders (int32 c.fileStat.stSize) c).2
  (true, { c with
    iv0 := ⟨.writeBuffer 0, c.writeIndex⟩
    iv1 := ⟨.mem c.fileAddress, c.fileStat.stSize⟩
    ivCount := 2
    bytesToSend := int32 (c.writeIndex + c.fileStat.stSize) })

def processWrite (ret : HttpCode) (c : Conn) : Bool × Conn :=
  match ret with
  | .internalError => errorResponse 500 error500Title error500Form c
  | .badRequest => errorResponse 400 error400Title error400Form c
  | .noResource => errorResponse 404 error404Title error404Form c
  | .forbiddenRequest => errorResponse 403 error403Title error403Form c
  | .fileRequest => fileResponse c
  | _ => (false, c)

/-- `process`, run by a worker thread; it also gives the code of `processRead` -/
def process (fs : FileSystem) (c : Conn) (e : Env) : Option (HttpCode × Conn × Env) :=
  match processRead fs c e with
  | none => none
  | some (readRet, c, e) =>
    if readRet = .noRequest then some (readRet, c, modfd e c.sockfd .epollIn)
    else if readRet = .undefined then some (readRet, c, e)
    else
      let (writeRet, c) := processWrite readRet c
      let (c, e) := if writeRet then (c, e) else closeConn c e
      some (readRet, c, modfd e c.sockfd .epollOut)

end WebServer.HttpConn
