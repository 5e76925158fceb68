/-
Several requests on one connection.

A client sends requests one after the other and asks for the connection to be kept. How many of them one `read` takes
is a matter of timing. `serve` runs the code: each round is one `read`, one `process` and the calls of `write` that send
the response, until `init` is called at the end of the response.

- `sendResponse_init`: when a response is sent, the object is as after `init`; bytes that were received behind the
  request are gone.
- `receive_single`: so the next request is answered as on a fresh connection.
- `readable_of_alone`: a request without a body that is answered at all is one that the parser reads as it is meant.
- `serve_iff`: every request gets its response, in order, if and only if every `read` takes exactly one request, and one
  that the parser reads as it is meant.
- `serve_twoRequests`: of two requests in one `read` the second is lost.
-/
import WebServer.HttpConn.Complete
import WebServer.HttpConn.Isolation

namespace WebServer.HttpConn

open WebServer

/-! ## Rounds -/

structure Answer where
  code : HttpCode
  written : Bytes
  iov : List IoVec
  bytesToSend : ℤ
deriving DecidableEq

def answerOf (code : HttpCode) (c : Conn) : Answer := ⟨code, c.written, c.iov, c.bytesToSend⟩

/-- the requests that come in one `read`, the file system at that time, and the results of `writev` in the calls of
`write` that follow -/
structure Round where
  requests : List Request
  fs : FileSystem
  calls : Conn → List (List Writev)

def Round.bytes (r : Round) : Bytes := (r.requests.map Request.bytes).flatten

/-- calls of `write`, until it calls `init` -/
def sendResponse : List (List Writev) → Conn × Env → Option (Conn × Env)
  | [], _ => none
  | rs :: calls, x =>
    match write rs x.1 x.2 with
    | some (true, y) => if y.1.writeIndex = 0 then some y else sendResponse calls y
    | _ => none

/-- the responses of a connection; there are no more once memory in use is written over -/
def serve : List Round → Conn × Env → List Answer
  | [], _ => []
  | r :: rounds, x =>
    match receive r.fs [r.bytes] x.1 x.2 with
    | some (code, y) =>
      if code = .undefined then []
      else if code = .noRequest then serve rounds y
      else
        match sendResponse (r.calls y.1) y with
        | some z => answerOf code y.1 :: serve rounds z
        | none => [answerOf code y.1]
    | none => []

/-- the response to a request that is alone on a new connection -/
def alone (fs : FileSystem) (fd : ℤ) (q : Request) : Option Answer :=
  match receive fs [q.bytes] (Conn.blank.initConn fd Env.blank).1 (Conn.blank.initConn fd Env.blank).2 with
  | some (code, y) => if code = .undefined ∨ code = .noRequest then none else some (answerOf code y.1)
  | none => none

/-- requests without a body that ask for the connection to be kept, and responses that are sent in the end -/
structure Round.Ok (r : Round) : Prop where
  some_request : r.requests ≠ []
  request : ∀ q ∈ r.requests, q.WellFormed ∧ q.body = [] ∧ q.keepAlive = true
  fits : r.bytes.length ≤ requestSize
  sent : ∀ c e, c.linger = true → 0 < c.writeIndex → (sendResponse (r.calls c) (c, e)).isSome = true

theorem Round.length_le {r : Round} {q : Request} (hq : q ∈ r.requests) : q.bytes.length ≤ r.bytes.length :=
  (List.sublist_flatten_of_mem (List.mem_map_of_mem hq)).length_le

/-! ## One round -/

theorem sendResponse_init {calls : List (List Writev)} {x y : Conn × Env} (hx : 0 < x.1.writeIndex)
    (h : sendResponse calls x = some y) : ∃ (d : Conn) (e : Env), d.sockfd = x.1.sockfd ∧ y = (d.init, e) := by
  induction calls generalizing x with
  | nil => cases h
  | cons rs calls ih =>
    simp only [sendResponse] at h
    split at h
    · rename_i z hw
      obtain ⟨c, e⟩ := z
      have hend := write_end hw
      split_ifs at h with hz
      · obtain rfl := Option.some.inj h
        cases hend with
        | idle h0 => exact ⟨x.1, _, rfl, rfl⟩
        | blocked hs h0 hb =>
          have hzero : c.writeIndex = 0 := hz
          rw [hs.writeIndex] at hzero
          exact absurd hzero hx.ne'
        | @kept c' l hs h0 => exact ⟨c'.unmapped, _, hs.sockfd, rfl⟩
      · cases hend with
        | idle h0 => exact absurd rfl hz
        | blocked hs h0 hb =>
          obtain ⟨d, e', hd, hy⟩ := ih (hs.writeIndex ▸ hx) h
          exact ⟨d, e', hd.trans hs.sockfd, hy⟩
        | kept hs h0 => exact absurd rfl hz
    · cases h

theorem receive_same {c d : Conn} (h : Same c d) (fs : FileSystem) (cs : List Bytes) (e f : Env) :
    Option.Rel SameAnswer (receive fs cs c e) (receive fs cs d f) := by
  induction cs generalizing c d e f with
  | nil => exact .some ⟨rfl, h, fun hne => absurd rfl hne⟩
  | cons b cs ih =>
    simp only [receive, ← h.readSide]
    split
    · rename_i r hr
      have hrel := process_same (h.setRead r) fs e f
      generalize process fs (c.setRead r) e = x at hrel
      generalize process fs (d.setRead r) f = y at hrel
      cases hrel with
      | none => exact .none
      | some hxy =>
        rename_i x y
        obtain ⟨code, c', e'⟩ := x
        obtain ⟨code', d', f'⟩ := y
        obtain rfl : code = code' := hxy.code
        dsimp only
        split_ifs
        · exact ih hxy.conn _ _
        · exact .some hxy
    · exact .none

/-- a request on a new connection -/
theorem receive_alone {q : Request} (hq : q.WellFormed) (hmeant : q.Readable) (hlen : q.bytes.length ≤ requestSize)
    (fs : FileSystem) (fd : ℤ) :
    ∃ code c e, receive fs [q.bytes] (Conn.blank.initConn fd Env.blank).1 (Conn.blank.initConn fd Env.blank).2 =
      some (code, c, e) ∧ code.answered = true ∧ c.linger = q.keepAlive ∧ 0 < c.writeIndex ∧ c.sockfd = fd := by
  have hsize : q.bytes.length ≤ readBufferSize := hlen.trans (by decide : requestSize ≤ readBufferSize)
  have hread := read_chunk (r := ReadSide.fresh) q.bytes_ne_nil (by
    rwa [show ReadSide.fresh.readIndex = 0 from rfl, Nat.zero_add])
  obtain ⟨b, hb, -, hkeep, -, hlength⟩ := hq.run hmeant hlen
  obtain ⟨r', hproc, hsame⟩ := processRead_doRequest hsize fs Conn.blank fd Env.blank hb (by rw [hlength]; positivity)
  have hlinger : r'.linger = q.keepAlive := hsame.linger.trans hkeep
  generalize hx : Conn.blank.initConn fd Env.blank = x at hproc
  have hside : x.1.toReadSide = ReadSide.fresh := by rw [← hx]; rfl
  have hindex : x.1.writeIndex = 0 := by rw [← hx]; rfl
  have hsock : x.1.sockfd = fd := by rw [← hx]; rfl
  obtain ⟨l, hreq, -⟩ := doRequest_requested fs (x.1.setRead r') x.2
  have hcode := doRequest_code fs (x.1.setRead r') x.2
  have hkept := doRequest_readSide fs (x.1.setRead r') x.2
  have hne : (doRequest fs (x.1.setRead r') x.2).1 ≠ .noRequest := hcode ▸ resourceCode_ne _ _
  obtain ⟨hw, hp⟩ := processWrite_spec hreq.answered (hreq.writeIndex.trans hindex)
  generalize doRequest fs (x.1.setRead r') x.2 = y at *
  obtain ⟨code, c, e⟩ := y
  have hrec : receive fs [q.bytes] x.1 x.2 =
      some (code, (processWrite code c).2, modfd e (processWrite code c).2.sockfd .epollOut) := by
    simp only [receive, hside, hread, process_answer hproc hreq.answered hw]
    exact if_neg hne
  refine ⟨code, _, _, hrec, hreq.answered, ?_, hp.index_pos, hp.kept.sockfd.trans (hreq.sockfd.trans hsock)⟩
  rw [hp.kept.readSide]
  exact (congrArg ReadSide.linger hkept).trans hlinger

/-- **A request after `init` is answered as on a new connection.** -/
theorem receive_single {q : Request} (hq : q.WellFormed) (hmeant : q.Readable) (hlen : q.bytes.length ≤ requestSize)
    (fs : FileSystem) {c : Conn} (hfd : c.sockfd ≠ -1) (e : Env) :
    ∃ code y, receive fs [q.bytes] c.init e = some (code, y) ∧ code.answered = true ∧
      alone fs c.sockfd q = some (answerOf code y.1) ∧ y.1.linger = q.keepAlive ∧ 0 < y.1.writeIndex ∧
      y.1.sockfd = c.sockfd := by
  obtain ⟨code, c₀, e₀, href, hanswered, hlinger, hindex, hsock⟩ := receive_alone hq hmeant hlen fs c.sockfd
  have hcode : code ≠ .noRequest := by rintro rfl; cases hanswered
  have hdef : code ≠ .undefined := by rintro rfl; cases hanswered
  have hsame : Same c.init (Conn.blank.initConn c.sockfd Env.blank).1 :=
    same_init (d := { Conn.blank with sockfd := c.sockfd }) rfl
  have hrel := receive_same hsame fs [q.bytes] e (Conn.blank.initConn c.sockfd Env.blank).2
  have halone : alone fs c.sockfd q = some (answerOf code c₀) := by
    unfold alone
    rw [href]
    exact if_neg (not_or.2 ⟨hdef, hcode⟩)
  rw [href] at hrel
  generalize receive fs [q.bytes] c.init e = z at hrel ⊢
  cases hrel with
  | some hxy =>
    rename_i x
    obtain ⟨code', c', e'⟩ := x
    obtain rfl : code' = code := hxy.code
    have hconn : Same c' c₀ := hxy.conn
    have hiov : c'.iov = c₀.iov := hxy.iov hcode hdef (by rw [hconn.sockfd, hsock]; exact hfd)
    have hanswer : answerOf code' c' = answerOf code' c₀ := by
      rw [answerOf, answerOf, Conn.written, hconn.writeBuffer, hconn.writeIndex, hconn.bytesToSend, hiov]
      rfl
    exact ⟨code', (c', e'), rfl, hanswered, hanswer ▸ halone, hconn.linger.trans hlinger, hconn.writeIndex ▸ hindex,
      hconn.sockfd.trans hsock⟩

/-- **A request without a body that is answered is readable.** -/
theorem readable_of_alone {q : Request} (hq : q.WellFormed) (hbody : q.body = []) (hlen : q.bytes.length ≤ requestSize)
    {fs : FileSystem} {fd : ℤ} {a : Answer} (h : alone fs fd q = some a) : q.Readable := by
  have hne : ∀ b ∈ [q.bytes], b ≠ [] := fun b hb => List.mem_singleton.1 hb ▸ q.bytes_ne_nil
  have hsize : q.bytes.length ≤ readBufferSize := hlen.trans (by decide)
  have hrel := receive_fresh fs { Conn.blank with sockfd := fd } (Conn.blank.initConn fd Env.blank).2 hne
    (by simpa using hsize)
  rw [Stream.deliver_cons, Stream.resume_nil] at hrel
  unfold alone at h
  rw [show (Conn.blank.initConn fd Env.blank).1 = Conn.init { Conn.blank with sockfd := fd } from rfl] at h
  generalize receive fs [q.bytes] (Conn.init { Conn.blank with sockfd := fd }) _ = x at hrel h
  cases hrun : (Stream.fresh.load q.bytes).run .lineOk with
  | none =>
    rw [hrun] at hrel
    cases hrel
    cases h
  | some y =>
    rw [hrun] at hrel
    cases hrel with
    | @some x _ hseen =>
      refine (hq.readable_of_run hbody hsize hrun).resolve_left fun hundef => ?_
      have hcode := (hseen.quiet (by rw [hundef]; nofun)).1.trans hundef
      dsimp only at h
      rw [if_pos (Or.inl hcode)] at h
      cases h

/-! ## All rounds -/

/-- every round has at most one response -/
theorem length_serve (rounds : List Round) (x : Conn × Env) : (serve rounds x).length ≤ rounds.length := by
  induction rounds generalizing x with
  | nil => exact le_rfl
  | cons r rounds ih =>
    simp only [serve, List.length_cons]
    split
    · split_ifs
      · exact Nat.zero_le _
      · exact (ih _).trans (Nat.le_succ _)
      · split
        · exact Nat.succ_le_succ (ih _)
        · exact Nat.succ_le_succ (Nat.zero_le _)
    · exact Nat.zero_le _

/-- what a client expects: the response to each request, in order -/
def expected (fd : ℤ) (rounds : List Round) : List (Option Answer) :=
  rounds.flatMap fun r => r.requests.map (alone r.fs fd)

/-- single requests -/
theorem serve_singles {rounds : List Round} (hok : ∀ r ∈ rounds, r.Ok) (hone : ∀ r ∈ rounds, r.requests.length = 1)
    (hread : ∀ r ∈ rounds, ∀ q ∈ r.requests, q.Readable) {c : Conn} (hfd : c.sockfd ≠ -1) (e : Env) :
    (serve rounds (c.init, e)).map some = expected c.sockfd rounds := by
  induction rounds generalizing c e with
  | nil => rfl
  | cons r rounds ih =>
    have hr := hok r List.mem_cons_self
    obtain ⟨q, hq⟩ := List.length_eq_one_iff.1 (hone r List.mem_cons_self)
    have hbytes : r.bytes = q.bytes := by simp [Round.bytes, hq]
    obtain ⟨hwf, -, hkeep⟩ := hr.request q (hq ▸ List.mem_singleton_self q)
    obtain ⟨code, y, hrec, hanswered, halone, hlinger, hindex, hsock⟩ :=
      receive_single hwf (hread r List.mem_cons_self q (hq ▸ List.mem_singleton_self q)) (hbytes ▸ hr.fits) r.fs hfd e
    have hdef : code ≠ .undefined := by rintro rfl; cases hanswered
    have hcode : code ≠ .noRequest := by rintro rfl; cases hanswered
    obtain ⟨z, hz⟩ := Option.isSome_iff_exists.1 (hr.sent y.1 y.2 (hlinger.trans hkeep) hindex)
    obtain ⟨d, e', hd, rfl⟩ := sendResponse_init (x := (y.1, y.2)) hindex hz
    have hrest := ih (fun r hr => hok r (List.mem_cons_of_mem _ hr)) (fun r hr => hone r (List.mem_cons_of_mem _ hr))
      (fun r hr => hread r (List.mem_cons_of_mem _ hr)) (c := d) (by rw [hd, hsock]; exact hfd) e'
    have hserve : serve (r :: rounds) (c.init, e) = answerOf code y.1 :: serve rounds (d.init, e') := by
      simp only [serve, hbytes, hrec, if_neg hdef, if_neg hcode, hz]
    rw [hserve, List.map_cons, hrest, hd, hsock, ← halone]
    simp [expected, hq]

theorem eq_one_of_sum_le {l : List ℕ} (hpos : ∀ n ∈ l, 1 ≤ n) (hsum : l.sum ≤ l.length) : ∀ n ∈ l, n = 1 := by
  induction l with
  | nil => exact nofun
  | cons m l ih =>
    have htail : ∀ n ∈ l, 1 ≤ n := fun n hn => hpos n (List.mem_cons_of_mem m hn)
    have hlen := List.length_le_sum_of_one_le l htail
    have hm := hpos m List.mem_cons_self
    rw [List.sum_cons, List.length_cons] at hsum
    intro n hn
    rcases List.mem_cons.1 hn with rfl | hn
    · omega
    · exact ih htail (by omega) n hn

/-- **Several requests on one connection.** For all rounds of well-formed requests without a body that ask for the
connection to be kept: the responses are those to the requests, one for each and in their order, if and only if every
`read` takes exactly one request, and the parser reads the length of each as it is meant. -/
theorem serve_iff {rounds : List Round} (hok : ∀ r ∈ rounds, r.Ok) (c : Conn) {fd : ℤ} (hfd : fd ≠ -1) (e : Env) :
    (serve rounds (c.initConn fd e)).map some = expected fd rounds ↔
      ∀ r ∈ rounds, r.requests.length = 1 ∧ ∀ q ∈ r.requests, q.Readable := by
  constructor
  · intro h
    have hlen := length_serve rounds (c.initConn fd e)
    have hcount : (serve rounds (c.initConn fd e)).length = (rounds.map fun r => r.requests.length).sum := by
      have := congrArg List.length h
      simpa [expected, List.length_flatMap] using this
    have hone : ∀ n ∈ rounds.map (fun r => r.requests.length), n = 1 := by
      refine eq_one_of_sum_le ?_ (by rw [← hcount, List.length_map]; exact hlen)
      intro n hn
      obtain ⟨r, hr, rfl⟩ := List.mem_map.1 hn
      exact List.length_pos_iff.2 (hok r hr).some_request
    refine fun r hr => ⟨hone _ (List.mem_map_of_mem hr), fun q hq => ?_⟩
    -- the response that the client expects is one of those it got
    have hmem : alone r.fs fd q ∈ (serve rounds (c.initConn fd e)).map some :=
      h ▸ List.mem_flatMap_of_mem hr (List.mem_map_of_mem hq)
    obtain ⟨a, -, ha⟩ := List.mem_map.1 hmem
    obtain ⟨hwf, hbody, -⟩ := (hok r hr).request q hq
    exact readable_of_alone hwf hbody ((Round.length_le hq).trans (hok r hr).fits) ha.symm
  · exact fun h => serve_singles (c := { c with sockfd := fd }) hok (fun r hr => (h r hr).1) (fun r hr => (h r hr).2)
      hfd _

/-- the kernel takes every response at once -/
def atOnce (c : Conn) : List (List Writev) := [[.sent (c.bytesToSend % 2 ^ 32).toNat]]

theorem atOnce_sent (c : Conn) (e : Env) (hl : c.linger = true) : (sendResponse (atOnce c) (c, e)).isSome = true := by
  simp only [atOnce, sendResponse]
  by_cases h0 : c.bytesToSend = 0
  · have hwrite : ∀ rs, HttpConn.write rs c e = some (true, c.init, modfd e c.sockfd .epollIn) := fun rs => if_pos h0
    rw [hwrite]
    rfl
  · -- what is left is a multiple of 2^32, and so 0 as an `int`
    have hlast : completes [.sent (c.bytesToSend % 2 ^ 32).toNat] c = true := by
      have hto : (advance c (c.bytesToSend % 2 ^ 32).toNat).bytesToSend =
          int32 (c.bytesToSend - int32 (c.bytesToSend % 2 ^ 32).toNat) := by
        unfold advance
        dsimp only
        split_ifs <;> rfl
      obtain ⟨-, -, k, hk⟩ := int32_spec (c.bytesToSend % 2 ^ 32).toNat
      obtain ⟨hge, hlt, k', hk'⟩ := int32_spec (c.bytesToSend - int32 (c.bytesToSend % 2 ^ 32).toNat)
      have hle : (advance c (c.bytesToSend % 2 ^ 32).toNat).bytesToSend ≤ 0 := by omega
      simp only [completes, sendsLast, h0, hle, ne_eq, not_false_eq_true, decide_true, Bool.true_or, Bool.true_and]
    obtain ⟨d, e', -, hw⟩ := write_completes (e := e) hlast
    rw [hw, hl]
    rfl

/-- a request without a body that asks for the connection to be kept -/
def keptRequest : Request where
  method := ascii "GET"
  blank1 := space
  target := ascii "/"
  blank2 := space
  version := ascii "HTTP/1.1"
  headers := [ascii "Connection: keep-alive"]
  body := []

theorem keptRequest_wellFormed : keptRequest.WellFormed := by
  constructor <;> decide +kernel

/-- the request comes `n` times in one `read` -/
def copies (n : ℕ) : Round := ⟨List.replicate n keptRequest, plainFiles 10, atOnce⟩

theorem copies_ok {n : ℕ} (hn : 0 < n) (hfits : (copies n).bytes.length ≤ requestSize) : (copies n).Ok where
  some_request := by simp [copies]; omega
  request := by
    intro q hq
    rw [List.eq_of_mem_replicate hq]
    exact ⟨keptRequest_wellFormed, rfl, by decide +kernel⟩
  fits := hfits
  sent := fun c e hl _ => atOnce_sent c e hl

theorem serve_singleRequests : (serve [copies 1, copies 1] (Conn.blank.initConn 5 Env.blank)).map some =
    expected 5 [copies 1, copies 1] := by
  refine (serve_iff ?_ Conn.blank (by decide) Env.blank).2 ?_
  · intro r hr
    obtain rfl : r = copies 1 := by simpa using hr
    exact copies_ok (by decide) (by decide +kernel)
  · intro r hr
    obtain rfl : r = copies 1 := by simpa using hr
    refine ⟨rfl, fun q hq => ?_⟩
    rw [List.eq_of_mem_replicate hq]
    exact Request.readable_of_lengths (by decide +kernel)

/-- **Of two requests in one `read` the second is lost.** -/
theorem serve_twoRequests : (copies 2).Ok ∧ (copies 2).requests.length = 2 ∧
    (serve [copies 2] (Conn.blank.initConn 5 Env.blank)).length = 1 :=
  ⟨copies_ok (by decide) (by decide +kernel), rfl, by decide +kernel⟩

end WebServer.HttpConn
