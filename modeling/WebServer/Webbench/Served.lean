/-
Webbench against the server of this repository: which of its requests are served.

The request that `build_request` composes is delivered to a fresh connection in one piece. The server takes GET and
HTTP/1.1 only. Webbench asks with HTTP/1.0 unless it is told otherwise, so its default run measures how fast the server
refuses.

- `requestLine_unique`: a line that is written as a method, a target and a version has no other reading.
- `requestText_refused`: every other line ends in BAD_REQUEST.
- `asRequest_wellFormed`: the requests that are served are well-formed, with no body and no keep-alive.
- `buildRequest_answered`: both together, for every set of options and every URL.
-/
import WebServer.HttpConn.Complete
import WebServer.Webbench.Request

namespace WebServer.Webbench

open WebServer.HttpConn

/-! ## The first line -/

/-- the version at the end of the request line, with the blank before it -/
def versionText : Protocol → Bytes
  | .v09 => []
  | .v10 => ascii " HTTP/1.0"
  | .v11 => ascii " HTTP/1.1"

def firstLine (o : Options) (target : Bytes) : Bytes :=
  o.method.text ++ space :: (target ++ versionText (protocolFor o))

theorem requestText_firstLine (o : Options) (host target : Bytes) :
    ∃ rest, requestText o host target = firstLine o target ++ crlf ++ rest := by
  have hcrlf : ascii "\r\n" = crlf := by decide
  have hspace : ascii " " = [space] := by decide
  unfold requestText trailer firstLine
  rw [hcrlf, hspace]
  cases protocolFor o <;> exact ⟨_, by simp [versionText]; rfl⟩

/-- bytes that are part of a word of a line -/
def Word (s : Bytes) : Prop := ∀ b ∈ s, b ∉ blanks ∧ inLine b = true ∧ b ≠ 0

theorem method_word (m : Method) : Word m.text := by
  unfold Word
  cases m <;> decide +kernel

theorem firstLine_text {o : Options} {target : Bytes} (h : Word target) : TextLine (firstLine o target) := by
  intro b hb
  simp only [firstLine, List.mem_append, List.mem_cons] at hb
  rcases hb with hb | rfl | hb | hb
  · exact (method_word o.method b hb).2
  · decide
  · exact (h b hb).2
  · revert b
    cases protocolFor o <;> decide +kernel

/-- two readings of a line with a blank behind a word agree -/
theorem word_unique {a b s t : Bytes} {x y : UInt8} (ha : ∀ c ∈ a, c ∉ blanks) (hb : ∀ c ∈ b, c ∉ blanks)
    (hx : x ∈ blanks) (hy : y ∈ blanks) (h : a ++ x :: s = b ++ y :: t) : a = b ∧ s = t := by
  have hlen : a.length = b.length := by
    have h1 := strpbrk_append (t := s) ha hx
    rw [h, strpbrk_append hb hy] at h1
    exact (Option.some.inj h1).symm
  obtain ⟨hab, hst⟩ := List.append_inj h hlen
  exact ⟨hab, (List.cons.inj hst).2⟩

/-- **The line has no other reading.** -/
theorem requestLine_unique {o : Options} {target m u v : Bytes} {s₁ s₂ : UInt8} (ht : Word target)
    (h : RequestLine (firstLine o target) m s₁ u s₂ v) : m = o.method.text ∧ u = target ∧
      space :: v = versionText (protocolFor o) := by
  obtain ⟨hm, hrest⟩ := word_unique (fun c hc => (method_word o.method c hc).1) h.method_word (by decide) h.blank1 h.text
  have hblank : ∀ w, target ++ space :: w = u ++ s₂ :: v → target = u ∧ w = v :=
    fun w hw => word_unique (fun c hc => (ht c hc).1) h.target_word (by decide) h.blank2 hw
  refine ⟨hm.symm, ?_⟩
  cases hp : protocolFor o with
  | v09 =>
    rw [hp, versionText, List.append_nil] at hrest
    have hmem : s₂ ∈ target := by rw [hrest]; simp
    exact absurd h.blank2 (ht s₂ hmem).1
  | v10 =>
    rw [hp] at hrest
    obtain ⟨hu, hv⟩ := hblank (ascii "HTTP/1.0") hrest
    exact ⟨hu.symm, by rw [← hv]; decide⟩
  | v11 =>
    rw [hp] at hrest
    obtain ⟨hu, hv⟩ := hblank (ascii "HTTP/1.1") hrest
    exact ⟨hu.symm, by rw [← hv]; decide⟩

/-- the targets that the server takes -/
def ServedTarget (u : Bytes) : Prop :=
  u.head? = some slash ∨ (strncasecmp u (ascii "http://") 7 = true ∧ slash ∈ u.drop 7)

/-- the server accepts the first line if and only if the method is GET, the version 1.1 and the target has its form -/
theorem firstLine_accepted_iff {o : Options} {target : Bytes} (ht : Word target) :
    (requestTarget (firstLine o target)).1 = .noRequest ↔
      o.method = .get ∧ protocolFor o = .v11 ∧ ServedTarget target := by
  rw [requestTarget_iff]
  constructor
  · rintro ⟨m, s₁, u, s₂, v, h⟩
    obtain ⟨rfl, rfl, hv⟩ := requestLine_unique ht h
    have hmethod := h.method
    have hversion := h.version
    refine ⟨?_, ?_, h.target⟩
    · revert hmethod
      cases o.method <;> decide
    · cases hp : protocolFor o with
      | v09 => rw [hp] at hv; cases hv
      | v10 =>
        rw [hp] at hv
        obtain rfl : v = ascii "HTTP/1.0" := (List.cons.inj hv).2
        exact absurd hversion (by decide)
      | v11 => rfl
  · rintro ⟨hm, hp, htarget⟩
    refine ⟨ascii "GET", space, target, space, ascii "HTTP/1.1", ?_, by decide, by decide, by decide +kernel,
      fun b hb => (ht b hb).1, by decide, by decide, htarget⟩
    unfold firstLine
    rw [hm, hp]
    rfl

/-- a request whose first line is not accepted is a bad request, whatever follows -/
theorem requestText_refused {o : Options} (host : Bytes) {target : Bytes} (ht : Word target)
    (h : (requestTarget (firstLine o target)).1 ≠ .noRequest) :
    ∃ b, (Stream.fresh.load (requestText o host target)).run .lineOk = some (.badRequest, b) := by
  obtain ⟨rest, hrest⟩ := requestText_firstLine o host target
  have htext := firstLine_text (o := o) ht
  have hl : nextLine (Stream.fresh.load (requestText o host target)).rest = .complete (firstLine o target) rest := by
    have hb : (Stream.fresh.load (requestText o host target)).rest = firstLine o target ++ crlf ++ rest := by
      rw [hrest]
      rfl
    rw [hb]
    exact nextLine_text htext rest
  have hbad : (requestTarget (firstLine o target)).1 = .badRequest := (requestTarget_code _).resolve_right h
  have hbody := Stream.body_requestLine
    (a := (Stream.fresh.load (requestText o host target)).passed (firstLine o target) rest) rfl
  rw [Stream.cText_passed rfl, htext.cText, hbad] at hbody
  obtain ⟨h1, -⟩ := Stream.head_end (a := Stream.fresh.load (requestText o host target)) (fun h => by cases h) hl
    (by rw [hbody]; nofun) .lineOk []
  exact ⟨_, h1.trans (by rw [hbody])⟩

/-! ## The requests that are served -/

/-- the header lines of an HTTP/1.1 request -/
def headerLines (o : Options) (host : Bytes) : List Bytes :=
  [ascii "User-Agent: WebBench 1.5"] ++ (if o.proxyhost = none then [ascii "Host: " ++ host] else []) ++
    (if o.forceReload ∧ o.proxyhost ≠ none then [ascii "Pragma: no-cache"] else []) ++ [ascii "Connection: close"]

/-- the request as the server understands it -/
def asRequest (o : Options) (host target : Bytes) : Request where
  method := ascii "GET"
  blank1 := space
  target := target
  blank2 := space
  version := ascii "HTTP/1.1"
  headers := headerLines o host
  body := []

theorem requestText_asRequest {o : Options} (hm : o.method = .get) (hp : protocolFor o = .v11) (host target : Bytes) :
    requestText o host target = (asRequest o host target).bytes := by
  have h1 : ascii "\r\n" = crlf := by decide
  have h2 : ascii "User-Agent: WebBench 1.5\r\n" = ascii "User-Agent: WebBench 1.5" ++ crlf := by decide
  have h3 : ascii "Pragma: no-cache\r\n" = ascii "Pragma: no-cache" ++ crlf := by decide
  have h4 : ascii "Connection: close\r\n" = ascii "Connection: close" ++ crlf := by decide
  have h5 : ascii " HTTP/1.1" = space :: ascii "HTTP/1.1" := by decide
  have h6 : ascii " " = [space] := by decide
  unfold requestText trailer asRequest Request.bytes Request.line headerLines
  rw [hm, hp, h1, h2, h3, h4, h5, h6]
  by_cases hproxy : o.proxyhost = none <;> cases o.forceReload <;> simp [hproxy, Method.text]

theorem skipBlanks_word {s : Bytes} (h : Word s) : skipBlanks (space :: s) = s := by
  unfold skipBlanks strspn
  cases s with
  | nil => rfl
  | cons b s =>
    have hb : b ∉ blanks := (h b List.mem_cons_self).1
    rw [List.takeWhile_cons, if_pos (by decide), List.takeWhile_cons, if_neg (by simpa using hb)]
    rfl

/-- the `Host` line as the server reads it -/
theorem hostLine_read {host : Bytes} (h : Word host) : keepsAlive (ascii "Host: " ++ host) = false ∧
    lengthField (ascii "Host: " ++ host) = none ∧ hostField (ascii "Host: " ++ host) = some host := by
  have h5 : strncasecmp (ascii "Host: " ++ host) (ascii "Host:") 5 = true := rfl
  have hconn : strncasecmp (ascii "Host: " ++ host) (ascii "Connection:") 11 = false :=
    not_strncasecmp (k := 1) h5 (by decide) (by decide) (by decide)
  have hlen : strncasecmp (ascii "Host: " ++ host) (ascii "Content-Length:") 15 = false :=
    not_strncasecmp (k := 1) h5 (by decide) (by decide) (by decide)
  refine ⟨?_, ?_, ?_⟩
  · unfold keepsAlive
    rw [hconn, Bool.false_and]
  · unfold lengthField
    rw [hlen]
    rfl
  · unfold hostField
    rw [h5, if_pos rfl]
    exact congrArg some (skipBlanks_word h)

/-- what the server reads in the header lines: the host, and nothing else -/
theorem headerLines_read {o : Options} {host : Bytes} (h : Word host) :
    (headerLines o host).any keepsAlive = false ∧ (headerLines o host).filterMap lengthField = [] ∧
      (headerLines o host).filterMap hostField = if o.proxyhost = none then [host] else [] := by
  obtain ⟨h1, h2, h3⟩ := hostLine_read h
  have hagent : keepsAlive (ascii "User-Agent: WebBench 1.5") = false ∧
      lengthField (ascii "User-Agent: WebBench 1.5") = none ∧
      hostField (ascii "User-Agent: WebBench 1.5") = none := by decide
  have hpragma : keepsAlive (ascii "Pragma: no-cache") = false ∧ lengthField (ascii "Pragma: no-cache") = none ∧
      hostField (ascii "Pragma: no-cache") = none := by decide
  have hclose : keepsAlive (ascii "Connection: close") = false ∧ lengthField (ascii "Connection: close") = none ∧
      hostField (ascii "Connection: close") = none := by decide
  unfold headerLines
  by_cases hp : o.proxyhost = none <;> cases o.forceReload <;>
    simp [hp, h1, h2, h3, hagent, hpragma, hclose]

theorem headerLines_text {o : Options} {host : Bytes} (h : Word host) :
    ∀ l ∈ headerLines o host, l ≠ [] ∧ ∀ b ∈ l, inLine b = true ∧ b ≠ 0 := by
  intro l hl
  simp only [headerLines, List.mem_append, List.mem_singleton] at hl
  rcases hl with ((rfl | hl) | hl) | rfl
  · decide +kernel
  · split_ifs at hl
    · obtain rfl := List.mem_singleton.1 hl
      refine ⟨by simp [ascii], fun b hb => ?_⟩
      have hname : ∀ x ∈ ascii "Host: ", inLine x = true ∧ x ≠ 0 := by decide +kernel
      rcases List.mem_append.1 hb with hb | hb
      · exact hname b hb
      · exact (h b hb).2
    · cases hl
  · split_ifs at hl
    · obtain rfl := List.mem_singleton.1 hl
      decide +kernel
    · cases hl
  · decide +kernel

theorem asRequest_lengths (o : Options) {host : Bytes} (target : Bytes) (hh : Word host) :
    (asRequest o host target).lengths = [] :=
  (headerLines_read hh).2.1

theorem asRequest_read (o : Options) {host : Bytes} (target : Bytes) (hh : Word host) :
    (asRequest o host target).keepAlive = false ∧
      (asRequest o host target).host = (if o.proxyhost = none then some host else none) ∧
      (asRequest o host target).contentLength = 0 := by
  obtain ⟨h1, -, h3⟩ := headerLines_read (o := o) hh
  refine ⟨h1, ?_, ?_⟩
  · unfold Request.host
    rw [show (asRequest o host target).headers = headerLines o host from rfl, h3]
    split_ifs <;> rfl
  · unfold Request.contentLength
    rw [asRequest_lengths o target hh]
    rfl

theorem asRequest_wellFormed {o : Options} {host target : Bytes} (ht : Word target) (hh : Word host)
    (hform : ServedTarget target) : (asRequest o host target).WellFormed where
  method := show strcasecmp (ascii "GET") (ascii "GET") = true by decide
  blank1 := show space ∈ blanks by decide
  blank2 := show space ∈ blanks by decide
  version := show strcasecmp (ascii "HTTP/1.1") (ascii "HTTP/1.1") = true by decide
  target := ht
  target_form := hform
  header_line := headerLines_text hh
  header_length := by
    intro l hl v hv
    have hmem : v ∈ (headerLines o host).filterMap lengthField := List.mem_filterMap.2 ⟨l, hl, hv⟩
    rw [(headerLines_read hh).2.1] at hmem
    cases hmem
  body := (asRequest_read _ _ hh).2.2.symm

/-! ## The answer of the server -/

/-- what the server finds in a request of Webbench that it serves -/
def servedAs (fs : FileSystem) (o : Options) (url host : Bytes) : Parsed where
  code := resourceCode fs (pathIn Buf.zero (some (pathOf url)))
  url := some (pathOf url)
  host := if o.proxyhost = none then some host else none
  linger := false
  contentLength := 0

/-- the options and URLs whose requests are served -/
def Served (o : Options) (url : Bytes) : Prop :=
  o.method = .get ∧ o.http10 = .v11 ∧
    (o.proxyhost = none ∨ url.head? = some slash ∨ strncasecmp url (ascii "http://") 7 = true)

theorem protocolFor_get {o : Options} (h : o.method = .get) : protocolFor o = .v11 ↔ o.http10 = .v11 := by
  unfold protocolFor
  rw [h]
  cases o.http10 <;> cases o.forceReload <;> cases o.proxyhost <;> simp

theorem strncasecmp_comm (s t : Bytes) (n : ℕ) : strncasecmp s t n = strncasecmp t s n := by
  unfold strncasecmp
  exact decide_eq_decide.2 eq_comm

/-- an http URL has its host from offset 7 on -/
theorem delimiter_http {p : Option Bytes} {url : Bytes} {i : ℕ} (h : delimiter p url = .ok i)
    (hhttp : strncasecmp url (ascii "http://") 7 = true) : i = 7 := by
  unfold delimiter at h
  rw [strstr_http (by rwa [strncasecmp_comm])] at h
  dsimp only at h
  split_ifs at h
  cases h
  rfl

/-- without a proxy only http URLs pass the checks -/
theorem delimiter_direct {url : Bytes} {i : ℕ} (h : delimiter none url = .ok i) :
    strncasecmp url (ascii "http://") 7 = true := by
  unfold delimiter at h
  split at h
  · cases h
  split_ifs at h with h1 h2
  rw [strncasecmp_comm]
  simpa using h2

/-- the target of the request line and the path in it -/
theorem target_served {o : Options} {url : Bytes} {i : ℕ} (h : delimiter o.proxyhost url = .ok i) :
    (ServedTarget (target o url (url.drop i)) ↔
      o.proxyhost = none ∨ url.head? = some slash ∨ strncasecmp url (ascii "http://") 7 = true) ∧
    pathOf (target o url (url.drop i)) = pathOf url := by
  obtain ⟨-, a, t, hrest, ha⟩ := exists_slash h
  unfold target
  by_cases hp : o.proxyhost = none
  · rw [hp] at h
    have hhttp := delimiter_direct h
    obtain rfl := delimiter_http h hhttp
    have hpath : pathText (url.drop 7) = slash :: t := by
      rw [hrest]
      exact dropWhile_ne ha
    rw [if_pos hp, hpath]
    refine ⟨iff_of_true (Or.inl rfl) (Or.inl hp), ?_⟩
    unfold pathOf
    rw [if_neg (by rw [not_http_of_slash rfl]; decide), if_pos hhttp]
    exact hpath.symm
  · rw [if_neg hp]
    refine ⟨?_, rfl⟩
    unfold ServedTarget
    constructor
    · rintro (hs | ⟨hhttp, -⟩)
      · exact Or.inr (Or.inl hs)
      · exact Or.inr (Or.inr hhttp)
    · rintro (hnone | hs | hhttp)
      · exact absurd hnone hp
      · exact Or.inl hs
      · obtain rfl := delimiter_http h hhttp
        exact Or.inr ⟨hhttp, by rw [hrest]; simp⟩

theorem Word.sublist {s t : Bytes} (h : Word t) (hs : s.Sublist t) : Word s := fun b hb => h b (hs.subset hb)

theorem word_target {o : Options} {url : Bytes} (h : Word url) (i : ℕ) : Word (target o url (url.drop i)) := by
  unfold target
  split_ifs
  · exact h.sublist ((List.dropWhile_sublist _).trans (List.drop_sublist i url))
  · exact h

theorem word_hostOf {o : Options} {url : Bytes} (h : Word url) (i : ℕ) : Word (hostOf o (url.drop i)) := by
  unfold hostOf
  split_ifs
  · exact h.sublist (((List.takeWhile_sublist _).trans (List.takeWhile_sublist _)).trans (List.drop_sublist i url))
  · exact fun b hb => by cases hb

theorem requestText_ne_nil (o : Options) (host target : Bytes) : requestText o host target ≠ [] := by
  obtain ⟨rest, hrest⟩ := requestText_firstLine o host target
  rw [hrest]
  unfold firstLine
  simp

/-- one piece delivered to a fresh connection -/
theorem deliver_one (fs : FileSystem) (c : Conn) (fd : ℤ) (e : Env) {q : Bytes} (hne : q ≠ [])
    (hlen : q.length ≤ HttpConn.requestSize) {x : HttpCode × Stream}
    (h : (Stream.fresh.load q).run .lineOk = some x) :
    deliver fs [q] (c.initConn fd e).1 (c.initConn fd e).2 = some (view fs Buf.zero x) := by
  have hone : ∀ p ∈ [q], p ≠ [] := by
    intro p hp
    rwa [List.mem_singleton.1 hp]
  rw [deliver_stream c fd e hone (by simpa using hlen), Stream.deliver_cons, Stream.resume_nil, h]
  rfl

/-- **What the server makes of a request of Webbench.** For every set of options and every URL without blanks and line
ends for which `build_request` returns, its request, delivered in one piece, is served if and only if it is a GET with
HTTP/1.1 and, through a proxy, the URL is an http URL or begins with a slash; the path, the host and the end of the
connection are then those of the URL. Every other request, among them every one of the default HTTP/1.0, is a bad
request. -/
theorem buildRequest_answered {o : Options} {url : Bytes} {b : Built} (hb : buildRequest o url = .ok b)
    (hurl : Word url) (fs : FileSystem) (c : Conn) (fd : ℤ) (e : Env) :
    (Served o url → deliver fs [b.request] (c.initConn fd e).1 (c.initConn fd e).2 =
      some (servedAs fs o url b.host)) ∧
    (¬ Served o url → (deliver fs [b.request] (c.initConn fd e).1 (c.initConn fd e).2).map Parsed.code =
      some .badRequest) := by
  obtain ⟨i, hd, rfl⟩ := buildRequest_ok hb
  have ht := word_target (o := o) hurl i
  have hh := word_hostOf (o := o) hurl i
  have hlen : (built o url (url.drop i)).request.length ≤ HttpConn.requestSize := Nat.le_of_lt_succ (length_built hd)
  have hne : (built o url (url.drop i)).request ≠ [] := requestText_ne_nil o _ _
  obtain ⟨hform, hpath⟩ := target_served hd
  have haccept : (requestTarget (firstLine o (target o url (url.drop i)))).1 = .noRequest ↔ Served o url := by
    rw [firstLine_accepted_iff ht, hform]
    exact and_congr_right fun hget => and_congr_left fun _ => protocolFor_get hget
  constructor
  · intro hserved
    obtain ⟨hget, hv, htarget⟩ := (firstLine_accepted_iff ht).1 (haccept.2 hserved)
    have hbytes : (built o url (url.drop i)).request = _ := requestText_asRequest hget hv _ _
    have hwf := asRequest_wellFormed (o := o) ht hh htarget
    rw [hbytes] at hlen hne ⊢
    obtain ⟨a, hrun, hpathA, hlinger, hhost, hcl⟩ := hwf.run (Request.readable_of_lengths (asRequest_lengths _ _ hh)) hlen
    rw [deliver_one fs c fd e hne hlen hrun]
    obtain ⟨h1, h2, h3⟩ := asRequest_read o (target o url (url.drop i)) hh
    have hp : a.url.map Prod.snd = some (pathOf url) := hpathA.trans (congrArg some hpath)
    rw [h1] at hlinger
    rw [h2] at hhost
    rw [h3] at hcl
    unfold view servedAs
    rw [if_pos rfl, hp, hlinger, hhost, hcl]
    rfl
  · intro hserved
    obtain ⟨a, hrun⟩ := requestText_refused (hostOf o (url.drop i)) ht (haccept.not.2 hserved)
    rw [deliver_one fs c fd e hne hlen hrun]
    rfl

/-- the command line of the benchmark, with HTTP/1.1 -/
def sampleOptions : Options := ⟨.get, .v11, false, none, 80⟩

def sampleUrl : Bytes := ascii "http://127.0.0.1:10000/index.html"

def sampleBuilt : Built where
  http10 := .v11
  request := ascii
    "GET /index.html HTTP/1.1\r\nUser-Agent: WebBench 1.5\r\nHost: 127.0.0.1\r\nConnection: close\r\n\r\n"
  host := ascii "127.0.0.1"
  proxyport := 10000

theorem sampleBuilt_eq : buildRequest sampleOptions sampleUrl = .ok sampleBuilt := by decide +kernel

theorem sampleOptions_served : Served sampleOptions sampleUrl := ⟨rfl, rfl, Or.inl rfl⟩

theorem buildRequest_answered_sample :
    deliver (plainFiles 10) [sampleBuilt.request] (Conn.blank.initConn 7 Env.blank).1 (Conn.blank.initConn 7 Env.blank).2 =
      some (servedAs (plainFiles 10) sampleOptions sampleUrl sampleBuilt.host) :=
  (buildRequest_answered sampleBuilt_eq (by unfold Word; decide +kernel) (plainFiles 10) Conn.blank 7 Env.blank).1
    sampleOptions_served

end WebServer.Webbench
