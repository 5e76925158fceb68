/-
Webbench: the request that `build_request` composes for a URL of the command line.

The function writes into three blocks of fixed size: `request`, `host` and, for the digits of the port, `tmp`. The copies
are not bounded by the sizes of the blocks. A copy past the end of its block is an overrun here and ends the run.
`strncpy` stores no zero behind the text, so a text that fills its block is not terminated; reading on behind it ends the
run too. `host` is read here only for the `Host` line, and once more for every connection (`Socket`).

- `buildRequest_eq`: the function in one expression. `request` never overflows, because a URL has at most 1500 bytes.
- `buildRequest_overrun_iff`: for which URLs the function writes past the end of a block, or reads past it.
- `buildRequest_url`: a URL made of a host, a port and a path is taken apart into these.
-/
import WebServer.Core.Scan

namespace WebServer.Webbench

/-! ## Options and results -/

inductive Method where
  | get
  | head
  | options
  | trace
deriving DecidableEq, Repr

def Method.text : Method → Bytes
  | .get => ascii "GET"
  | .head => ascii "HEAD"
  | .options => ascii "OPTIONS"
  | .trace => ascii "TRACE"

/-- the values 0, 1 and 2 of the variable `http10` -/
inductive Protocol where
  | v09
  | v10
  | v11
deriving DecidableEq, Repr

structure Options where
  method : Method
  http10 : Protocol
  forceReload : Bool
  proxyhost : Option Bytes
  proxyport : ℤ
deriving DecidableEq, Repr

/-- the blocks that texts are copied into -/
inductive Block where
  | request
  | host
  | tmp
deriving DecidableEq, Repr

def Block.size : Block → ℕ
  | .request => 2048
  | .host => 64
  | .tmp => 10

inductive Stop where
  /-- a message on stderr and the exit status -/
  | exit (message : Bytes) (status : ℕ)
  /-- a text is written past the end of the block -/
  | overrun (block : Block)
  /-- a text that fills the block is read past its end -/
  | unterminated (block : Block)
deriving DecidableEq, Repr

/-- the globals that `build_request` leaves behind -/
structure Built where
  http10 : Protocol
  request : Bytes
  host : Bytes
  proxyport : ℤ
deriving DecidableEq, Repr

/-! ## The function -/

def colon : UInt8 := 58

/-- the text in `request` and the zero behind it -/
def strcat (request text : Bytes) : Except Stop Bytes :=
  if (request ++ text).length < Block.request.size then .ok (request ++ text) else .error (.overrun .request)

/-- `strncpy` of a text of exactly as many bytes, into a block of zeros -/
def strncpy (block : Block) (text : Bytes) : Except Stop Bytes :=
  if text.length ≤ block.size then .ok text else .error (.overrun block)

/-- the zero behind the text in a block is found inside the block -/
def terminated (block : Block) (text : Bytes) : Except Stop Bytes :=
  if text.length < block.size then .ok text else .error (.unterminated block)

/-- what `strtol` leaves of a text: the bytes behind the number -/
def behindNumber (s : Bytes) : Bytes :=
  match s.dropWhile isSpace with
  | 45 :: t => t.dropWhile isDigit
  | 43 :: t => t.dropWhile isDigit
  | t => t.dropWhile isDigit

/-- `atoi(tmp)`. A byte behind the number stops it, or the zero behind the text. -/
def atoi (tmp : Bytes) : Except Stop ℤ :=
  if behindNumber tmp ≠ [] ∨ tmp.length < Block.tmp.size then .ok (int32 (strtol tmp)) else .error (.unterminated .tmp)

/-- the protocol, raised to the least one that the options need -/
def protocolFor (o : Options) : Protocol :=
  let http10 := if o.forceReload ∧ o.proxyhost ≠ none ∧ o.http10 = .v09 then .v10 else o.http10
  let http10 := if o.method = .head ∧ http10 = .v09 then .v10 else http10
  let http10 := if o.method = .options ∧ http10 ≠ .v11 then .v11 else http10
  if o.method = .trace ∧ http10 ≠ .v11 then .v11 else http10

/-- the checks on the URL; the result is the offset behind "://" -/
def delimiter (proxyhost : Option Bytes) (url : Bytes) : Except Stop ℕ :=
  match strstr url (ascii "://") with
  | none => .error (.exit (ascii "\n" ++ url ++ ascii ": is not a valid URL.\n") 2)
  | some k =>
    if 1500 < url.length then .error (.exit (ascii "URL is too long.\n") 2)
    else if proxyhost = none ∧ strncasecmp (ascii "http://") url 7 = false then
      .error (.exit (ascii "\nOnly HTTP protocol is directly supported, set --proxy for others.\n") 2)
    else if strchr (url.drop (k + 3)) slash = none then
      .error (.exit (ascii "\nInvalid URL syntax - hostname don't ends with '/'.\n") 2)
    else .ok (k + 3)

/-- the host and the port in `rest`, the URL from the host on -/
def hostPort (proxyport : ℤ) (rest : Bytes) : Except Stop (Bytes × ℤ) :=
  let s := (strchr rest slash).getD 0
  match (strchr rest colon).filter (· < s) with
  | some c => do
    let host ← strncpy .host (rest.take c)
    let tmp ← strncpy .tmp ((rest.drop (c + 1)).take (s - c - 1))
    let port ← atoi tmp
    pure (host, if port = 0 then 80 else port)
  | none => do
    let host ← strncpy .host (rest.take (strcspn rest [slash]))
    pure (host, proxyport)

/-- the texts behind the target, in the order of the calls of `strcat` -/
def trailer (o : Options) (http10 : Protocol) (host : Bytes) : List Bytes :=
  (match http10 with
    | .v09 => []
    | .v10 => [ascii " HTTP/1.0"]
    | .v11 => [ascii " HTTP/1.1"]) ++
  [ascii "\r\n"] ++
  (if http10 ≠ .v09 then [ascii "User-Agent: WebBench 1.5\r\n"] else []) ++
  (if o.proxyhost = none ∧ http10 ≠ .v09 then [ascii "Host: ", host, ascii "\r\n"] else []) ++
  (if o.forceReload ∧ o.proxyhost ≠ none then [ascii "Pragma: no-cache\r\n"] else []) ++
  (if http10 = .v11 then [ascii "Connection: close\r\n"] else []) ++
  (if http10 ≠ .v09 then [ascii "\r\n"] else [])

def buildRequest (o : Options) (url : Bytes) : Except Stop Built := do
  let http10 := protocolFor o
  let request ← strcat [] o.method.text
  let request ← strcat request (ascii " ")
  let i ← delimiter o.proxyhost url
  let rest := url.drop i
  let hp ← (if o.proxyhost = none then hostPort o.proxyport rest else pure ([], o.proxyport))
  let request ← strcat request (if o.proxyhost = none then rest.drop (strcspn rest [slash]) else url)
  -- the `Host` line is the only text of the trailer that is read from a block
  let host ← (if o.proxyhost = none ∧ http10 ≠ .v09 then terminated .host hp.1 else pure hp.1)
  let request ← (trailer o http10 host).foldlM strcat request
  pure { http10, request, host := hp.1, proxyport := hp.2 }

/-! ## The parts of a URL -/

/-- what stands between "://" and the next slash -/
def authority (rest : Bytes) : Bytes := rest.takeWhile (· ≠ slash)

def hostText (rest : Bytes) : Bytes := (authority rest).takeWhile (· ≠ colon)

/-- the text between the colon and the slash, if there is a colon -/
def portText (rest : Bytes) : Option Bytes :=
  (strchr (authority rest) colon).map fun c => (authority rest).drop (c + 1)

/-- the port that `hostPort` finds -/
def portOf (proxyport : ℤ) (rest : Bytes) : ℤ :=
  match portText rest with
  | some tmp => if int32 (strtol tmp) = 0 then 80 else int32 (strtol tmp)
  | none => proxyport

def pathText (rest : Bytes) : Bytes := rest.dropWhile (· ≠ slash)

/-- a URL that passes the checks: at most 1500 bytes, and a slash behind the host -/
theorem exists_slash {p : Option Bytes} {url : Bytes} {i : ℕ} (h : delimiter p url = .ok i) :
    url.length ≤ 1500 ∧ ∃ a t, url.drop i = a ++ slash :: t ∧ slash ∉ a := by
  unfold delimiter at h
  split at h
  · cases h
  split_ifs at h with h1 h2 h3
  cases h
  obtain ⟨s, hs⟩ := Option.ne_none_iff_exists'.1 h3
  obtain ⟨a, t, hat, -, ha⟩ := strchr_split hs
  exact ⟨Nat.not_lt.1 h1, a, t, hat, ha⟩

/-- the number fills `tmp`, so that nothing stops `atoi` inside the block -/
def FillsTmp (t : Bytes) : Prop := t.length = 10 ∧ behindNumber t = []

instance (t : Bytes) : Decidable (FillsTmp t) := inferInstanceAs (Decidable (_ ∧ _))

theorem atoi_eq {t : Bytes} (h : t.length ≤ 10) :
    atoi t = if FillsTmp t then .error (.unterminated .tmp) else .ok (int32 (strtol t)) := by
  have hsize : Block.tmp.size = 10 := rfl
  have hiff : (behindNumber t ≠ [] ∨ t.length < Block.tmp.size) ↔ ¬ FillsTmp t := by
    unfold FillsTmp
    rw [hsize, not_and_or, or_comm, Nat.lt_iff_le_and_ne]
    exact or_congr_left ⟨And.right, And.intro h⟩
  unfold atoi
  by_cases hf : FillsTmp t
  · rw [if_pos hf, if_neg (fun h => hiff.1 h hf)]
  · rw [if_neg hf, if_pos (hiff.2 hf)]

/-- what goes wrong with the text of the port -/
def portFault : Option Bytes → Option Stop
  | some t =>
    if 10 < t.length then some (.overrun .tmp) else if FillsTmp t then some (.unterminated .tmp) else none
  | none => none

/-- what goes wrong with the host and the port -/
def hostPortFault (rest : Bytes) : Option Stop :=
  if 64 < (hostText rest).length then some (.overrun .host) else portFault (portText rest)

theorem authority_eq {a t : Bytes} (ha : slash ∉ a) : authority (a ++ slash :: t) = a := takeWhile_ne ha

/-- no colon before the slash -/
theorem hostPort_plain {p : ℤ} {a t : Bytes} (ha : slash ∉ a) (hc : colon ∉ a) :
    hostPort p (a ++ slash :: t) = (strncpy .host a).map fun host => (host, p) := by
  have hfilter : (strchr (a ++ slash :: t) colon).filter (· < a.length) = none := by
    rw [strchr_skip hc]
    cases strchr (slash :: t) colon <;> simp
  unfold hostPort
  rw [strchr_append ha, Option.getD_some, strcspn_eq (strchr_append ha), List.take_left]
  dsimp only
  rw [hfilter]
  rfl

/-- a colon before the slash -/
theorem hostPort_port {p : ℤ} {h d t : Bytes} (ha : slash ∉ h ++ colon :: d) (hc : colon ∉ h) :
    hostPort p (h ++ colon :: d ++ slash :: t) = (strncpy .host h).bind fun host => (strncpy .tmp d).bind fun tmp =>
      (atoi tmp).map fun port => (host, if port = 0 then 80 else port) := by
  have hcolon : strchr (h ++ colon :: d ++ slash :: t) colon = some h.length := by
    rw [List.append_assoc, List.cons_append]
    exact strchr_append hc
  have hfilter : (some h.length).filter (· < (h ++ colon :: d).length) = some h.length := by
    simp
  have hdigits : ((h ++ colon :: d ++ slash :: t).drop (h.length + 1)).take
      ((h ++ colon :: d).length - h.length - 1) = d := by
    simp
  unfold hostPort
  rw [strchr_append ha, Option.getD_some, hcolon]
  dsimp only
  rw [hfilter]
  dsimp only
  rw [hdigits, List.append_assoc, List.take_left]
  rfl

theorem hostText_plain {a t : Bytes} (ha : slash ∉ a) (hc : colon ∉ a) : hostText (a ++ slash :: t) = a := by
  unfold hostText
  rw [authority_eq ha]
  exact List.takeWhile_eq_self_iff.2 (all_ne hc)

theorem portText_plain {a t : Bytes} (ha : slash ∉ a) (hc : colon ∉ a) : portText (a ++ slash :: t) = none := by
  unfold portText
  rw [authority_eq ha, strchr_eq_none hc]
  rfl

theorem hostText_port {h d t : Bytes} (ha : slash ∉ h ++ colon :: d) (hc : colon ∉ h) :
    hostText (h ++ colon :: d ++ slash :: t) = h := by
  unfold hostText
  rw [authority_eq ha]
  exact takeWhile_ne hc

theorem portText_port {h d t : Bytes} (ha : slash ∉ h ++ colon :: d) (hc : colon ∉ h) :
    portText (h ++ colon :: d ++ slash :: t) = some d := by
  unfold portText
  rw [authority_eq ha, strchr_append hc]
  simp

theorem strncpy_of_le {b : Block} {t : Bytes} (h : t.length ≤ b.size) : strncpy b t = .ok t := if_pos h

theorem strncpy_of_lt {b : Block} {t : Bytes} (h : b.size < t.length) : strncpy b t = .error (.overrun b) :=
  if_neg (Nat.not_le.2 h)

/-- **The host and the port.** `hostPort` is the host text and the port in front of the slash, unless one of them goes
past its block. -/
theorem hostPort_eq {p : ℤ} {a t : Bytes} (ha : slash ∉ a) :
    hostPort p (a ++ slash :: t) = match hostPortFault (a ++ slash :: t) with
      | some e => .error e
      | none => .ok (hostText (a ++ slash :: t), portOf p (a ++ slash :: t)) := by
  by_cases hc : colon ∈ a
  · obtain ⟨k, hk⟩ := strchr_of_mem hc
    obtain ⟨h, d, rfl, -, hh⟩ := strchr_split hk
    unfold hostPortFault portOf
    rw [hostPort_port ha hh, hostText_port ha hh, portText_port ha hh]
    dsimp only [portFault]
    by_cases h1 : 64 < h.length
    · rw [if_pos h1, strncpy_of_lt (b := .host) h1]
      rfl
    rw [if_neg h1, strncpy_of_le (b := .host) (Nat.not_lt.1 h1)]
    by_cases h2 : 10 < d.length
    · rw [if_pos h2, strncpy_of_lt (b := .tmp) h2]
      rfl
    rw [if_neg h2, strncpy_of_le (b := .tmp) (Nat.not_lt.1 h2)]
    simp only [Except.bind, atoi_eq (Nat.not_lt.1 h2)]
    by_cases h3 : FillsTmp d
    · rw [if_pos h3, if_pos h3]
      rfl
    · rw [if_neg h3, if_neg h3]
      rfl
  · unfold hostPortFault portOf
    rw [hostPort_plain ha hc, hostText_plain ha hc, portText_plain ha hc]
    split_ifs with h1
    · rw [strncpy_of_lt (b := .host) h1]
      rfl
    · rw [strncpy_of_le (b := .host) (Nat.not_lt.1 h1)]
      rfl

/-! ## The text of the request -/

/-- the target of the request line: the path, or the whole URL for a proxy -/
def target (o : Options) (url rest : Bytes) : Bytes := if o.proxyhost = none then pathText rest else url

def requestText (o : Options) (host target : Bytes) : Bytes :=
  o.method.text ++ ascii " " ++ target ++ (trailer o (protocolFor o) host).flatten

theorem foldlM_strcat {r : Bytes} {ts : List Bytes} (h : (r ++ ts.flatten).length < Block.request.size) :
    ts.foldlM strcat r = .ok (r ++ ts.flatten) := by
  induction ts generalizing r with
  | nil => rw [List.flatten_nil, List.append_nil]; rfl
  | cons t ts ih =>
    rw [List.flatten_cons, ← List.append_assoc] at h ⊢
    have ht : (r ++ t).length < Block.request.size := by
      rw [List.length_append] at h
      exact Nat.lt_of_le_of_lt (Nat.le_add_right _ _) h
    rw [List.foldlM_cons, show strcat r t = .ok (r ++ t) from if_pos ht]
    exact ih h

theorem length_method (m : Method) : m.text.length ≤ 7 := by
  cases m <;> decide

theorem length_trailer (o : Options) (v : Protocol) (host : Bytes) :
    (trailer o v host).flatten.length ≤ host.length + 76 := by
  obtain ⟨m, w, r, ph, pp⟩ := o
  have h1 : (ascii " HTTP/1.0").length = 9 := by decide
  have h2 : (ascii " HTTP/1.1").length = 9 := by decide
  have h3 : (ascii "\r\n").length = 2 := by decide
  have h4 : (ascii "User-Agent: WebBench 1.5\r\n").length = 26 := by decide
  have h5 : (ascii "Host: ").length = 6 := by decide
  have h6 : (ascii "Pragma: no-cache\r\n").length = 18 := by decide
  have h7 : (ascii "Connection: close\r\n").length = 19 := by decide
  cases v <;> cases ph <;> cases r <;> simp [trailer, h1, h2, h3, h4, h5, h6, h7] <;> omega

/-- `request` has room for every URL that passes the checks -/
theorem length_requestText {o : Options} {host t : Bytes} (h : t.length + host.length ≤ 1500) :
    (requestText o host t).length < Block.request.size := by
  have h1 := length_method o.method
  have h2 := length_trailer o (protocolFor o) host
  have h3 : (ascii " ").length = 1 := by decide
  unfold requestText
  simp only [List.length_append, h3]
  have : Block.request.size = 2048 := rfl
  omega

/-- the host in the globals: empty for a proxy -/
def hostOf (o : Options) (rest : Bytes) : Bytes := if o.proxyhost = none then hostText rest else []

def built (o : Options) (url rest : Bytes) : Built where
  http10 := protocolFor o
  request := requestText o (hostOf o rest) (target o url rest)
  host := hostOf o rest
  proxyport := if o.proxyhost = none then portOf o.proxyport rest else o.proxyport

/-- what goes wrong for a URL that passed the checks -/
def fault (o : Options) (rest : Bytes) : Option Stop :=
  if o.proxyhost = none then
    (hostPortFault rest).or
      (if protocolFor o ≠ .v09 ∧ 64 ≤ (hostText rest).length then some (.unterminated .host) else none)
  else none

theorem length_parts {a t : Bytes} (ha : slash ∉ a) :
    (pathText (a ++ slash :: t)).length + (hostText (a ++ slash :: t)).length ≤ (a ++ slash :: t).length := by
  unfold pathText hostText
  rw [dropWhile_ne ha, authority_eq ha, List.length_append]
  have := (List.takeWhile_sublist (· ≠ colon) : (a.takeWhile (· ≠ colon)).Sublist a).length_le
  omega

theorem drop_strcspn {a t : Bytes} (ha : slash ∉ a) :
    (a ++ slash :: t).drop (strcspn (a ++ slash :: t) [slash]) = pathText (a ++ slash :: t) := by
  rw [strcspn_eq (strchr_append ha), List.drop_left]
  exact (dropWhile_ne ha).symm

/-- **`request` has room for every URL that passes the checks.** -/
theorem length_built {o : Options} {url : Bytes} {i : ℕ} (hd : delimiter o.proxyhost url = .ok i) :
    (built o url (url.drop i)).request.length < Block.request.size := by
  obtain ⟨hlen, a, t, hrest, ha⟩ := exists_slash hd
  have hdrop : (url.drop i).length ≤ url.length := by rw [List.length_drop]; omega
  refine length_requestText ?_
  unfold target hostOf
  split_ifs with hp
  · rw [hrest] at hdrop ⊢
    exact (length_parts ha).trans (hdrop.trans hlen)
  · simpa using hlen

theorem strcat_target {o : Options} {host t : Bytes} (h : (requestText o host t).length < Block.request.size) :
    strcat (o.method.text ++ ascii " ") t = .ok (o.method.text ++ ascii " " ++ t) := by
  unfold requestText at h
  rw [List.length_append] at h
  exact if_pos (Nat.lt_of_le_of_lt (Nat.le_add_right _ _) h)

/-- the copies into `request`, once the host is known -/
theorem append_target {o : Options} {host t : Bytes} {hostLine : Except Stop Bytes} {b : Bytes → Built}
    (h : (requestText o host t).length < Block.request.size) (hline : hostLine = .ok host) :
    (strcat (o.method.text ++ ascii " ") t >>= fun r => hostLine >>= fun host =>
      (trailer o (protocolFor o) host).foldlM strcat r >>= fun r => pure (b r)) =
      (.ok (b (requestText o host t)) : Except Stop Built) := by
  rw [strcat_target h, hline]
  change ((trailer o (protocolFor o) host).foldlM strcat _ >>= _) = _
  rw [foldlM_strcat h]
  rfl

theorem strcat_method (m : Method) : strcat [] m.text = .ok m.text ∧
    strcat m.text (ascii " ") = .ok (m.text ++ ascii " ") := by
  cases m <;> exact ⟨rfl, rfl⟩

/-- **`build_request` in one expression.** -/
theorem buildRequest_eq (o : Options) (url : Bytes) : buildRequest o url =
    match delimiter o.proxyhost url with
    | .error e => .error e
    | .ok i => match fault o (url.drop i) with
      | some e => .error e
      | none => .ok (built o url (url.drop i)) := by
  unfold buildRequest
  rw [(strcat_method o.method).1]
  change (strcat o.method.text (ascii " ") >>= _) = _
  rw [(strcat_method o.method).2]
  change (delimiter o.proxyhost url >>= _) = _
  cases hd : delimiter o.proxyhost url with
  | error e => rfl
  | ok i =>
    obtain ⟨-, a, t, hrest, ha⟩ := exists_slash hd
    have hfits := length_built hd
    change ((if o.proxyhost = none then hostPort o.proxyport (url.drop i) else pure ([], o.proxyport)) >>= _) = _
    unfold fault
    unfold built target hostOf at *
    by_cases hp : o.proxyhost = none
    · simp only [if_pos hp] at hfits ⊢
      rw [hrest] at hfits ⊢
      rw [hostPort_eq ha, drop_strcspn ha]
      cases hostPortFault (a ++ slash :: t) with
      | some e => rfl
      | none =>
        rw [Option.none_or]
        by_cases hline : protocolFor o ≠ .v09 ∧ 64 ≤ (hostText (a ++ slash :: t)).length
        · rw [if_pos hline]
          change (strcat _ _ >>= fun r => _) = _
          rw [strcat_target hfits]
          change ((if _ ∧ _ then terminated _ _ else _) >>= _) = _
          have hfull : terminated .host (hostText (a ++ slash :: t)) = .error (.unterminated .host) :=
            if_neg (Nat.not_lt.2 hline.2)
          rw [if_pos ⟨hp, hline.1⟩, hfull]
          rfl
        · rw [if_neg hline]
          refine append_target hfits ?_
          dsimp only
          split_ifs with hread
          · exact if_pos (Nat.not_le.1 fun hle => hline ⟨hread.2, hle⟩)
          · rfl
    · simp only [if_neg hp] at hfits ⊢
      exact append_target hfits (if_neg fun h => hp h.1)

theorem buildRequest_ok {o : Options} {url : Bytes} {b : Built} (h : buildRequest o url = .ok b) :
    ∃ i, delimiter o.proxyhost url = .ok i ∧ b = built o url (url.drop i) := by
  rw [buildRequest_eq] at h
  cases hd : delimiter o.proxyhost url with
  | error e => rw [hd] at h; cases h
  | ok i =>
    rw [hd] at h
    dsimp only at h
    cases ho : fault o (url.drop i) with
    | some k => rw [ho] at h; cases h
    | none => rw [ho] at h; exact ⟨i, rfl, (Except.ok.inj h).symm⟩

/-- the checks end with a message, never by writing past a block -/
theorem delimiter_error {p : Option Bytes} {url : Bytes} {e : Stop} (h : delimiter p url = .error e) :
    ∃ msg, e = .exit msg 2 := by
  unfold delimiter at h
  split at h
  · cases h
    exact ⟨_, rfl⟩
  · split_ifs at h
    all_goals
      cases h
      exact ⟨_, rfl⟩

/-- the function goes past a block only after all checks of the URL have passed -/
theorem buildRequest_fault_iff (o : Options) (url : Bytes) {e : Stop} (he : ∀ msg st, e ≠ .exit msg st) :
    buildRequest o url = .error e ↔ ∃ i, delimiter o.proxyhost url = .ok i ∧ fault o (url.drop i) = some e := by
  rw [buildRequest_eq]
  cases hd : delimiter o.proxyhost url with
  | error e' =>
    obtain ⟨msg, rfl⟩ := delimiter_error hd
    constructor
    · intro h
      exact absurd (Except.error.inj h).symm (he _ _)
    · rintro ⟨i, h, -⟩
      cases h
  | ok i =>
    dsimp only
    cases hf : fault o (url.drop i) <;> simp [hf]

theorem portFault_overrun_iff (p : Option Bytes) (b : Block) :
    portFault p = some (.overrun b) ↔ b = .tmp ∧ ∃ t, p = some t ∧ 10 < t.length := by
  cases p with
  | none => simp [portFault]
  | some t =>
    dsimp only [portFault]
    split_ifs with h1 h2 <;> simp [h1, eq_comm]

theorem portFault_unterminated_iff (p : Option Bytes) (b : Block) :
    portFault p = some (.unterminated b) ↔ b = .tmp ∧ ∃ t, p = some t ∧ FillsTmp t := by
  cases p with
  | none => simp [portFault]
  | some t =>
    dsimp only [portFault]
    split_ifs with h1 h2
    · have hlong : ¬ FillsTmp t := fun h => by have := h.1; omega
      simp [hlong]
    · simp [h2, eq_comm]
    · simp [h2]

theorem portFault_none_iff (p : Option Bytes) :
    portFault p = none ↔ ∀ t, p = some t → t.length ≤ 10 ∧ ¬ FillsTmp t := by
  cases p with
  | none => simp [portFault]
  | some t =>
    dsimp only [portFault]
    split_ifs with h1 h2
    · simp [Nat.not_le.2 h1]
    · simp [h2]
    · simp [h2, Nat.not_lt.1 h1]

theorem fault_overrun_iff (o : Options) (rest : Bytes) (b : Block) : fault o rest = some (.overrun b) ↔
    o.proxyhost = none ∧ ((b = .host ∧ 64 < (hostText rest).length) ∨
      (b = .tmp ∧ (hostText rest).length ≤ 64 ∧ ∃ t, portText rest = some t ∧ 10 < t.length)) := by
  unfold fault hostPortFault
  by_cases hp : o.proxyhost = none
  · by_cases hlong : 64 < (hostText rest).length
    · simp [hp, hlong, Nat.not_le.2 hlong, eq_comm]
    · have hline : ¬ (if protocolFor o ≠ .v09 ∧ 64 ≤ (hostText rest).length then some (.unterminated .host) else none) =
          some (Stop.overrun b) := by
        split_ifs <;> nofun
      simp [hp, hlong, Nat.not_lt.1 hlong, Option.or_eq_some_iff, hline, portFault_overrun_iff]
  · simp [hp]

theorem fault_unterminated_iff (o : Options) (rest : Bytes) (b : Block) : fault o rest = some (.unterminated b) ↔
    o.proxyhost = none ∧ (hostText rest).length ≤ 64 ∧
      ((b = .tmp ∧ ∃ t, portText rest = some t ∧ FillsTmp t) ∨
        (b = .host ∧ protocolFor o ≠ .v09 ∧ (hostText rest).length = 64 ∧
          ∀ t, portText rest = some t → t.length ≤ 10 ∧ ¬ FillsTmp t)) := by
  unfold fault hostPortFault
  by_cases hp : o.proxyhost = none
  · by_cases hlong : 64 < (hostText rest).length
    · simp [hp, hlong, Nat.not_le.2 hlong]
    · have hline : (if protocolFor o ≠ .v09 ∧ 64 ≤ (hostText rest).length then some (.unterminated .host) else none) =
          some (Stop.unterminated b) ↔ b = .host ∧ protocolFor o ≠ .v09 ∧ (hostText rest).length = 64 := by
        have hfull : 64 ≤ (hostText rest).length ↔ (hostText rest).length = 64 := by omega
        simp only [hfull]
        split_ifs with h
        · simp [h, eq_comm]
        · exact iff_of_false nofun fun hb => h hb.2
      rw [if_pos hp, if_neg hlong, Option.or_eq_some_iff, hline, portFault_unterminated_iff, portFault_none_iff]
      simp only [hp, Nat.not_lt.1 hlong, true_and]
      rw [and_comm (a := ∀ t, _)]
      simp only [and_assoc]
  · simp [hp]

/-- **Which URLs go past a block.** Without a proxy, and after all checks of the URL have passed: a host of more than 64
bytes is written past `host`, and more than ten bytes between the colon and the slash past `tmp`; a number of exactly ten
bytes there is read past the end of `tmp`, and a host of exactly 64 bytes past the end of `host` if there is a `Host`
line. `request` is never left. -/
theorem buildRequest_overrun_iff (o : Options) (url : Bytes) (b : Block) :
    (buildRequest o url = .error (.overrun b) ↔
      ∃ i, delimiter o.proxyhost url = .ok i ∧ o.proxyhost = none ∧
        ((b = .host ∧ 64 < (hostText (url.drop i)).length) ∨
          (b = .tmp ∧ (hostText (url.drop i)).length ≤ 64 ∧
            ∃ t, portText (url.drop i) = some t ∧ 10 < t.length))) ∧
    (buildRequest o url = .error (.unterminated b) ↔
      ∃ i, delimiter o.proxyhost url = .ok i ∧ o.proxyhost = none ∧ (hostText (url.drop i)).length ≤ 64 ∧
        ((b = .tmp ∧ ∃ t, portText (url.drop i) = some t ∧ FillsTmp t) ∨
          (b = .host ∧ protocolFor o ≠ .v09 ∧ (hostText (url.drop i)).length = 64 ∧
            ∀ t, portText (url.drop i) = some t → t.length ≤ 10 ∧ ¬ FillsTmp t))) := by
  constructor
  · simp only [buildRequest_fault_iff o url (e := .overrun b) nofun, fault_overrun_iff]
  · simp only [buildRequest_fault_iff o url (e := .unterminated b) nofun, fault_unterminated_iff]

/-- ports of ten digits, and of ten bytes that are not all digits -/
example : buildRequest ⟨.get, .v10, false, none, 80⟩ (ascii "http://localhost:0000008080/") =
    .error (.unterminated .tmp) := by
  decide +kernel

example : ((buildRequest ⟨.get, .v10, false, none, 80⟩ (ascii "http://localhost:8080,,,,,,/")).toOption.map
    Built.proxyport) = some 8080 := by
  decide +kernel

/-! ## URLs made of a host, a port and a path -/

/-- a URL that begins with http:// has its first "://" there -/
theorem strstr_http {url : Bytes} (h : strncasecmp (ascii "http://") url 7 = true) :
    strstr url (ascii "://") = some 4 := by
  have h7 : (url.take 7).map lower = (ascii "http://").map lower := (of_decide_eq_true h).symm
  have h4 : (url.take 4).map lower = ascii "http" := by
    have := congrArg (List.take 4) h7
    rwa [← List.map_take, List.take_take] at this
  have h3 : (url.take 7).drop 4 = ascii "://" := by
    refine eq_of_map_lower ?_ (by decide +kernel)
    rw [List.map_drop, h7]
    decide
  have hcolon : colon ∉ url.take 4 := by
    intro hmem
    have := List.mem_map_of_mem (f := lower) hmem
    rw [h4] at this
    revert this
    decide
  have hlen : (url.take 4).length = 4 := by
    have := congrArg List.length h4
    rwa [List.length_map] at this
  have hurl : url = url.take 4 ++ (ascii "://" ++ url.drop 7) := by
    calc url = url.take 7 ++ url.drop 7 := (List.take_append_drop 7 url).symm
      _ = (url.take 7).take 4 ++ (url.take 7).drop 4 ++ url.drop 7 := by rw [List.take_append_drop 4 (url.take 7)]
      _ = _ := by rw [h3, List.take_take, List.append_assoc]; rfl
  rw [hurl, show ascii "://" = colon :: [slash, slash] by decide, strstr_append hcolon, hlen]

/-- **A URL is taken apart into the parts it was made of.** The host has neither a colon nor a slash and fits its block,
the port has at most nine digits, and the path begins with a slash. The port 0 is taken for 80. -/
theorem buildRequest_url {o : Options} {host digits path : Bytes} (hproxy : o.proxyhost = none)
    (hhost : slash ∉ host ∧ colon ∉ host) (hsize : host.length < 64) (hdigit : ∀ b ∈ digits, isDigit b = true)
    (hport : digits.length ≤ 9) (hpath : path.head? = some slash)
    (hlen : (ascii "http://" ++ (host ++ colon :: digits ++ path)).length ≤ 1500) :
    buildRequest o (ascii "http://" ++ (host ++ colon :: digits ++ path)) =
      .ok { http10 := protocolFor o, request := requestText o host path, host,
            proxyport := if digitsVal digits = 0 then 80 else digitsVal digits } := by
  obtain ⟨t, rfl⟩ : ∃ t, path = slash :: t := by
    cases path with
    | nil => cases hpath
    | cons b t => exact ⟨t, by rw [Option.some.inj hpath]⟩
  set rest := host ++ colon :: digits ++ slash :: t with hrest
  have hdrop : (ascii "http://" ++ rest).drop 7 = rest := rfl
  have ha : slash ∉ host ++ colon :: digits := by
    simp only [List.mem_append, List.mem_cons, not_or]
    exact ⟨hhost.1, by decide, fun h => absurd (hdigit slash h) (by decide)⟩
  have hdel : delimiter o.proxyhost (ascii "http://" ++ rest) = .ok 7 := by
    have hhttp : strncasecmp (ascii "http://") (ascii "http://" ++ rest) 7 = true := by
      unfold strncasecmp
      exact decide_eq_true rfl
    unfold delimiter
    rw [strstr_http hhttp]
    dsimp only
    rw [if_neg (Nat.not_lt.2 hlen), if_neg (by simp [hhttp]), if_neg]
    rw [hdrop, hrest, strchr_append ha]
    exact Option.some_ne_none _
  have hval : int32 (strtol digits) = digitsVal digits := (int32_strtol hport).1.trans (denoted_digits hdigit)
  have hfault : fault o rest = none := by
    unfold fault hostPortFault portFault
    rw [hrest, hostText_port ha hhost.2, portText_port ha hhost.2, if_pos hproxy, if_neg (by omega)]
    dsimp only
    rw [if_neg (by omega), if_neg fun h : FillsTmp digits => by have := h.1; omega, Option.none_or,
      if_neg fun h => by omega]
  have hportOf : portOf o.proxyport rest = if digitsVal digits = 0 then 80 else (digitsVal digits : ℤ) := by
    unfold portOf
    rw [hrest, portText_port ha hhost.2]
    dsimp only
    rw [hval]
    simp only [Nat.cast_eq_zero]
  rw [buildRequest_eq, hdel]
  dsimp only
  rw [hdrop, hfault]
  unfold built hostOf target
  simp only [if_pos hproxy, hportOf]
  rw [hrest, hostText_port ha hhost.2, show pathText _ = slash :: t from dropWhile_ne ha]

theorem buildRequest_url_local : buildRequest ⟨.get, .v11, false, none, 80⟩
    (ascii "http://" ++ (ascii "127.0.0.1" ++ colon :: ascii "10000" ++ ascii "/index.html")) =
      .ok { http10 := .v11, request := requestText ⟨.get, .v11, false, none, 80⟩ (ascii "127.0.0.1") (ascii "/index.html"),
            host := ascii "127.0.0.1", proxyport := (10000 : ℕ) } :=
  buildRequest_url rfl (by decide) (by decide) (by decide +kernel) (by decide) (by decide) (by decide +kernel)

end WebServer.Webbench
