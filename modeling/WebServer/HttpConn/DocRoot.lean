/-
Which files a url can reach.

`doRequest` appends the url to `documentRoot`, cut to the bytes that fit into `realFile`, and hands the result to `stat`
and `open`. `Inside path` says that the path, with all its dot names resolved, is below `documentRoot`.

- `cstr_buildPath_init`: the path is `documentRoot` and the first `urlSize` bytes of the string at `url`.
- `Valid.seen_url`: that string is the url which `parseRequestLine` accepted, cut where `parseContext` stores the zero
  behind the body. A negative Content-Length puts the zero into the url.
- `doRequest_inside_iff`: the path is inside exactly when this string, followed from `documentRoot`, does not climb out of
  it or descends again through the very names it climbed out of (`staysInside`).
- `doRequest_escapes`: "/../../../../etc/passwd" is accepted and names a file outside.
- `doRequest_path_iff`: the path is all of `documentRoot` and the accepted url, and different for different urls, exactly
  when the url fits and the zero misses it. `doRequest_path_cut`: two requests that name the same file.
-/
import WebServer.Core.Path
import WebServer.HttpConn.Conn
import WebServer.HttpConn.Session

namespace WebServer.HttpConn

open WebServer

/-! ## Paths -/

/-- bytes of the url that fit behind `documentRoot` and before the last byte of `realFile` -/
def urlSize : ℕ := filenameSize - documentRoot.length - 1

/-- the name of the parent directory -/
def parent : Bytes := [dot, dot]

def pathNames (path : Bytes) : List Bytes := Path.names slash dot path

/-- after resolving "." and "..", `documentRoot` is a prefix of the path -/
def Inside (path : Bytes) : Prop :=
  Path.resolve parent [] (pathNames documentRoot) <+: Path.resolve parent [] (pathNames path)

/-- the url by itself: how often it climbs above its start, and the names it descends through from there -/
def urlWalk (url : Bytes) : ℕ × List Bytes := Path.reduce parent (pathNames (url.take urlSize))

/-- the names that the url climbs out of are the first names that it descends through -/
def staysInside (url : Bytes) : Bool :=
  (pathNames documentRoot).drop ((pathNames documentRoot).length - (urlWalk url).1) <+: (urlWalk url).2

/-- the path that a call hands to the file system -/
def Call.path : Call → Option Bytes
  | .stat p => some p
  | .openFile p => some p
  | _ => none

theorem pathNames_documentRoot :
    pathNames documentRoot = [ascii "workspaces", ascii "Web", ascii "webServer", ascii "resources"] ∧
      Path.resolve parent [] (pathNames documentRoot) = pathNames documentRoot := by
  decide +kernel

theorem inside_iff {url : Bytes} (h : url = [] ∨ url.head? = some slash) :
    Inside (documentRoot ++ url.take urlSize) ↔ staysInside url = true := by
  rcases h with rfl | h
  · rw [List.take_nil, List.append_nil]
    exact iff_of_true (List.prefix_refl _) (by decide +kernel)
  have hroot := pathNames_documentRoot.2
  have hhead : (url.take urlSize).head? = some slash := by
    rw [List.head?_take, if_neg (by decide), h]
  unfold Inside staysInside urlWalk
  rw [show pathNames (documentRoot ++ url.take urlSize) = _ from Path.names_append slash dot documentRoot hhead,
    Path.resolve_append, show Path.names slash dot documentRoot = pathNames documentRoot from rfl, hroot,
    Path.resolve_eq, Path.prefix_place_iff, decide_eq_true_iff]
  rfl

/-! ## The path in `realFile` -/

theorem slice_strncpy {b : Buf filenameSize} {i n : ℕ} {s : Bytes} (h : i + n ≤ filenameSize) :
    (b.write i (strncpyBytes s n)).slice i (i + (s.take n).length) = s.take n ∧
      ((s.take n).length < n → (b.write i (strncpyBytes s n)).get (i + (s.take n).length) = 0) := by
  have hlen : (strncpyBytes s n).length = n := by
    simp only [strncpyBytes, List.length_append, List.length_take, List.length_replicate]
    omega
  have hw := Buf.slice_write b i (strncpyBytes s n) (by omega)
  have hsplit := Buf.slice_eq_append (l := s.take n) (t := List.replicate (n - s.length) 0) hw
  refine ⟨hsplit.1, fun hlt => ?_⟩
  have hpos := hsplit.2
  rw [Buf.slice_cons _ (by omega)] at hpos
  exact List.eq_of_mem_replicate (hpos ▸ List.mem_cons_self)

theorem cstr_buildPath_init (c : Conn) (r : ReadSide) :
    (buildPath (c.init.setRead r)).cstr 0 = documentRoot ++ (r.string r.url).take urlSize := by
  have hroot : documentRoot.length = 35 := by decide
  have hsize : urlSize = 164 := by decide
  have hfile : filenameSize = 200 := rfl
  have h0 : (0 : UInt8) ∉ r.string r.url := by
    unfold ReadSide.string
    cases r.url with
    | none => exact List.not_mem_nil
    | some p => exact Buf.zero_notMem_cstr _ _
  have hpath : buildPath (c.init.setRead r) = ((Buf.zero : Buf filenameSize).write 0 (documentRoot ++ [0])).write
      documentRoot.length (strncpyBytes (r.string r.url) urlSize) := rfl
  rw [hpath]
  generalize r.string r.url = s at h0
  obtain ⟨hcopy, hend⟩ := slice_strncpy (b := (Buf.zero : Buf filenameSize).write 0 (documentRoot ++ [0]))
    (i := documentRoot.length) (n := urlSize) (s := s) (by omega)
  have hbase : ((Buf.zero : Buf filenameSize).write 0 (documentRoot ++ [0])).slice 0 documentRoot.length =
      documentRoot := by decide +kernel
  have hkeep : (((Buf.zero : Buf filenameSize).write 0 (documentRoot ++ [0])).write documentRoot.length
      (strncpyBytes s urlSize)).slice 0 documentRoot.length = documentRoot :=
    (Buf.slice_congr fun _ _ hk => Buf.get_write_lt _ _ hk).trans hbase
  have hle : (s.take urlSize).length ≤ urlSize := List.length_take_le _ _
  have hlen : (strncpyBytes s urlSize).length = urlSize := by
    simp only [strncpyBytes, List.length_append, List.length_take, List.length_replicate]
    omega
  apply Buf.cstr_eq
  · rw [List.length_append]
    omega
  · rw [List.length_append, Nat.zero_add, ← Buf.slice_append _ (Nat.zero_le _) (Nat.le_add_right _ _), hcopy, hkeep]
  · intro hm
    rcases List.mem_append.1 hm with hm | hm
    · revert hm; decide
    · exact h0 (List.mem_of_mem_take hm)
  · rw [List.length_append, Nat.zero_add]
    by_cases hlt : (s.take urlSize).length < urlSize
    · exact hend hlt
    · -- the url fills the place up to the last byte, which `init` has cleared
      rw [Buf.get_write_ge _ _ (by omega),
        Buf.get_write_ge _ _ (by simp only [List.length_append, List.length_singleton]; omega), Buf.get_zero]

/-! ## The files of a request -/

/-- the calls of `doRequest`: all paths are the one in `realFile`, and there is one -/
theorem doRequest_paths (fs : FileSystem) (c : Conn) (e : Env) {log : List Call}
    (h : (doRequest fs c e).2.2.calls = e.calls ++ log) :
    (buildPath c).cstr 0 ∈ log.filterMap Call.path ∧ ∀ p ∈ log.filterMap Call.path, p = (buildPath c).cstr 0 := by
  have hone : ∀ l : List Call, e.calls ++ [.stat ((buildPath c).cstr 0)] ++ l = e.calls ++ log →
      log = .stat ((buildPath c).cstr 0) :: l := by
    intro l hl
    rw [List.append_assoc] at hl
    exact (List.append_cancel_left hl).symm
  unfold doRequest at h
  dsimp only at h
  cases hs : fs.stat ((buildPath c).cstr 0) with
  | none =>
    rw [hs] at h
    rw [hone [] (by rw [List.append_nil]; exact h)]
    simp [Call.path]
  | some st =>
    rw [hs] at h
    dsimp only at h
    split_ifs at h
    · rw [hone [] (by rw [List.append_nil]; exact h)]
      simp [Call.path]
    · rw [hone [] (by rw [List.append_nil]; exact h)]
      simp [Call.path]
    · rw [hone [.openFile ((buildPath c).cstr 0), .mmap st.stSize (fs.mapFile ((buildPath c).cstr 0) st.stSize)]
        (by rw [← h]; simp [Env.record])]
      simp [Call.path]

/-! ## Whole requests -/

namespace Session

/-- the object on which the next round's `processRead` calls `doRequest`, if it does -/
def requested (s : Session) (c : Conn) : Option Conn :=
  match s.handling with
  | none => none
  | some r =>
    match loopBody r with
    | (.getRequest, r') => (c.init.setRead r').storeOwn
    | _ => none

/-- where `parseContext` stores the zero behind the body when it is called next -/
def zeroAt (s : Session) : Option ℤ :=
  s.handling.bind fun r => if r.checkState = .content then some (r.startLine + r.contentLength) else none

/-- the accepted url `u` with that zero in the buffer -/
def seen (s : Session) (u : ℕ × Bytes) : ℕ × Bytes := s.zeroAt.elim u (cutString · u)

/-- the zero does not fall into the accepted url `u` -/
def zeroMisses (s : Session) (u : ℕ × Bytes) : Bool :=
  s.zeroAt.all fun k : ℤ => decide (k < u.1 ∨ (u.1 + u.2.length : ℕ) ≤ k)

variable {s : Session}

theorem requested_some {c c' : Conn} (h : s.requested c = some c') : ∃ r fd o, s.handling = some r ∧
    (loopBody r).1 = .getRequest ∧ c' = { c.init.setRead (loopBody r).2 with sockfd := fd, outside := o } := by
  unfold requested at h
  split at h
  · cases h
  · rename_i r hr
    split at h
    · rename_i r' hbody
      obtain ⟨fd, o, hstore⟩ := (c.init.setRead r').storeOwn_eq
      rw [hstore] at h
      exact ⟨r, fd, o, hr, by rw [hbody], by rw [hbody]; exact (Option.some.inj h).symm⟩
    · cases h

/-- the url that `doRequest` finds is the accepted one, cut at the zero behind the body -/
theorem Valid.seen_url (h : Valid s) {r : ReadSide} (hr : s.handling = some r) (hget : (loopBody r).1 = .getRequest) :
    ∃ u, s.accepted = some u ∧ u.2.head? = some slash ∧
      (loopBody r).2.span (loopBody r).2.url = some (s.seen u) := by
  obtain ⟨ls, -, ht⟩ := handling_some hr
  have hscanned := h.tested ht
  obtain ⟨hcode, hsame, -, -⟩ := loopBody_stream hscanned.inv (h.ended ht)
  rw [hget] at hcode
  have hurl : (loopBody r).2.span (loopBody r).2.url = r.stream.body.2.url := hsame.url
  have hzero : s.zeroAt = if r.checkState = .content then some (r.startLine + r.contentLength) else none := by
    rw [zeroAt, hr]
    rfl
  have hold : ∀ u, s.request.span s.request.url = some u → r.stream.url = some u := fun u hu => hscanned.url.trans hu
  cases hs : r.checkState with
  | requestLine =>
    rw [Stream.body_requestLine hs] at hcode
    rcases requestTarget_code (cText r.stream.scanned) with hc | hc <;> cases hcode.trans hc
  | header =>
    obtain ⟨u, hu, hspan, hslash⟩ := h.accepted (by rw [← hscanned.checkState, hs]; decide)
    refine ⟨u, hu, hslash, ?_⟩
    rw [Stream.body_header hs] at hcode hurl
    split_ifs at hcode hurl
    rw [hurl, seen, hzero, hs]
    exact hold u hspan
  | content =>
    obtain ⟨u, hu, hspan, hslash⟩ := h.accepted (by rw [← hscanned.checkState, hs]; decide)
    refine ⟨u, hu, hslash, ?_⟩
    rw [Stream.body_content hs] at hcode hurl
    split_ifs at hcode hurl
    rw [hurl, seen, hzero, hs]
    exact (congrArg (Option.map _) (hold u hspan)).trans rfl

theorem seen_eq_iff {u : ℕ × Bytes} : (s.seen u).2 = u.2 ↔ s.zeroMisses u = true := by
  unfold seen zeroMisses
  cases s.zeroAt with
  | none => simp
  | some k =>
    simp only [Option.elim_some, Option.all_some, decide_eq_true_eq, cutString]
    split_ifs with hk
    · rw [List.take_eq_self_iff]
      omega
    · exact iff_of_true rfl (by omega)

theorem seen_part (s : Session) (u : ℕ × Bytes) : (s.seen u).2 <+: u.2 := by
  unfold seen
  cases s.zeroAt with
  | none => exact List.prefix_refl _
  | some k =>
    simp only [Option.elim_some, cutString]
    split_ifs
    · exact List.take_prefix _ _
    · exact List.prefix_refl _

/-- the path in `realFile` when `doRequest` is called -/
theorem requested_path {ms : List Move} (h : Run.exec step start ms = some s) {c c' : Conn}
    (hc : s.requested c = some c') :
    ∃ u, s.accepted = some u ∧ u.2.head? = some slash ∧
      (buildPath c').cstr 0 = documentRoot ++ (s.seen u).2.take urlSize := by
  obtain ⟨r, fd, o, hr, hget, rfl⟩ := requested_some hc
  obtain ⟨u, hu, hslash, hseen⟩ := (run_valid h).seen_url hr hget
  refine ⟨u, hu, hslash, ?_⟩
  have hstring : (loopBody r).2.string (loopBody r).2.url = (s.seen u).2 := by
    obtain ⟨p, hp, hspan⟩ := Option.map_eq_some_iff.1 hseen
    rw [hp, ← hspan]
    rfl
  rw [← hstring]
  exact cstr_buildPath_init c (loopBody r).2

/-- the bytes `p` arrive at once, and `processRead` has made `k` rounds -/
def after (p : Bytes) (k : ℕ) : Option Session := Run.exec step start (arrival p ++ List.replicate k .round)

/-- **What a request can reach.** Whenever `processRead` calls `doRequest`: the paths handed to `stat` and `open` are
inside `documentRoot` if and only if the url that `parseRequestLine` accepted, cut where the zero behind the body falls
into it, descends through the names it climbs out of. -/
theorem doRequest_inside_iff {ms : List Move} (h : Run.exec step start ms = some s) {c c' : Conn}
    (hc : s.requested c = some c') :
    ∃ u, s.accepted = some u ∧ ∀ (fs : FileSystem) (e : Env) (log : List Call),
      (doRequest fs c' e).2.2.calls = e.calls ++ log →
        ((∀ p ∈ log.filterMap Call.path, Inside p) ↔ staysInside (s.seen u).2 = true) := by
  obtain ⟨u, hu, hslash, hpath⟩ := requested_path h hc
  refine ⟨u, hu, fun fs e log hlog => ?_⟩
  obtain ⟨hmem, hall⟩ := doRequest_paths fs c' e hlog
  have hhead : (s.seen u).2 = [] ∨ (s.seen u).2.head? = some slash := by
    obtain ⟨cut, hcut⟩ := seen_part s u
    cases hseen : (s.seen u).2 with
    | nil => exact Or.inl rfl
    | cons b url =>
      rw [hseen] at hcut
      rw [← hcut] at hslash
      exact Or.inr hslash
  rw [← inside_iff hhead, ← hpath]
  exact ⟨fun hin => hin _ hmem, fun hin p hp => hall p hp ▸ hin⟩

def dotsRun : Option Session := after (ascii "GET /a/../b.html HTTP/1.1\r\n\r\n") 1

theorem dotsRun_isSome : dotsRun.isSome = true := by decide +kernel

theorem dotsRun_requested : ((dotsRun.get dotsRun_isSome).requested Conn.blank).isSome = true := by decide +kernel

/-- "/a/../b.html" stays inside -/
theorem doRequest_inside_dots : (dotsRun.get dotsRun_isSome).accepted = some (4, ascii "/a/../b.html") ∧
    ∀ p ∈ (doRequest (plainFiles 10) (((dotsRun.get dotsRun_isSome).requested Conn.blank).get dotsRun_requested)
        Env.blank).2.2.calls.filterMap Call.path, Inside p := by
  obtain ⟨u, hu, hiff⟩ := doRequest_inside_iff (Option.some_get dotsRun_isSome).symm
    (Option.some_get dotsRun_requested).symm
  have haccepted : (dotsRun.get dotsRun_isSome).accepted = some (4, ascii "/a/../b.html") := by decide +kernel
  obtain rfl : u = (4, ascii "/a/../b.html") := Option.some.inj (hu.symm.trans haccepted)
  exact ⟨haccepted, (hiff (plainFiles 10) Env.blank _ rfl).2 (by decide +kernel)⟩

/-- the paths that a request, received at once and decided in round `k + 1`, makes the server look up -/
def lookups (p : Bytes) (k : ℕ) : Option (List Bytes) :=
  ((after p k).bind fun s => s.requested Conn.blank).map fun c =>
    (doRequest (plainFiles 10) c Env.blank).2.2.calls.filterMap Call.path

/-- **A url that climbs out.** The request for "/../../../../etc/passwd" leads to the file /etc/passwd. -/
theorem doRequest_escapes : ∃ p,
    lookups (ascii "GET /../../../../etc/passwd HTTP/1.1\r\n\r\n") 1 = some [p, p] ∧
      Path.resolve parent [] (pathNames p) = [ascii "etc", ascii "passwd"] ∧ ¬ Inside p := by
  refine ⟨documentRoot ++ ascii "/../../../../etc/passwd", ?_⟩
  unfold Inside
  decide +kernel

/-! ## The path of a url -/

theorem doRequest_realFile (fs : FileSystem) (c : Conn) (e : Env) : (doRequest fs c e).2.1.realFile = buildPath c := by
  unfold doRequest
  dsimp only
  cases fs.stat ((buildPath c).cstr 0) with
  | none => rfl
  | some st =>
    dsimp only
    split_ifs <;> rfl

/-- the path is the whole of `documentRoot` and the url exactly when the url fits and the zero is not in it -/
theorem seen_fits_iff {u : ℕ × Bytes} :
    (s.seen u).2.take urlSize = u.2 ↔ u.2.length ≤ urlSize ∧ s.zeroMisses u = true := by
  have hle := (seen_part s u).length_le
  constructor
  · intro h
    have hlen := congrArg List.length h
    rw [List.length_take] at hlen
    exact ⟨by omega, seen_eq_iff.1 ((seen_part s u).eq_of_length (by omega))⟩
  · rintro ⟨hfit, hmiss⟩
    rw [seen_eq_iff.2 hmiss, List.take_of_length_le hfit]

/-- **The path of a request.** Whenever `processRead` calls `doRequest`: `stat` and `open` get exactly `documentRoot` and
the url that `parseRequestLine` accepted, or the request is answered with an error and without a file, if and only if the
url fits into `realFile` and the zero behind the body does not fall into it. Two requests for which that holds have the
same `realFile` only if their urls are the same. -/
theorem doRequest_path_iff {ms : List Move} (h : Run.exec step start ms = some s) {c c' : Conn}
    (hc : s.requested c = some c') :
    ∃ u, s.accepted = some u ∧
      (∀ (fs : FileSystem) (e : Env) (log : List Call), (doRequest fs c' e).2.2.calls = e.calls ++ log →
        (((∀ p ∈ log.filterMap Call.path, p = documentRoot ++ u.2) ∨
            (log.filterMap Call.path = [] ∧ (doRequest fs c' e).1 ≠ .fileRequest)) ↔
          u.2.length ≤ urlSize ∧ s.zeroMisses u = true)) ∧
      ∀ (ns : List Move) (t : Session) (d d' : Conn) (v : ℕ × Bytes), Run.exec step start ns = some t →
        t.requested d = some d' → t.accepted = some v →
        u.2.length ≤ urlSize ∧ s.zeroMisses u = true → v.2.length ≤ urlSize ∧ t.zeroMisses v = true →
        ∀ (fs fs' : FileSystem) (e e' : Env),
          (doRequest fs c' e).2.1.realFile.cstr 0 = (doRequest fs' d' e').2.1.realFile.cstr 0 → u.2 = v.2 := by
  obtain ⟨u, hu, -, hpath⟩ := requested_path h hc
  refine ⟨u, hu, fun fs e log hlog => ?_, ?_⟩
  · obtain ⟨hmem, hall⟩ := doRequest_paths fs c' e hlog
    rw [hpath] at hmem hall
    rw [← seen_fits_iff]
    refine ⟨?_, fun hfit => Or.inl fun p hp => (hall p hp).trans (by rw [hfit])⟩
    rintro (hsame | ⟨hnone, -⟩)
    · exact List.append_cancel_left (hsame _ hmem)
    · rw [hnone] at hmem
      cases hmem
  · intro ns t d d' v ht hd hv hfit hfit' fs fs' e e' heq
    obtain ⟨v', hv', -, hpath'⟩ := requested_path ht hd
    obtain rfl : v = v' := Option.some.inj (hv.symm.trans hv')
    rw [doRequest_realFile, doRequest_realFile, hpath, hpath', seen_fits_iff.2 hfit, seen_fits_iff.2 hfit'] at heq
    exact List.append_cancel_left heq

def indexRun : Option Session := after (ascii "GET /index.html HTTP/1.1\r\n\r\n") 1

theorem indexRun_isSome : indexRun.isSome = true := by decide +kernel

theorem indexRun_requested : ((indexRun.get indexRun_isSome).requested Conn.blank).isSome = true := by decide +kernel

theorem doRequest_path_short : (indexRun.get indexRun_isSome).accepted = some (4, ascii "/index.html") ∧
    ∀ p ∈ (doRequest (plainFiles 10) (((indexRun.get indexRun_isSome).requested Conn.blank).get indexRun_requested)
        Env.blank).2.2.calls.filterMap Call.path, p = documentRoot ++ ascii "/index.html" := by
  obtain ⟨u, hu, hiff, -⟩ := doRequest_path_iff (Option.some_get indexRun_isSome).symm
    (Option.some_get indexRun_requested).symm
  have haccepted : (indexRun.get indexRun_isSome).accepted = some (4, ascii "/index.html") := by decide +kernel
  obtain rfl : u = (4, ascii "/index.html") := Option.some.inj (hu.symm.trans haccepted)
  rcases (hiff (plainFiles 10) Env.blank _ rfl).2 (by decide +kernel) with h | h
  · exact ⟨haccepted, h⟩
  · exact absurd h.1 (by decide +kernel)

/-- a request for a url of 165 bytes that ends in `b` -/
def longRequest (b : UInt8) : Bytes :=
  ascii "GET /" ++ List.replicate 163 97 ++ [b] ++ ascii " HTTP/1.1\r\n\r\n"

/-- **Two urls, one file.** The requests differ in the last byte of the url, and `stat` and `open` get the same path, which
is not the one of either url. The same happens to the short urls "/index.html" and "/inferno.js" with a negative length
that puts the zero behind their third byte. -/
theorem doRequest_path_cut :
    ((after (longRequest 98) 1).bind Session.accepted).map Prod.snd ≠
      ((after (longRequest 99) 1).bind Session.accepted).map Prod.snd ∧
    lookups (longRequest 98) 1 = lookups (longRequest 99) 1 ∧
    lookups (longRequest 98) 1 = some (List.replicate 2 (documentRoot ++ slash :: List.replicate 163 97)) ∧
    lookups (ascii "GET /index.html HTTP/1.1\r\nContent-Length: -42\r\n\r\n") 3 =
      some (List.replicate 2 (documentRoot ++ ascii "/in")) ∧
    lookups (ascii "GET /inferno.js HTTP/1.1\r\nContent-Length: -42\r\n\r\n") 3 =
      some (List.replicate 2 (documentRoot ++ ascii "/in")) := by
  decide +kernel

end Session

end WebServer.HttpConn
