/-
How a request arrives: cut into chunks, each taken by one `read()` and followed by one `process()` as long as
`processRead` answers NO_REQUEST.

`receive` runs the code on a list of chunks; `deliver` is what the caller can see of it: the last code, `url`, `host`,
`linger` and `contentLength` (`none` when the loop of `processRead` does not end). The code `undefined` means that the
parser has written over memory in use, and nothing is said about what follows.

- `receive_stream`: the code on chunks is the stream parser on chunks.
- `deliver_iff_cutSafe`: the places where a request may be cut without changing its meaning are exactly the safe ones.
- `deliver_cut_in_method`: the request line "GET / HTTP/1.1" cut after "GE" is rejected, although the whole request is
  accepted.
-/
import WebServer.HttpConn.Cuts
import WebServer.HttpConn.Effects

namespace WebServer.HttpConn

open WebServer

/-! ## Delivery -/

/-- the result of a request -/
structure Parsed where
  code : HttpCode
  url : Option Bytes
  host : Option Bytes
  linger : Bool
  contentLength : ℤ
deriving DecidableEq, Repr

def ReadSide.parsed (r : ReadSide) (code : HttpCode) : Parsed :=
  ⟨code, r.url.map r.readBuffer.cstr, r.host.map r.readBuffer.cstr, r.linger, r.contentLength⟩

/-- the chunks one by one; `none` when `read` fails or `process` does not return -/
def receive (fs : FileSystem) : List Bytes → Conn → Env → Option (HttpCode × Conn × Env)
  | [], c, e => some (.noRequest, c, e)
  | q :: qs, c, e =>
    match read [.data q, .eagain] c.toReadSide with
    | some (true, r) =>
      match process fs (c.setRead r) e with
      | some (code, c, e) => if code = .noRequest then receive fs qs c e else some (code, c, e)
      | none => none
    | _ => none

/-- what the caller sees in the end -/
def deliver (fs : FileSystem) (cs : List Bytes) (c : Conn) (e : Env) : Option Parsed :=
  (receive fs cs c e).map fun x => x.2.1.parsed x.1

/-! ## What one call of `process` gives -/

/-- the code of `doRequest` for a path -/
def resourceCode (fs : FileSystem) (path : Bytes) : HttpCode :=
  match fs.stat path with
  | none => .noResource
  | some st =>
    if st.stMode &&& sIroth = 0 then .forbiddenRequest else if sIsdir st.stMode then .badRequest else .fileRequest

theorem resourceCode_answered (fs : FileSystem) (path : Bytes) : (resourceCode fs path).answered = true := by
  unfold resourceCode
  split
  · rfl
  · split_ifs <;> rfl

theorem resourceCode_ne (fs : FileSystem) (path : Bytes) : resourceCode fs path ≠ .noRequest := by
  intro h
  have := resourceCode_answered fs path
  rw [h] at this
  cases this

theorem doRequest_code (fs : FileSystem) (c : Conn) (e : Env) :
    (doRequest fs c e).1 = resourceCode fs ((buildPath c).cstr 0) := by
  unfold doRequest resourceCode
  dsimp only
  cases fs.stat ((buildPath c).cstr 0) with
  | none => rfl
  | some st =>
    dsimp only
    split_ifs <;> rfl

theorem process_none {fs : FileSystem} {c : Conn} {e : Env}
    (h : processReadLoop loopRounds .lineOk c.toReadSide = none) : process fs c e = none := by
  unfold process processRead
  rw [h]

theorem process_noRequest {fs : FileSystem} {c : Conn} {e : Env} {r : ReadSide}
    (h : processReadLoop loopRounds .lineOk c.toReadSide = some (.noRequest, r)) :
    process fs c e = some (.noRequest, c.setRead r, modfd e c.sockfd .epollIn) := by
  unfold process processRead
  rw [h]
  rfl

theorem process_badRequest (fs : FileSystem) {c : Conn} (e : Env) {r : ReadSide}
    (h : processReadLoop loopRounds .lineOk c.toReadSide = some (.badRequest, r)) (hw : c.writeIndex = 0) :
    ∃ c', process fs c e = some (.badRequest, c', modfd e c'.sockfd .epollOut) ∧ c'.toReadSide = r := by
  obtain ⟨htrue, hprep⟩ := @processWrite_spec .badRequest (c.setRead r) rfl hw
  have hread : processRead fs c e = some (.badRequest, c.setRead r, e) := by
    unfold processRead
    rw [h]
  exact ⟨_, process_answer hread rfl htrue, hprep.kept.readSide⟩

theorem process_undefined {fs : FileSystem} {c : Conn} {e : Env} {r : ReadSide}
    (h : processReadLoop loopRounds .lineOk c.toReadSide = some (.undefined, r)) :
    process fs c e = some (.undefined, c.setRead r, e) := by
  unfold process processRead
  rw [h]
  rfl

/-- a complete request; the object keeps the request that the parser has left -/
theorem process_getRequest (fs : FileSystem) {c : Conn} (e : Env) {r : ReadSide}
    (h : processReadLoop loopRounds .lineOk c.toReadSide = some (.getRequest, r)) :
    ∃ c' e', process fs c e = some (resourceCode fs ((buildPath (c.setRead r)).cstr 0), c', e') ∧
      ∃ o, c'.toReadSide = { r with outside := o } := by
  obtain ⟨fd, o, hstore⟩ := (c.setRead r).storeOwn_eq
  have h1 := doRequest_code fs { c.setRead r with sockfd := fd, outside := o } e
  have h2 := doRequest_readSide fs { c.setRead r with sockfd := fd, outside := o } e
  have hpath : buildPath { c.setRead r with sockfd := fd, outside := o } = buildPath (c.setRead r) := rfl
  have hanswered := resourceCode_answered fs ((buildPath (c.setRead r)).cstr 0)
  rw [hpath] at h1
  rw [← h1] at hanswered ⊢
  unfold process processRead
  simp only [h, hstore, Option.map_some]
  rw [if_neg (by intro hc; rw [hc] at hanswered; cases hanswered),
    if_neg (by intro hc; rw [hc] at hanswered; cases hanswered)]
  refine ⟨_, _, rfl, o, ?_⟩
  split_ifs
  · exact (processWrite_kept _ _).readSide.trans h2
  · exact (closeConn_readSide _ _).trans ((processWrite_kept _ _).readSide.trans h2)

theorem read_chunk {r : ReadSide} {q : Bytes} (hq : q ≠ []) (hlen : r.readIndex + q.length ≤ readBufferSize) :
    read [.data q, .eagain] r = some (true, r.load q) := by
  have hpos := List.length_pos_iff.2 hq
  unfold read
  rw [if_neg (by omega)]
  simp only [readLoop]
  rw [List.take_of_length_le (by omega), if_neg hq]

/-! ## Delivery to the stream -/

/-- the chunks one by one, given to the stream parser -/
def Stream.deliver : List Bytes → Stream → Option (HttpCode × Stream)
  | [], a => some (.noRequest, a)
  | q :: qs, a =>
    match (a.load q).run .lineOk with
    | some (code, b) => if code = .noRequest then Stream.deliver qs b else some (code, b)
    | none => none

/-- the path of a url, built in `realFile` -/
def pathIn (realFile : Buf filenameSize) (url : Option Bytes) : Bytes :=
  ((realFile.write 0 (documentRoot ++ [0])).write documentRoot.length
    (strncpyBytes (url.getD []) (filenameSize - documentRoot.length - 1))).cstr 0

theorem cstr_buildPath (c : Conn) : (buildPath c).cstr 0 = pathIn c.realFile (c.url.map c.readBuffer.cstr) := by
  unfold buildPath pathIn ReadSide.string
  cases c.url <;> rfl

/-- what the caller sees of a result of the stream parser -/
def view (fs : FileSystem) (realFile : Buf filenameSize) (x : HttpCode × Stream) : Parsed where
  code := if x.1 = .getRequest then resourceCode fs (pathIn realFile (x.2.url.map Prod.snd)) else x.1
  url := x.2.url.map Prod.snd
  host := x.2.host.map Prod.snd
  linger := x.2.linger
  contentLength := x.2.contentLength

theorem span_map_snd (r : ReadSide) (p : Option ℕ) : (r.span p).map Prod.snd = p.map r.readBuffer.cstr := by
  cases p <;> rfl

theorem view_congr {fs : FileSystem} {rf : Buf filenameSize} {x y : HttpCode × Stream} (hc : x.1 = y.1)
    (h : SameRequest x.2 y.2) : view fs rf x = view fs rf y := by
  simp only [view, hc, h.url, h.host, h.linger, h.contentLength]

/-- the result of the code and the result of the stream parser: the same for the caller, and `doRequest` and the answer
only when the stream parser says so -/
structure Seen (fs : FileSystem) (c : Conn) (e : Env) (x : HttpCode × Conn × Env) (y : HttpCode × Stream) : Prop where
  parsed : x.2.1.parsed x.1 = view fs c.realFile y
  quiet : y.1 ≠ .getRequest → x.1 = y.1 ∧ x.2.2.calls = e.calls
  silent : y.1 = .noRequest → x.2.1.writeIndex = 0

theorem parsed_stream (fs : FileSystem) (rf : Buf filenameSize) {r : ReadSide} {code : HttpCode}
    (h : code ≠ .getRequest) : r.parsed code = view fs rf (code, r.stream) := by
  simp only [ReadSide.parsed, view, ReadSide.stream, span_map_snd, if_neg h]

theorem parsed_getRequest (fs : FileSystem) (c : Conn) (r : ReadSide) :
    r.parsed (resourceCode fs ((buildPath (c.setRead r)).cstr 0)) = view fs c.realFile (.getRequest, r.stream) := by
  have hpath : (buildPath (c.setRead r)).cstr 0 = pathIn c.realFile (r.url.map r.readBuffer.cstr) :=
    cstr_buildPath (c.setRead r)
  simp only [ReadSide.parsed, view, ReadSide.stream, span_map_snd, hpath, if_true]

/-- **The code on chunks is the stream parser on chunks.** -/
theorem receive_stream {fs : FileSystem} {cs : List Bytes} {c : Conn} {e : Env} (h : Inv c.toReadSide)
    (hw : c.writeIndex = 0) (hp : c.startLine < c.readIndex ∨ (c.url = none ∧ c.host = none)) (hne : ∀ q ∈ cs, q ≠ [])
    (hlen : c.readIndex + cs.flatten.length ≤ readBufferSize) :
    Option.Rel (Seen fs c e) (receive fs cs c e) (Stream.deliver cs c.toReadSide.stream) := by
  induction cs generalizing c e with
  | nil => exact .some ⟨parsed_stream fs c.realFile (by simp), fun _ => ⟨rfl, rfl⟩, fun _ => hw⟩
  | cons q qs ih =>
    simp only [List.flatten_cons, List.length_append] at hlen
    have hq := hne q List.mem_cons_self
    obtain ⟨hinv, hstream⟩ := load_stream h q (by omega) hp
    have hrun := processReadLoop_run le_rfl .lineOk hinv
    rw [hstream] at hrun
    unfold receive Stream.deliver
    rw [read_chunk hq (by omega)]
    dsimp only
    cases hl : processReadLoop loopRounds .lineOk (c.toReadSide.load q) with
    | none =>
      rw [hl] at hrun
      rw [process_none (c := c.setRead (c.toReadSide.load q)) hl]
      cases ha : (c.toReadSide.stream.load q).run .lineOk with
      | none => exact .none
      | some y => rw [ha] at hrun; cases hrun
    | some x =>
      rw [hl] at hrun
      cases ha : (c.toReadSide.stream.load q).run .lineOk with
      | none => rw [ha] at hrun; cases hrun
      | some y =>
        rw [ha] at hrun
        obtain ⟨hcode, hreq, -, hres⟩ : SameEnd x y := by cases hrun; assumption
        obtain ⟨code, r⟩ := x
        obtain ⟨code', a⟩ := y
        obtain rfl : code = code' := hcode
        rcases Stream.run_code ha with rfl | rfl | rfl | rfl
        · obtain ⟨hi, hra, hlt⟩ : Inv r ∧ r.stream = a ∧ r.checkIndex < r.readIndex := hres rfl
          have hidx : r.readIndex = c.readIndex + q.length := by
            have ht := Stream.run_total ha
            rw [← hra, stream_total hi, Stream.total_load, stream_total h] at ht
            exact ht
          rw [process_noRequest (c := c.setRead (c.toReadSide.load q)) hl]
          simp only [if_true]
          rw [← hra]
          have hrest := ih (c := c.setRead r) (e := modfd e c.sockfd .epollIn) hi hw
            (Or.inl (lt_of_le_of_lt hi.start_le hlt)) (fun q hq => hne q (List.mem_cons_of_mem _ hq))
            (by simp only [Conn.setRead]; omega)
          have hseen : Seen fs (c.setRead r) (modfd e c.sockfd .epollIn) = Seen fs c e := by
            funext x y
            refine propext ⟨fun hs => ⟨hs.parsed, fun hg => ?_, hs.silent⟩, fun hs => ⟨hs.parsed, fun hg => ?_, hs.silent⟩⟩
            · rw [← modfd_calls e c.sockfd .epollIn]
              exact hs.quiet hg
            · rw [modfd_calls]
              exact hs.quiet hg
          exact hseen ▸ hrest
        · obtain ⟨c', hproc, hread⟩ :=
            process_badRequest fs e (c := c.setRead (c.toReadSide.load q)) hl hw
          rw [hproc]
          simp only [reduceCtorEq, if_false]
          refine .some ⟨?_, fun _ => ⟨rfl, modfd_calls _ _ _⟩, fun hn => by cases hn⟩
          simp only [hread]
          exact (parsed_stream fs c.realFile (by decide)).trans (view_congr rfl hreq)
        · obtain ⟨c', e', hproc, o, hread⟩ :=
            process_getRequest fs e (c := c.setRead (c.toReadSide.load q)) hl
          rw [hproc]
          simp only [if_neg (resourceCode_ne _ _), reduceCtorEq, if_false]
          refine .some ⟨?_, fun hg => absurd rfl hg, fun hn => by cases hn⟩
          simp only [hread]
          exact (parsed_getRequest fs c r).trans (view_congr rfl hreq)
        · rw [process_undefined (c := c.setRead (c.toReadSide.load q)) hl]
          simp only [reduceCtorEq, if_false]
          refine .some ⟨?_, fun _ => ⟨rfl, rfl⟩, fun hn => by cases hn⟩
          exact (parsed_stream fs c.realFile (show HttpCode.undefined ≠ .getRequest by decide)).trans (view_congr rfl hreq)

/-- chunks given to a freshly initialised connection -/
theorem receive_fresh (fs : FileSystem) {cs : List Bytes} (c : Conn) (e : Env) (hne : ∀ q ∈ cs, q ≠ [])
    (hlen : cs.flatten.length ≤ readBufferSize) :
    Option.Rel (Seen fs c.init e) (receive fs cs c.init e) (Stream.deliver cs Stream.fresh) := by
  rw [← stream_fresh]
  refine receive_stream (c := c.init) inv_fresh rfl (Or.inr ⟨rfl, rfl⟩) hne ?_
  rw [show c.init.readIndex = 0 from rfl, Nat.zero_add]
  exact hlen

/-- the loop on the first bytes of a connection ends as the stream parser does -/
theorem loop_fresh {q : Bytes} (hlen : q.length ≤ readBufferSize) {code : HttpCode} {b : Stream}
    (h : (Stream.fresh.load q).run .lineOk = some (code, b)) :
    ∃ r, processReadLoop loopRounds .lineOk (ReadSide.fresh.load q) = some (code, r) ∧ SameRequest r.stream b ∧
      (code ≠ .getRequest ∨ 0 ≤ b.contentLength → r.outside = none) := by
  obtain ⟨hinv, hstream⟩ := load_stream inv_fresh q
    (by rwa [show ReadSide.fresh.readIndex = 0 from rfl, Nat.zero_add]) (Or.inr ⟨rfl, rfl⟩)
  obtain ⟨r, hloop, hend⟩ := loop_of_run hinv (by rw [hstream, stream_fresh]; exact h)
  refine ⟨r, hloop, hend.request, fun hin => hend.inside ?_⟩
  exact hin.imp_right fun hn => le_of_le_of_eq hn hend.request.contentLength.symm

theorem deliver_stream {fs : FileSystem} {cs : List Bytes} (c : Conn) (fd : ℤ) (e : Env) (hne : ∀ q ∈ cs, q ≠ [])
    (hlen : cs.flatten.length ≤ requestSize) :
    deliver fs cs (c.initConn fd e).1 (c.initConn fd e).2 =
      (Stream.deliver cs Stream.fresh).map (view fs Buf.zero) := by
  have h := receive_fresh fs { c with sockfd := fd } (c.initConn fd e).2 hne
    (hlen.trans (by decide : requestSize ≤ readBufferSize))
  rw [← show (c.initConn fd e).1 = Conn.init { c with sockfd := fd } from rfl] at h
  unfold deliver
  cases h1 : receive fs cs (c.initConn fd e).1 (c.initConn fd e).2 <;>
    cases h2 : Stream.deliver cs Stream.fresh <;> rw [h1, h2] at h
  · rfl
  · cases h
  · cases h
  · cases h with
    | some h => exact congrArg some h.parsed

/-! ## Where a request may be cut -/

/-- the bytes before each cut, when `qs` follow after `p` -/
def cutsFrom (p : Bytes) : List Bytes → List Bytes
  | [] => []
  | q :: qs => p :: cutsFrom (p ++ q) qs

/-- the bytes before each cut of a chunked request -/
def cuts : List Bytes → List Bytes
  | [] => []
  | q :: qs => cutsFrom q qs

theorem mem_cutsFrom {p : Bytes} {qs : List Bytes} {x : Bytes} (h : x ∈ cutsFrom p qs) (hne : ∀ q ∈ qs, q ≠ []) :
    p.length ≤ x.length ∧ x.length < (p ++ qs.flatten).length := by
  induction qs generalizing p with
  | nil => cases h
  | cons q qs ih =>
    have hq := List.length_pos_iff.2 (hne q List.mem_cons_self)
    rcases List.mem_cons.1 h with rfl | h
    · simp only [List.flatten_cons, List.length_append]; omega
    · have := ih h fun q hq => hne q (List.mem_cons_of_mem _ hq)
      simp only [List.flatten_cons, List.length_append] at this ⊢
      omega

namespace Stream

/-- the chunks `qs` after a call with the given result -/
def resume (qs : List Bytes) : Option (HttpCode × Stream) → Option (HttpCode × Stream)
  | some (code, b) => if code = .noRequest then deliver qs b else some (code, b)
  | none => none

theorem deliver_cons (q : Bytes) (qs : List Bytes) (a : Stream) :
    deliver (q :: qs) a = resume qs ((a.load q).run .lineOk) := by
  rw [deliver]
  cases (a.load q).run .lineOk <;> rfl

theorem deliver_code {cs : List Bytes} {a : Stream} {x : HttpCode × Stream} (h : deliver cs a = some x) :
    x.1 = .noRequest ∨ x.1 = .badRequest ∨ x.1 = .getRequest ∨ x.1 = .undefined := by
  induction cs generalizing a with
  | nil =>
    obtain rfl : (.noRequest, a) = x := Option.some.inj h
    exact Or.inl rfl
  | cons q qs ih =>
    rw [deliver_cons] at h
    cases hr : (a.load q).run .lineOk with
    | none => rw [hr] at h; cases h
    | some y =>
      rw [hr, resume] at h
      split_ifs at h with hc
      · exact ih h
      · cases h
        exact run_code hr

theorem resume_after (q : Bytes) (qs : List Bytes) (x : Option (HttpCode × Stream)) :
    resume (q :: qs) x = resume qs (after q x) := by
  rcases x with _ | ⟨code, b⟩
  · rfl
  · by_cases hc : code = .noRequest
    · subst hc
      exact deliver_cons q qs b
    · rw [after_end hc]
      simp only [resume, if_neg hc]

/-- results that agree stay alike for the caller, whatever chunks follow -/
theorem resume_congr (fs : FileSystem) (rf : Buf filenameSize) (qs : List Bytes) {x y : Option (HttpCode × Stream)}
    (h : Option.Rel Agree x y) : (resume qs x).map (view fs rf) = (resume qs y).map (view fs rf) := by
  induction qs generalizing x y with
  | nil =>
    cases h with
    | none => rfl
    | @some x y h =>
      simp only [resume, h.code, deliver]
      split_ifs with hc
      · exact congrArg some (view_congr rfl h.request)
      · exact congrArg some (view_congr rfl h.request)
  | cons q qs ih =>
    rw [resume_after, resume_after]
    apply ih
    cases h with
    | none => exact .none
    | @some x y h =>
      obtain ⟨c, a⟩ := x
      obtain ⟨d, b⟩ := y
      obtain rfl : c = d := h.code
      by_cases hc : c = .noRequest
      · subst hc
        exact (h.resume rfl).feed q
      · rw [after_end hc, after_end hc]
        exact .some h

/-- **Chunks cut at safe places only are as good as one chunk.** -/
theorem deliver_safe (fs : FileSystem) (rf : Buf filenameSize) {p : Bytes} {qs : List Bytes}
    (hlen : (p ++ qs.flatten).length ≤ requestSize) (hsafe : ∀ x ∈ cutsFrom p qs, cutSafe x = true) :
    (deliver (p :: qs) fresh).map (view fs rf) = (deliver [p ++ qs.flatten] fresh).map (view fs rf) := by
  induction qs generalizing p with
  | nil => rw [List.flatten_nil, List.append_nil]
  | cons q qs ih =>
    rw [List.flatten_cons, ← List.append_assoc] at hlen ⊢
    rw [← ih hlen fun x hx => hsafe x (List.mem_cons_of_mem _ hx), deliver_cons, deliver_cons, resume_after]
    refine resume_congr fs rf qs (run_cut ?_ (hsafe p List.mem_cons_self))
    rw [List.length_append] at hlen
    omega

theorem ending_view (fs : FileSystem) (rf : Buf filenameSize) (x : Option (HttpCode × Stream)) :
    ending ((x.map (view fs rf)).map Parsed.code) = endsAs x := by
  rcases x with _ | ⟨code, a⟩
  · rfl
  · by_cases hg : code = .getRequest
    · subst hg
      have hanswered := resourceCode_answered fs (pathIn rf (a.url.map Prod.snd))
      simp only [Option.map_some, view, if_true, endsAs]
      generalize resourceCode fs _ = d at hanswered ⊢
      cases d <;> first | rfl | cases hanswered
    · simp only [Option.map_some, view, if_neg hg, endsAs]

theorem resume_nil (x : Option (HttpCode × Stream)) : resume [] x = x := by
  rcases x with _ | ⟨code, b⟩
  · rfl
  · simp only [resume, deliver]
    split_ifs with hc
    · rw [hc]
    · rfl

end Stream

/-- **The safe cuts are exactly those that never change a request.** For every set of places: all requests of at most
`requestSize` bytes that are cut only there mean the same cut and uncut, if and only if all these places are safe. Left
out are the requests that, uncut, make the parser write over memory in use. -/
theorem deliver_iff_cutSafe (fs : FileSystem) (c : Conn) (fd : ℤ) (e : Env) (places : Set Bytes) :
    (∀ cs : List Bytes, cs ≠ [] → (∀ q ∈ cs, q ≠ []) → cs.flatten.length ≤ requestSize → (∀ p ∈ cuts cs, p ∈ places) →
      (deliver fs [cs.flatten] (c.initConn fd e).1 (c.initConn fd e).2).map Parsed.code ≠ some .undefined →
      deliver fs cs (c.initConn fd e).1 (c.initConn fd e).2 =
        deliver fs [cs.flatten] (c.initConn fd e).1 (c.initConn fd e).2) ↔
    ∀ p ∈ places, p ≠ [] → p.length < requestSize → cutSafe p = true := by
  constructor
  · intro h p hp hnil hlen
    by_contra hsafe
    obtain ⟨q, hq, hpq, hdiff⟩ := Stream.run_cut_differs hlen (Bool.eq_false_iff.2 hsafe)
    have hflat : [p, q].flatten = p ++ q := by simp
    have hne : ∀ x ∈ [p, q], x ≠ [] := by
      intro x hx
      rcases List.mem_cons.1 hx with rfl | hx
      · exact hnil
      · rwa [List.mem_singleton.1 hx]
    have hwhole : deliver fs [p ++ q] (c.initConn fd e).1 (c.initConn fd e).2 =
        ((Stream.fresh.load (p ++ q)).run .lineOk).map (view fs Buf.zero) := by
      rw [deliver_stream _ _ _ (by simp [hnil]) (by simpa using hpq), Stream.deliver_cons, Stream.resume_nil]
    have hdef : (deliver fs [p ++ q] (c.initConn fd e).1 (c.initConn fd e).2).map Parsed.code ≠ some .undefined := by
      intro hu
      apply hdiff.defined
      rw [← Stream.ending_view fs Buf.zero, ← hwhole, hu]
      rfl
    have heq := h [p, q] (by simp) hne (hflat ▸ hpq) (by intro x hx; rwa [List.mem_singleton.1 hx]) (hflat ▸ hdef)
    rw [hflat, hwhole, deliver_stream _ _ _ hne (hflat ▸ hpq), Stream.deliver_cons, Stream.resume_after,
      Stream.resume_nil] at heq
    have hend := congrArg (fun x => Stream.ending (x.map Parsed.code)) heq
    simp only [Stream.ending_view] at hend
    exact hdiff.ends hend
  · intro h cs hcs hne hlen hcuts _
    obtain ⟨p, qs, rfl⟩ := List.exists_cons_of_ne_nil hcs
    have hp := List.length_pos_iff.2 (hne p List.mem_cons_self)
    have hsafe : ∀ x ∈ cutsFrom p qs, cutSafe x = true := by
      intro x hx
      have hb := mem_cutsFrom hx fun q hq => hne q (List.mem_cons_of_mem _ hq)
      exact h x (hcuts x hx) (List.length_pos_iff.1 (by omega)) (lt_of_lt_of_le hb.2 hlen)
    have hflat : (p :: qs).flatten ≠ [] := List.length_pos_iff.1 (by
      rw [List.flatten_cons, List.length_append]; omega)
    rw [deliver_stream _ _ _ hne hlen, deliver_stream _ _ _ (by simpa using hflat) (by simpa using hlen)]
    exact Stream.deliver_safe fs Buf.zero hlen hsafe

/-- "GE" and "T / HTTP/1.1 CR LF CR LF" are answered with 400, the uncut request with the file -/
theorem deliver_cut_in_method :
    deliver (plainFiles 10) [ascii "GE", ascii "T / HTTP/1.1\r\n\r\n"] (Conn.blank.initConn 7 Env.blank).1
        (Conn.blank.initConn 7 Env.blank).2 ≠
      deliver (plainFiles 10) [[ascii "GE", ascii "T / HTTP/1.1\r\n\r\n"].flatten] (Conn.blank.initConn 7 Env.blank).1
        (Conn.blank.initConn 7 Env.blank).2 := by
  decide +kernel

end WebServer.HttpConn
