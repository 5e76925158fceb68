/-
From a request to its answer, through the whole server.

A client sends a request; the main thread reads it, a worker parses it and prepares the response, and the main thread
sends the response in as many pieces as the kernel takes. `transmitted` is what the client gets: the bytes that the
kernel took, from the object as it was at that time and from the mapped file.

- `transmitted_writes`: over any number of calls of `write`, the bytes come from the buffer and the mapping that `process`
  has left.
- `process_prepares`: after a well-formed request these hold the answer to that request.
- `request_answered`: so in every run of the server without negative lengths a well-formed request, whose lengths the
  parser reads as they are meant, is answered with the status line, the headers and the file or the error text, whatever
  the other connections do.
-/
import WebServer.HttpConn.Complete
import WebServer.HttpConn.Send
import WebServer.Server.Alone

namespace WebServer.Server

open WebServer.HttpConn WebServer.ThreadPool

/-! ## What the kernel takes -/

/-- the byte at a place: in the write buffer, or in the file that is mapped -/
def byteAt (c : Conn) (file : Bytes) : Ptr → Option UInt8
  | .writeBuffer off => if 0 ≤ off ∧ off < writeBufferSize then some (c.writeBuffer.get off.toNat) else none
  | .mem addr =>
    if c.fileAddress ≠ mapFailed ∧ c.fileAddress ≤ addr then file[(addr - c.fileAddress).toNat]? else none

def bytesAt (c : Conn) (file : Bytes) (places : List Ptr) : Bytes := places.filterMap (byteAt c file)

/-- the bytes that the kernel takes during some calls on an object -/
def transmitted (file : Bytes) : Conn × List Call → List Use → Bytes
  | _, [] => []
  | x, u :: us =>
    match useAlone x u with
    | some y => bytesAt x.1 file (sentBytes (y.2.drop x.2.length)) ++ transmitted file y us
    | none => []

theorem bytesAt_congr {c d : Conn} (file : Bytes) (h : c.writeBuffer = d.writeBuffer ∧ c.fileAddress = d.fileAddress) :
    bytesAt c file = bytesAt d file := by
  have hbyte : byteAt c file = byteAt d file := by
    funext p
    cases p with
    | writeBuffer off => simp only [byteAt, h.1]
    | mem addr => simp only [byteAt, h.2]
  unfold bytesAt
  rw [hbyte]

theorem filterMap_getElem (file : Bytes) : (List.range file.length).filterMap (file[·]?) = file := by
  have hmap : (List.range file.length).map (file[·]?) = file.map some := by
    refine List.ext_getElem (by simp) fun i h1 h2 => ?_
    simp only [List.length_map, List.length_range] at h1
    simp [List.getElem?_eq_getElem h1]
  calc (List.range file.length).filterMap (file[·]?)
      = ((List.range file.length).map (file[·]?)).filterMap id := by rw [List.filterMap_map]; rfl
    _ = file := by rw [hmap, List.filterMap_map]; simp

/-- the places of a response hold its text and the file -/
theorem bytesAt_response {code : HttpCode} {c : Conn} {file : Bytes} (hw : c.writeIndex ≤ writeBufferSize)
    (hfile : code = .fileRequest → file.length = c.fileStat.stSize ∧ c.fileAddress ≠ mapFailed) :
    bytesAt c file (responseBytes code c) = c.written ++ if code = .fileRequest then file else [] := by
  have hhead : bytesAt c file ((Ptr.writeBuffer 0).run c.writeIndex) = c.written := by
    have hbyte : ∀ k ∈ List.range c.writeIndex,
        (byteAt c file ∘ (Ptr.writeBuffer 0).plus) k = (some ∘ c.writeBuffer.get) k := by
      intro k hk
      have hlt := List.mem_range.1 hk
      have hplace : (0 : ℤ) ≤ k ∧ (k : ℤ) < writeBufferSize := by omega
      simp only [Function.comp_apply, Ptr.plus, byteAt, Int.zero_add, if_pos hplace, Int.toNat_natCast]
    rw [bytesAt, Ptr.run, List.filterMap_map, List.filterMap_congr hbyte, List.filterMap_eq_map, List.range_eq_range']
    rfl
  have hbody : code = .fileRequest → bytesAt c file ((Ptr.mem c.fileAddress).run c.fileStat.stSize) = file := by
    intro hcode
    obtain ⟨hlen, hmap⟩ := hfile hcode
    have hbyte : ∀ k ∈ List.range file.length, (byteAt c file ∘ (Ptr.mem c.fileAddress).plus) k = file[k]? := by
      intro k _
      have hplace : c.fileAddress ≠ mapFailed ∧ (c.fileAddress : ℤ) ≤ c.fileAddress + k := ⟨hmap, by omega⟩
      simp only [Function.comp_apply, Ptr.plus, byteAt, if_pos hplace, add_sub_cancel_left, Int.toNat_natCast]
    rw [bytesAt, Ptr.run, List.filterMap_map, ← hlen, List.filterMap_congr hbyte]
    exact filterMap_getElem file
  unfold responseBytes
  rw [bytesAt, List.filterMap_append]
  split_ifs with hcode
  · exact congrArg₂ (· ++ ·) hhead (hbody hcode)
  · exact congrArg₂ (· ++ ·) hhead rfl

/-! ## Sending -/

/-- the text and the file stay where they are until everything is sent -/
theorem writeLoop_keeps {rs : List Writev} {c c' : Conn} {e e' : Env} {b : Bool} (herr : .error ∉ rs)
    (h : writeLoop rs c e = some (b, c', e')) :
    c'.bytesToSend ≤ 0 ∨ (c'.writeBuffer = c.writeBuffer ∧ c'.fileAddress = c.fileAddress) := by
  induction rs generalizing c e with
  | nil => cases h
  | cons r rs ih =>
    cases r with
    | eagain =>
      cases h
      exact Or.inr ⟨rfl, rfl⟩
    | error => exact absurd List.mem_cons_self herr
    | sent n =>
      simp only [writeLoop, unmap_eq] at h
      split_ifs at h with hlast hlinger
      · cases h
        exact Or.inl le_rfl
      · cases h
        exact Or.inl hlast
      · have hadvance := (Sends.refl c).advance n
        have hbuffer := advance_writeBuffer c n
        exact (ih (fun hmem => herr (List.mem_cons_of_mem _ hmem)) h).imp_right fun hkept =>
          ⟨hkept.1.trans hbuffer, hkept.2.trans hadvance.fileAddress⟩

/-- a response on its way: what is left of it lies where `process` has put it, in `c₁` -/
structure OnItsWay (c₁ : Conn) (σ : Shape) (c : Conn) (log : List Call) : Prop where
  underway : Underway σ c log
  kept : 0 < c.bytesToSend → c.writeBuffer = c₁.writeBuffer ∧ c.fileAddress = c₁.fileAddress

theorem useAlone_write_inv {x y : Conn × List Call} {rs : List Writev} (h : useAlone x (.write rs) = some y) :
    ∃ b e', HttpConn.write rs x.1 { Env.blank with calls := x.2 } = some (b, y.1, e') ∧ e'.calls = y.2 := by
  simp only [useAlone, use] at h
  split at h
  · rename_i b c e' hw
    obtain rfl := Option.some.inj h
    exact ⟨b, e', hw, rfl⟩
  · cases h

variable {c₁ : Conn} {σ : Shape}

/-- one call of `write` -/
theorem OnItsWay.write {x y : Conn × List Call} {rs : List Writev} {log l : List Call} (ht : σ.total < 2 ^ 31)
    (h : OnItsWay c₁ σ x.1 log) (hrun : useAlone x (.write rs) = some y) (herr : .error ∉ rs) (hl : y.2 = x.2 ++ l)
    (hlegal : LegalLog l) (file : Bytes) :
    OnItsWay c₁ σ y.1 (log ++ l) ∧ bytesAt x.1 file (sentBytes l) = bytesAt c₁ file (sentBytes l) := by
  obtain ⟨b, e', hw, hcalls⟩ := useAlone_write_inv hrun
  have hunder := h.underway.write ht hw herr (hcalls.trans hl) hlegal
  have hnonneg : 0 ≤ x.1.bytesToSend := by
    rcases h.underway with ⟨s, j, hs, hsend⟩ | hsent
    · rw [hsend.progress.toSend]
      omega
    · exact hsent.toSend.ge
  by_cases h0 : x.1.bytesToSend = 0
  · unfold HttpConn.write at hw
    rw [if_pos h0] at hw
    obtain ⟨-, hpair⟩ := Prod.mk.inj (Option.some.inj hw)
    obtain ⟨hinit, rfl⟩ := Prod.mk.inj hpair
    have hnil : l = [] := by
      rw [modfd_calls] at hcalls
      exact List.self_eq_append_right.1 (hcalls.trans hl)
    subst hnil
    refine ⟨⟨hunder, fun hpos => ?_⟩, rfl⟩
    rw [← hinit] at hpos
    exact absurd hpos (lt_irrefl 0)
  · have hkept := h.kept (lt_of_le_of_ne hnonneg (Ne.symm h0))
    refine ⟨⟨hunder, fun hpos => ?_⟩, by rw [bytesAt_congr file hkept]⟩
    unfold HttpConn.write at hw
    rw [if_neg h0] at hw
    obtain ⟨hbuffer, haddr⟩ := (writeLoop_keeps herr hw).resolve_left (not_le.2 hpos)
    exact ⟨hbuffer.trans hkept.1, haddr.trans hkept.2⟩

theorem exec_writes_calls {ws : List (List Writev)} {x y : Conn × List Call}
    (hrun : Run.exec useAlone x (ws.map .write) = some y) : ∃ l, y.2 = x.2 ++ l := by
  induction ws generalizing x with
  | nil =>
    obtain rfl := Option.some.inj hrun
    exact ⟨[], (List.append_nil _).symm⟩
  | cons rs ws ih =>
    obtain ⟨z, hz, hrest⟩ := Run.exec_cons hrun
    obtain ⟨b, e', hw, hcalls⟩ := useAlone_write_inv hz
    obtain ⟨l, hl⟩ := write_calls hw
    obtain ⟨m, hm⟩ := ih hrest
    refine ⟨l ++ m, ?_⟩
    rw [hm, ← hcalls, hl, List.append_assoc]

/-- **Any number of calls of `write`.** -/
theorem transmitted_writes {ws : List (List Writev)} {x y : Conn × List Call} {log l : List Call} (ht : σ.total < 2 ^ 31)
    (h : OnItsWay c₁ σ x.1 log) (hrun : Run.exec useAlone x (ws.map .write) = some y) (herr : ∀ rs ∈ ws, .error ∉ rs)
    (hl : y.2 = x.2 ++ l) (hlegal : LegalLog l) (file : Bytes) :
    OnItsWay c₁ σ y.1 (log ++ l) ∧ transmitted file x (ws.map .write) = bytesAt c₁ file (sentBytes l) := by
  induction ws generalizing x log l with
  | nil =>
    obtain rfl := Option.some.inj hrun
    obtain rfl : l = [] := List.self_eq_append_right.1 hl
    refine ⟨?_, rfl⟩
    rwa [List.append_nil]
  | cons rs ws ih =>
    obtain ⟨z, hz, hrest⟩ := Run.exec_cons hrun
    obtain ⟨b, e', hw, hcalls⟩ := useAlone_write_inv hz
    obtain ⟨l₁, hl₁⟩ := write_calls hw
    have hz2 : z.2 = x.2 ++ l₁ := hcalls.symm.trans hl₁
    obtain ⟨l₂, hl₂⟩ := exec_writes_calls hrest
    obtain rfl : l = l₁ ++ l₂ := by
      rw [hl₂, hz2, List.append_assoc] at hl
      exact (List.append_cancel_left hl).symm
    have hlegal₁ : LegalLog l₁ := fun c hc => hlegal c (List.mem_append_left _ hc)
    have hlegal₂ : LegalLog l₂ := fun c hc => hlegal c (List.mem_append_right _ hc)
    obtain ⟨hway, hfirst⟩ := h.write ht hz (herr rs List.mem_cons_self) hz2 hlegal₁ file
    obtain ⟨hend, hothers⟩ := ih hway hrest (fun rs hrs => herr rs (List.mem_cons_of_mem _ hrs)) hl₂ hlegal₂
    refine ⟨by rwa [List.append_assoc] at hend, ?_⟩
    have hdrop : z.2.drop x.2.length = l₁ := by rw [hz2, List.drop_left]
    rw [List.map_cons, transmitted, hz]
    dsimp only
    rw [hdrop, hfirst, hothers, sentBytes_append]
    exact (List.filterMap_append ..).symm

/-! ## A connection that is kept -/

/-- the connection will be kept: its response is under way, or sent and the object initialised again -/
def Lingers (c : Conn) : Prop := (∃ d : Conn, c = d.init) ∨ (c.linger = true ∧ 0 < c.bytesToSend)

theorem writeLoop_lingers {rs : List Writev} {c c' : Conn} {e e' : Env} {b : Bool} (herr : .error ∉ rs)
    (hc : c.linger = true ∧ 0 < c.bytesToSend) (h : writeLoop rs c e = some (b, c', e')) : Lingers c' := by
  induction rs generalizing c e with
  | nil => cases h
  | cons r rs ih =>
    cases r with
    | eagain =>
      cases h
      exact Or.inr hc
    | error => exact absurd List.mem_cons_self herr
    | sent n =>
      have hlinger : (advance c n).linger = true :=
        (congrArg ReadSide.linger ((Sends.refl c).advance n).readSide).trans hc.1
      simp only [writeLoop, unmap_eq] at h
      split_ifs at h with hlast hkept
      · cases h
        exact Or.inl ⟨_, rfl⟩
      · exact absurd hlinger hkept
      · exact ih (fun hmem => herr (List.mem_cons_of_mem _ hmem)) ⟨hlinger, not_le.mp hlast⟩ h

theorem Lingers.write {x y : Conn × List Call} {rs : List Writev} (hx : Lingers x.1) (herr : .error ∉ rs)
    (h : useAlone x (.write rs) = some y) : Lingers y.1 := by
  obtain ⟨b, e', hw, -⟩ := useAlone_write_inv h
  unfold HttpConn.write at hw
  rcases hx with ⟨d, hd⟩ | hx
  · rw [if_pos (by rw [hd]; rfl)] at hw
    obtain ⟨-, hpair⟩ := Prod.mk.inj (Option.some.inj hw)
    obtain ⟨hinit, -⟩ := Prod.mk.inj hpair
    exact Or.inl ⟨_, hinit.symm⟩
  · rw [if_neg hx.2.ne'] at hw
    exact writeLoop_lingers herr hx hw

theorem Lingers.writes {ws : List (List Writev)} {x y : Conn × List Call} (hx : Lingers x.1)
    (herr : ∀ rs ∈ ws, .error ∉ rs) (hrun : Run.exec useAlone x (ws.map .write) = some y) : Lingers y.1 := by
  have hwrites : ∀ u ∈ ws.map Use.write, ∀ _ : Conn × List Call, ∃ rs, u = .write rs ∧ .error ∉ rs := by
    intro u hu _
    obtain ⟨rs, hrs, rfl⟩ := List.mem_map.mp hu
    exact ⟨rs, rfl, herr rs hrs⟩
  refine Run.exec_inv_along (I := fun x => Lingers x.1) ?_ hx (Run.along_of_forall hwrites x) hrun
  rintro s _ t hs ⟨rs, rfl, hrs⟩ hstep
  exact hs.write hrs hstep

/-! ## A request -/

/-- the path that `doRequest` looks at for a request on a fresh connection -/
def requestPath (q : Request) : Bytes := pathIn Buf.zero (some q.path)

/-- the text that goes before the content of the file -/
def answerHead (fs : FileSystem) (q : Request) (file : Bytes) : Bytes :=
  let code := resourceCode fs (requestPath q)
  let length := if code = .fileRequest then file.length else code.form.length
  responseHead code length q.keepAlive ++ code.form

/-- the answer to a request when the file holds these bytes -/
def answer (fs : FileSystem) (q : Request) (file : Bytes) : Bytes :=
  answerHead fs q file ++ if resourceCode fs (requestPath q) = .fileRequest then file else []

/-- the file at the path of the request holds these bytes, and it can be mapped -/
def Holds (fs : FileSystem) (q : Request) (file : Bytes) : Prop :=
  ∀ st, fs.stat (requestPath q) = some st →
    file.length = st.stSize ∧ fs.mapFile (requestPath q) st.stSize ≠ mapFailed

theorem doRequest_file {fs : FileSystem} {c : Conn} {e : Env} (h : (doRequest fs c e).1 = .fileRequest) :
    ∃ st, fs.stat ((buildPath c).cstr 0) = some st ∧ (doRequest fs c e).2.1.fileStat = st ∧
      (doRequest fs c e).2.1.fileAddress = fs.mapFile ((buildPath c).cstr 0) st.stSize := by
  unfold doRequest at h ⊢
  dsimp only at h ⊢
  cases hst : fs.stat ((buildPath c).cstr 0) with
  | none =>
    rw [hst] at h
    cases h
  | some st =>
    rw [hst] at h
    refine ⟨st, rfl, ?_⟩
    dsimp only at h ⊢
    split_ifs at h ⊢
    exact ⟨rfl, rfl⟩

/-- nothing is sent while a request is looked up -/
theorem requested_silent {c c' : Conn} {code : HttpCode} {l : List Call} (h : Requested c code c' l) :
    sentBytes l = [] ∧ counts l = [] := by
  rcases h.mapping with ⟨-, -, hl⟩ | ⟨-, -, p, rfl⟩
  · constructor
    · refine List.flatMap_eq_nil_iff.2 fun x hx => ?_
      obtain ⟨p, rfl⟩ := hl x hx
      rfl
    · refine List.filterMap_eq_nil_iff.2 fun x hx => ?_
      obtain ⟨p, rfl⟩ := hl x hx
      rfl
  · exact ⟨rfl, rfl⟩

/-- the object holds the answer to a request, and nothing of it is sent yet -/
structure Ready (fs : FileSystem) (q : Request) (file : Bytes) (c : Conn) (σ : Shape) : Prop where
  header : σ.header = (answerHead fs q file).length
  total : σ.total = (answer fs q file).length
  start : OnItsWay c σ c []
  content : bytesAt c file σ.whole = answer fs q file
  linger : c.linger = q.keepAlive
  unsent : 0 < c.bytesToSend

/-- what `processWrite` makes of a request for which `doRequest` has found `code` -/
theorem ready_processWrite {fs : FileSystem} {q : Request} {file : Bytes} {c : Conn}
    (hans : (resourceCode fs (requestPath q)).answered = true) (hindex : c.writeIndex = 0) (hhave : c.bytesHaveSend = 0)
    (hlinger : c.linger = q.keepAlive)
    (hfile : resourceCode fs (requestPath q) = .fileRequest →
      file.length = c.fileStat.stSize ∧ c.fileAddress ≠ mapFailed)
    (hfits : (answer fs q file).length < 2 ^ 31) :
    Ready fs q file (processWrite (resourceCode fs (requestPath q)) c).2
      (shape (resourceCode fs (requestPath q)) (processWrite (resourceCode fs (requestPath q)) c).2) := by
  have htext := processWrite_written hans hindex
  have hprep := (processWrite_spec hans hindex).2
  have hlength : (answer fs q file).length = (answerHead fs q file).length +
      if resourceCode fs (requestPath q) = .fileRequest then file.length else 0 := by
    unfold answer
    rw [List.length_append]
    split_ifs <;> rfl
  have hform : (resourceCode fs (requestPath q)).form.length ≤ (answerHead fs q file).length := by
    unfold answerHead
    rw [List.length_append]
    exact Nat.le_add_left _ _
  generalize hcode : resourceCode fs (requestPath q) = code at *
  have hbody : (bodyLength code c : ℤ) = (if code = .fileRequest then file.length else code.form.length : ℕ) := by
    unfold bodyLength
    split_ifs with hc
    · rw [(hfile hc).1]
    · rfl
  have hsmall : (if code = .fileRequest then file.length else code.form.length : ℕ) < 2 ^ 31 := by
    split_ifs at hlength ⊢ <;> omega
  have hwritten : (processWrite code c).2.written = answerHead fs q file := by
    rw [htext, hbody, int32_natCast hsmall, hlinger, answerHead, hcode]
  have hheader : (processWrite code c).2.writeIndex = (answerHead fs q file).length := by
    rw [← hwritten, length_written]
  have hsize : (shape code (processWrite code c).2).size = if code = .fileRequest then file.length else 0 := by
    unfold shape Shape.size
    split_ifs with hc
    · rw [(hfile hc).1, hprep.kept.fileStat]
      rfl
    · rfl
  have htotal : (shape code (processWrite code c).2).total = (answer fs q file).length := by
    rw [Shape.total, hsize, hlength]
    exact congrArg (· + _) hheader
  have hsending := prepared_sending hprep hhave (htotal ▸ hfits)
  have hpos : 0 < (shape code (processWrite code c).2).total := hprep.index_pos.trans_le (Nat.le_add_right _ _)
  refine ⟨hheader, htotal, ⟨Or.inl ⟨0, false, hpos, hsending⟩, fun _ => ⟨rfl, rfl⟩⟩, ?_,
    (congrArg ReadSide.linger hprep.kept.readSide).trans hlinger, ?_⟩
  swap
  · rw [hsending.progress.toSend]
    omega
  rw [whole_shape, bytesAt_response (hprep.index_lt.le.trans (by decide)), hwritten, answer, hcode]
  intro hc
  rw [hprep.kept.fileStat, hprep.kept.fileAddress]
  exact hfile hc

/-- **`read` and `process` on a well-formed request.** -/
theorem process_prepares {q : Request} (hq : q.WellFormed) (hmeant : q.Readable) (hlen : q.bytes.length ≤ requestSize)
    {fs : FileSystem} {file : Bytes} (hfile : Holds fs q file) (hfits : (answer fs q file).length < 2 ^ 31) (c : Conn)
    (calls : List Call) :
    ∃ c₀ c₁ σ l, useAlone (c.init, calls) (.read [.data q.bytes, .eagain]) = some (c₀, calls) ∧
      useAlone (c₀, calls) (.process fs) = some (c₁, calls ++ l) ∧ sentBytes l = [] ∧ counts l = [] ∧
      Ready fs q file c₁ σ := by
  have hsize : q.bytes.length ≤ readBufferSize := hlen.trans (by decide : requestSize ≤ readBufferSize)
  have hread : read [.data q.bytes, .eagain] (c.init, calls).1.toReadSide = some (true, ReadSide.fresh.load q.bytes) :=
    read_chunk q.bytes_ne_nil (by rwa [show c.init.toReadSide.readIndex = 0 from rfl, Nat.zero_add])
  obtain ⟨b, hb, hurl, hkeep, -, hnumber⟩ := hq.run hmeant hlen
  obtain ⟨r, hloop, hsame, hinside⟩ := loop_fresh hsize hb
  -- `doRequest` on the object with the parsed request
  generalize he : ({ Env.blank with calls := calls } : Env) = e
  have hcalls : e.calls = calls := by rw [← he]
  have hproc : processRead fs (c.init.setRead (ReadSide.fresh.load q.bytes)) e =
      some (doRequest fs (c.init.setRead r) e) := by
    unfold processRead
    rw [show (c.init.setRead (ReadSide.fresh.load q.bytes)).toReadSide = ReadSide.fresh.load q.bytes from rfl, hloop]
    dsimp only
    rw [Conn.storeOwn_none (c := (c.init.setRead (ReadSide.fresh.load q.bytes)).setRead r)
      (hinside (Or.inr (hnumber ▸ Int.natCast_nonneg _)))]
    rfl
  have hpath : (buildPath (c.init.setRead r)).cstr 0 = requestPath q := by
    have hname : r.url.map r.readBuffer.cstr = some q.path := by
      rw [← span_map_snd, ← hurl]
      exact congrArg (Option.map Prod.snd) hsame.url
    rw [cstr_buildPath]
    exact congrArg (pathIn Buf.zero) hname
  obtain ⟨l, hreq, henv⟩ := doRequest_requested fs (c.init.setRead r) e
  have hcode := doRequest_code fs (c.init.setRead r) e
  have hside := doRequest_readSide fs (c.init.setRead r) e
  have hstored := @doRequest_file fs (c.init.setRead r) e
  rw [hpath] at hcode hstored
  generalize doRequest fs (c.init.setRead r) e = y at hproc hreq henv hcode hside hstored
  obtain ⟨code, c', e'⟩ := y
  obtain rfl : code = resourceCode fs (requestPath q) := hcode
  have hindex : c'.writeIndex = 0 := hreq.writeIndex
  have hlinger : c'.linger = q.keepAlive := (congrArg ReadSide.linger hside).trans (hsame.linger.trans hkeep)
  have hmapped : resourceCode fs (requestPath q) = .fileRequest →
      file.length = c'.fileStat.stSize ∧ c'.fileAddress ≠ mapFailed := by
    intro hc
    obtain ⟨st, hst, rfl, haddr⟩ := hstored hc
    obtain ⟨hlength, hmap⟩ := hfile _ hst
    exact ⟨hlength, fun hfailed => hmap (haddr.symm.trans hfailed)⟩
  have hready := ready_processWrite hreq.answered hindex hreq.bytesHaveSend hlinger hmapped hfits
  have hdef : resourceCode fs (requestPath q) ≠ .undefined := fun hc => by
    have hanswered := hreq.answered
    rw [hc] at hanswered
    cases hanswered
  have hprocess := useAlone_process
    (process_answer hproc hreq.answered (processWrite_spec hreq.answered hindex).1) hdef
  have hlog : e'.calls = calls ++ l := by
    rw [show e' = e.append l from henv, Env.append, hcalls]
  rw [modfd_calls, hlog, hcalls] at hprocess
  obtain ⟨hsent, hcounts⟩ := requested_silent hreq
  exact ⟨_, _, _, l, useAlone_read hread, hprocess, hsent, hcounts, hready⟩

/-- the calls of an object before its first `write` take nothing -/
theorem transmitted_cons {file : Bytes} {x y : Conn × List Call} {u : Use} {l : List Call} (h : useAlone x u = some y)
    (hl : y.2 = x.2 ++ l) (hsent : sentBytes l = []) (us : List Use) :
    transmitted file x (u :: us) = transmitted file y us := by
  have hdrop : y.2.drop x.2.length = l := by rw [hl, List.drop_left]
  rw [transmitted, h]
  dsimp only
  rw [hdrop, hsent]
  rfl

/-! ## One exchange -/

/-- a request, the file system when it is looked up, the bytes of the file, and what the calls of `write` meet -/
structure Exchange where
  request : Request
  fs : FileSystem
  file : Bytes
  writes : List (List Writev)

namespace Exchange

/-- the calls on the object: the request is read in one piece, processed, and the response is sent -/
def uses (x : Exchange) : List Use :=
  .read [.data x.request.bytes, .eagain] :: .process x.fs :: x.writes.map .write

def answer (x : Exchange) : Bytes := Server.answer x.fs x.request x.file

/-- a well-formed request that fits the buffer, and an answer that can be sent -/
structure Fits (x : Exchange) : Prop where
  wellFormed : x.request.WellFormed
  readable : x.request.Readable
  length : x.request.bytes.length ≤ requestSize
  holds : Holds x.fs x.request x.file
  small : x.answer.length < 2 ^ 31
  noError : ∀ rs ∈ x.writes, .error ∉ rs

/-- the response is sent to its end, without the jump in the header that short sends can cause -/
structure Smooth (x : Exchange) (log : List Call) : Prop where
  legal : LegalLog log
  all : (counts log).sum = x.answer.length
  noJump : noJump (answerHead x.fs x.request x.file).length 0 (counts log) = true

end Exchange

theorem exchange_calls {x : Exchange} (hx : x.Fits) {c : Conn} {calls : List Call} {y : Conn × List Call}
    (hrun : Run.exec useAlone (c.init, calls) x.uses = some y) : ∃ log, y.2 = calls ++ log := by
  obtain ⟨c₀, c₁, σ, l, hread, hprocess, -⟩ :=
    process_prepares hx.wellFormed hx.readable hx.length hx.holds hx.small c calls
  have hwrites : Run.exec useAlone (c₁, calls ++ l) (x.writes.map .write) = some y := by
    simpa only [Exchange.uses, Run.exec, hread, hprocess] using hrun
  obtain ⟨m, hm⟩ := exec_writes_calls hwrites
  exact ⟨l ++ m, hm.trans (List.append_assoc ..)⟩

/-- **One exchange on the object alone.** From an initialised object the client gets the answer, and if the connection is
to be kept the object is initialised again. -/
theorem exchange_alone {x : Exchange} (hx : x.Fits) {c : Conn} {calls log : List Call} {y : Conn × List Call}
    (hrun : Run.exec useAlone (c.init, calls) x.uses = some y) (hlog : y.2 = calls ++ log) (hs : x.Smooth log) :
    transmitted x.file (c.init, calls) x.uses = x.answer ∧
      (x.request.keepAlive = true → ∃ d : Conn, y.1 = d.init) := by
  obtain ⟨c₀, c₁, σ, l, hread, hprocess, hsent, hcounts, hready⟩ :=
    process_prepares hx.wellFormed hx.readable hx.length hx.holds hx.small c calls
  have hwrites : Run.exec useAlone (c₁, calls ++ l) (x.writes.map .write) = some y := by
    simpa only [Exchange.uses, Run.exec, hread, hprocess] using hrun
  obtain ⟨m, hm⟩ := exec_writes_calls hwrites
  obtain rfl : log = l ++ m := List.append_cancel_left (hlog.symm.trans (hm.trans (List.append_assoc ..)))
  have hsame : counts (l ++ m) = counts m := by rw [counts_append, hcounts, List.nil_append]
  have hlegal : LegalLog m := fun call hcall => hs.legal call (List.mem_append_right _ hcall)
  obtain ⟨hway, hbytes⟩ := transmitted_writes (hready.total ▸ hx.small) hready.start hwrites hx.noError hm hlegal x.file
  have hdone : Sent σ y.1 m := by
    rcases hway.underway with ⟨k, j, hk, hsending⟩ | hdone
    · have hsum := hsending.sum
      rw [List.nil_append, ← hsame, hs.all] at hsum
      exact absurd (hsum.symm.trans hready.total.symm) hk.ne
    · rwa [List.nil_append] at hdone
  have hwhole : sentBytes m = σ.whole := by
    refine hdone.exact_.2 ?_
    rw [hready.header, ← hsame]
    exact hs.noJump
  refine ⟨?_, fun hkeep => ?_⟩
  · calc transmitted x.file (c.init, calls) x.uses
        = transmitted x.file (c₀, calls) (.process x.fs :: x.writes.map .write) :=
          transmitted_cons hread (List.append_nil _).symm rfl _
      _ = transmitted x.file (c₁, calls ++ l) (x.writes.map .write) := transmitted_cons hprocess rfl hsent _
      _ = bytesAt c₁ x.file (sentBytes m) := hbytes
      _ = x.answer := by rw [hwhole, hready.content]; rfl
  · have hstart : Lingers c₁ := Or.inr ⟨hready.linger.trans hkeep, hready.unsent⟩
    rcases hstart.writes hx.noError hwrites with hinit | ⟨-, hpos⟩
    · exact hinit
    · exact absurd hdone.toSend hpos.ne'

/-! ## The server -/

section Runs

variable {κ : Type*} [DecidableEq κ] [Fintype κ] {maxRequests : ℕ} {users : ℤ → Conn} {s s' : State κ} {fd : ℤ}

/-- **A request is answered.** In every run of the server without negative lengths: let a connection be at its beginning,
or at the end of a response after which it is kept. If a well-formed request of at most 2047 bytes, whose lengths the
parser reads as they are meant, arrives in one piece, is taken by a worker, and the response is sent, in any number of
calls and pieces, without an error and without the jump in the header that short sends can cause, then the client has got
exactly the status line, the headers and the text or the file that belong to the request, whatever happens on the other
connections meanwhile. -/
theorem request_answered {ops₀ ops : List (Op κ)} {q : Request} {fs : FileSystem} {file : Bytes}
    {ws : List (List Writev)} {c : Conn} {log : List Call}
    (hin₀ : Run.Along (Server.step maxRequests) (fun s op => lengthsInside s op = true) (State.start users) ops₀)
    (h₀ : Run.exec (Server.step maxRequests) (State.start users) ops₀ = some s) (hopen : fd ∈ s.opened)
    (hinit : s.users fd = c.init)
    (hin : Run.Along (Server.step maxRequests) (fun s op => lengthsInside s op = true) s ops)
    (h : Run.exec (Server.step maxRequests) s ops = some s') (hops : ∀ op ∈ ops, Spares fd op)
    (huses : Run.project (Server.step maxRequests) (State.uses fd) s ops =
      .read [.data q.bytes, .eagain] :: .process fs :: ws.map .write)
    (hq : q.WellFormed) (hmeant : q.Readable) (hlen : q.bytes.length ≤ requestSize) (hfile : Holds fs q file)
    (hfits : (answer fs q file).length < 2 ^ 31) (herr : ∀ rs ∈ ws, .error ∉ rs)
    (hlog : s'.logs fd = s.logs fd ++ log) (hlegal : LegalLog log) (hall : (counts log).sum = (answer fs q file).length)
    (hjump : noJump (answerHead fs q file).length 0 (counts log) = true) :
    transmitted file (s.users fd, s.logs fd) (Run.project (Server.step maxRequests) (State.uses fd) s ops) =
      answer fs q file := by
  obtain ⟨⟨c', log'⟩, hexec, hend⟩ := tracks_run (run_serving hin₀ h₀) hopen h hin hops
  rw [huses, hinit] at hexec ⊢
  have hexchange : Exchange.Fits ⟨q, fs, file, ws⟩ := ⟨hq, hmeant, hlen, hfile, hfits, herr⟩
  obtain ⟨calls, hcalls⟩ := exchange_calls hexchange hexec
  -- the log of the run is that of the calls on the object, and possibly `close`
  obtain ⟨tail, htail, hsilent⟩ : ∃ tail, log = calls ++ tail ∧ counts tail = [] := by
    rcases hend with ⟨-, -, hend⟩ | ⟨-, hend⟩
    · refine ⟨[], List.append_cancel_left (hlog.symm.trans (hend.trans ?_)), rfl⟩
      rw [List.append_nil]
      exact hcalls
    · refine ⟨[.close fd], List.append_cancel_left (hlog.symm.trans (hend.trans ?_)), rfl⟩
      rw [show log' = s.logs fd ++ calls from hcalls, List.append_assoc]
  have hsame : counts log = counts calls := by rw [htail, counts_append, hsilent, List.append_nil]
  have hsmooth : Exchange.Smooth ⟨q, fs, file, ws⟩ calls :=
    ⟨fun call hcall => hlegal call (htail ▸ List.mem_append_left _ hcall), hsame ▸ hall, hsame ▸ hjump⟩
  exact (exchange_alone hexchange hexec hcalls hsmooth).1

end Runs

/-- the first client sends a request and gets its response in two pieces; the second one sends nonsense and leaves -/
def answerOps : List (Op Unit) := [.epollWait [.client 6 readable, .client 5 readable],
  .handle ⟨none, [.data (ascii "hello"), .eagain], []⟩, .post, .handle ⟨none, [.data sampleRequest.bytes, .eagain], []⟩,
  .wait (), .post, .run (), .process () (plainFiles 3), .wait (), .run (), .process () (plainFiles 10),
  .epollWait [.client 5 writable, .client 6 ⟨true, false, false⟩], .handle ⟨none, [], [.sent 90, .eagain]⟩,
  .handle ⟨none, [], []⟩, .epollWait [.client 5 writable], .handle ⟨none, [], [.sent 7]⟩]

def answeredState : Option (State Unit) := Run.exec (Server.step 1) (twoClients.get twoClients_isSome) answerOps

theorem answeredState_isSome : answeredState.isSome = true := by decide +kernel

/-- the calls for the first client -/
def answerLog : List Call :=
  let path := ascii "/workspaces/Web/webServer/resources/index.html"
  [.stat path, .openFile path, .mmap 10 4096, .writev [⟨.writeBuffer 0, 87⟩, ⟨.mem 4096, 10⟩] 90,
    .writev [⟨.writeBuffer 0, 0⟩, ⟨.mem 4099, 7⟩] 7, .munmap 4096 10]

theorem answeredState_log : (answeredState.get answeredState_isSome).logs 5 = answerLog := by decide +kernel

set_option maxRecDepth 20000 in
theorem request_answered_sample :
    transmitted (ascii "0123456789")
        ((twoClients.get twoClients_isSome).users 5, (twoClients.get twoClients_isSome).logs 5)
        (Run.project (Server.step 1) (State.uses 5) (twoClients.get twoClients_isSome) answerOps) =
      answer (plainFiles 10) sampleRequest (ascii "0123456789") := by
  have hinit : (twoClients.get twoClients_isSome).users 5 = Conn.init { Conn.blank with sockfd := 5 } := rfl
  have hspares : ∀ op ∈ answerOps, Spares 5 op := by simp [answerOps, Spares]
  have huses : Run.project (Server.step 1) (State.uses 5) (twoClients.get twoClients_isSome) answerOps =
      .read [.data sampleRequest.bytes, .eagain] :: .process (plainFiles 10) ::
        [[.sent 90, .eagain], [.sent 7]].map .write := rfl
  have hholds : Holds (plainFiles 10) sampleRequest (ascii "0123456789") := by
    intro st hst
    obtain rfl := Option.some.inj hst
    decide +kernel
  have hlog : (answeredState.get answeredState_isSome).logs 5 =
      (twoClients.get twoClients_isSome).logs 5 ++ answerLog := by
    have hempty : (twoClients.get twoClients_isSome).logs 5 = [] := by decide +kernel
    rw [hempty, List.nil_append, answeredState_log]
  exact request_answered (by decide +kernel) (Option.some_get twoClients_isSome).symm (by decide +kernel) hinit
    (by decide +kernel) (Option.some_get answeredState_isSome).symm hspares huses sampleRequest_wellFormed
    sampleRequest_readable (by decide +kernel) hholds
    (by decide +kernel) (by decide) hlog (by decide +kernel) (by decide +kernel) (by decide +kernel)

end WebServer.Server
