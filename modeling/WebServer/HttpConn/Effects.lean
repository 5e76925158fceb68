/-
What the member functions of `http_conn` do to their object and to the kernel's side, one description for each function:
- `WriteEnd`: the ways in which `write` returns, after any number of `writev` calls (`Sends`);
- `Requested`: what `processRead` leaves when it asks for an answer;
- `ProcessEnd`: the ways in which `process` returns.

`write_end`, `processRead_requested` and `process_end` prove that these are all, unless the code is `undefined`.
Everything about runs of the server rests on them, none of it unfolds the functions.
-/
import WebServer.HttpConn.Response

namespace WebServer.HttpConn

open WebServer

/-! ## Closing -/

theorem closeConn_open {c : Conn} (h : c.sockfd ≠ -1) (e : Env) : closeConn c e =
    ({ c with sockfd := -1 }, { removefd e c.sockfd with userCount := e.userCount - 1 }) := by
  unfold closeConn
  rw [if_pos h]
  rfl

theorem closeConn_closed {c : Conn} (h : c.sockfd = -1) (e : Env) : closeConn c e = (c, e) := by
  unfold closeConn
  rw [if_neg (not_not.2 h)]

theorem closeConn_readSide (c : Conn) (e : Env) : (closeConn c e).1.toReadSide = c.toReadSide := by
  unfold closeConn
  split_ifs <;> rfl

/-! ## Sending -/

def Env.append (e : Env) (l : List Call) : Env := { e with calls := e.calls ++ l }

theorem Env.append_append (e : Env) (l m : List Call) : (e.append l).append m = e.append (l ++ m) := by
  simp only [Env.append, List.append_assoc]

theorem Env.append_nil (e : Env) : e.append [] = e := by
  simp only [Env.append, List.append_nil]

/-- the object after `unmap` -/
def Conn.unmapped (c : Conn) : Conn := { c with fileAddress := 0 }

/-- the call that `unmap` makes, if any -/
def Conn.munmaps (c : Conn) : List Call :=
  if c.fileAddress ≠ 0 then [.munmap c.fileAddress c.fileStat.stSize] else []

theorem unmap_eq (c : Conn) (e : Env) : unmap c e = (c.unmapped, e.append c.munmaps) := by
  unfold unmap Conn.unmapped Conn.munmaps
  split_ifs with h
  · rfl
  · rw [Env.append_nil, ← not_not.1 h]

/-- the bytes that `writev` took -/
def taken : List Call → ℕ
  | [] => 0
  | .writev _ n :: l => n + taken l
  | _ :: l => taken l

theorem taken_append (l m : List Call) : taken (l ++ m) = taken l + taken m := by
  induction l with
  | nil => exact (Nat.zero_add _).symm
  | cons x l ih => cases x <;> simp only [List.cons_append, taken, ih, Nat.add_assoc]

theorem taken_munmaps (c : Conn) : taken c.munmaps = 0 := by
  unfold Conn.munmaps
  split_ifs <;> rfl

/-- some `writev` calls `l` and the steps of `advance` after them -/
structure Sends (c c' : Conn) (l : List Call) : Prop where
  readSide : c'.toReadSide = c.toReadSide
  sockfd : c'.sockfd = c.sockfd
  writeIndex : c'.writeIndex = c.writeIndex
  fileAddress : c'.fileAddress = c.fileAddress
  fileStat : c'.fileStat = c.fileStat
  ivCount : c'.ivCount = c.ivCount
  writeBuffer : c'.writeBuffer = c.writeBuffer
  calls : ∀ x ∈ l, ∃ iov n, x = Call.writev iov n
  /-- as long as no more was taken than was to be sent, the counters count it -/
  counters : 0 ≤ c.bytesHaveSend → c.bytesHaveSend + c.bytesToSend < 2 ^ 31 → taken l ≤ c.bytesToSend →
    c'.bytesHaveSend = c.bytesHaveSend + taken l ∧ c'.bytesToSend = c.bytesToSend - taken l

theorem Sends.refl (c : Conn) : Sends c c [] :=
  ⟨rfl, rfl, rfl, rfl, rfl, rfl, rfl, fun _ h => absurd h List.not_mem_nil, fun _ _ _ => by simp [taken]⟩

theorem advance_counters (c : Conn) (n : ℕ) :
    (advance c n).bytesHaveSend = int32 (c.bytesHaveSend + int32 n) ∧
      (advance c n).bytesToSend = int32 (c.bytesToSend - int32 n) := by
  unfold advance
  dsimp only
  split_ifs <;> exact ⟨rfl, rfl⟩

/-- one more `writev` -/
theorem Sends.advance {c c' : Conn} {l : List Call} (h : Sends c c' l) (n : ℕ) :
    Sends c (advance c' n) (l ++ [.writev c'.iov n]) := by
  have hcalls : ∀ x ∈ l ++ [.writev c'.iov n], ∃ iov n, x = Call.writev iov n := by
    intro x hx
    rcases List.mem_append.1 hx with hx | hx
    · exact h.calls x hx
    · exact ⟨_, _, List.mem_singleton.1 hx⟩
  have hcounters : 0 ≤ c.bytesHaveSend → c.bytesHaveSend + c.bytesToSend < 2 ^ 31 →
      taken (l ++ [.writev c'.iov n]) ≤ c.bytesToSend →
      (HttpConn.advance c' n).bytesHaveSend = c.bytesHaveSend + taken (l ++ [.writev c'.iov n]) ∧
        (HttpConn.advance c' n).bytesToSend = c.bytesToSend - taken (l ++ [.writev c'.iov n]) := by
    intro h0 hlt hle
    have htaken : taken (l ++ [.writev c'.iov n]) = taken l + n := taken_append _ _
    rw [htaken] at hle ⊢
    push_cast at hle ⊢
    obtain ⟨h1, h2⟩ := h.counters h0 hlt (by omega)
    obtain ⟨h3, h4⟩ := advance_counters c' n
    rw [h3, h4, h1, h2, int32_eq (x := n) (by omega) (by omega), int32_eq (by omega) (by omega),
      int32_eq (by omega) (by omega)]
    exact ⟨by omega, by omega⟩
  revert hcounters
  unfold HttpConn.advance
  dsimp only
  split_ifs <;> exact fun hcounters =>
    ⟨h.readSide, h.sockfd, h.writeIndex, h.fileAddress, h.fileStat, h.ivCount, h.writeBuffer, hcalls, hcounters⟩

/-- the ways in which `write` returns -/
inductive WriteEnd (c : Conn) (e : Env) : Bool × Conn × Env → Prop
  /-- nothing to send -/
  | idle (h : c.bytesToSend = 0) : WriteEnd c e (true, c.init, modfd e c.sockfd .epollIn)
  /-- EAGAIN -/
  | blocked {c' : Conn} {l : List Call} (hs : Sends c c' l) (h0 : c.bytesToSend ≠ 0)
      (hb : c'.bytesToSend = c.bytesToSend ∨ 0 < c'.bytesToSend) :
      WriteEnd c e (true, c', modfd (e.append l) c.sockfd .epollOut)
  /-- any other error -/
  | failed {c' : Conn} {l : List Call} (hs : Sends c c' l) (h0 : c.bytesToSend ≠ 0)
      (hb : c'.bytesToSend = c.bytesToSend ∨ 0 < c'.bytesToSend) :
      WriteEnd c e (false, c'.unmapped, e.append (l ++ c'.munmaps))
  /-- everything sent, the connection stays -/
  | kept {c' : Conn} {l : List Call} (hs : Sends c c' l) (h0 : c.bytesToSend ≠ 0) (hl : c.linger = true) :
      WriteEnd c e (true, c'.unmapped.init, modfd (e.append (l ++ c'.munmaps)) c.sockfd .epollIn)
  /-- everything sent, the connection is to be closed -/
  | done {c' : Conn} {l : List Call} (hs : Sends c c' l) (h0 : c.bytesToSend ≠ 0) (hl : c.linger = false) :
      WriteEnd c e (false, c'.unmapped, modfd (e.append (l ++ c'.munmaps)) c.sockfd .epollIn)

theorem writeLoop_end {rs : List Writev} {c c' : Conn} {e : Env} {l : List Call} {x : Bool × Conn × Env}
    (hs : Sends c c' l) (h0 : c.bytesToSend ≠ 0) (hb : c'.bytesToSend = c.bytesToSend ∨ 0 < c'.bytesToSend)
    (h : writeLoop rs c' (e.append l) = some x) : WriteEnd c e x := by
  induction rs generalizing c' l with
  | nil => cases h
  | cons r rs ih =>
    cases r with
    | eagain =>
      obtain rfl := Option.some.inj h
      rw [hs.sockfd]
      exact .blocked hs h0 hb
    | error =>
      simp only [writeLoop, unmap_eq, Env.append_append] at h
      obtain rfl := Option.some.inj h
      exact .failed hs h0 hb
    | sent n =>
      have hs' := hs.advance n
      simp only [writeLoop, unmap_eq] at h
      rw [show (e.append l).record (.writev c'.iov n) = e.append (l ++ [.writev c'.iov n]) from
        Env.append_append e l _, Env.append_append] at h
      have hlinger : (HttpConn.advance c' n).unmapped.linger = c.linger := congrArg ReadSide.linger hs'.readSide
      split_ifs at h with hz hl
      · obtain rfl := Option.some.inj h
        rw [show (HttpConn.advance c' n).unmapped.sockfd = c.sockfd from hs'.sockfd]
        exact .kept hs' h0 (hlinger ▸ hl)
      · obtain rfl := Option.some.inj h
        rw [show (HttpConn.advance c' n).unmapped.sockfd = c.sockfd from hs'.sockfd]
        exact .done hs' h0 (hlinger ▸ Bool.eq_false_iff.2 hl)
      · exact ih hs' (Or.inr (by omega)) h

/-- **How `write` ends.** -/
theorem write_end {rs : List Writev} {c : Conn} {e : Env} {x : Bool × Conn × Env} (h : write rs c e = some x) :
    WriteEnd c e x := by
  unfold write at h
  split_ifs at h with h0
  · cases h
    exact .idle h0
  · exact writeLoop_end (Sends.refl c) h0 (Or.inl rfl) (by rwa [Env.append_nil])

/-! ## Parsing and answering -/

/-- the codes with which the loop of `processRead` ends -/
theorem processReadLoop_code {fuel : ℕ} {ls : LineStatus} {r : ReadSide} {x : HttpCode × ReadSide}
    (h : processReadLoop fuel ls r = some x) :
    x.1 = .noRequest ∨ x.1 = .badRequest ∨ x.1 = .getRequest ∨ x.1 = .undefined := by
  refine Loop.iterate_inv (I := fun _ => True) (Q := fun x : HttpCode × ReadSide =>
    x.1 = .noRequest ∨ x.1 = .badRequest ∨ x.1 = .getRequest ∨ x.1 = .undefined) ?_ trivial h
  rintro ⟨ls, r⟩ -
  simp only [loopRound]
  split
  · split
    · exact Or.inr (Or.inl rfl)
    · exact Or.inr (Or.inr (Or.inl rfl))
    · exact Or.inr (Or.inr (Or.inr rfl))
    · trivial
  · exact Or.inl rfl

/-- the parser stores nothing in front of `readBuffer` when it is called now -/
def Conn.Contained (c : Conn) : Prop :=
  ∀ code r, processReadLoop loopRounds .lineOk c.toReadSide = some (code, r) → r.outside = none

/-- what `processRead` leaves when it asks for an answer, after the calls `l`; `c'.fileAddress` may be MAP_FAILED -/
structure Requested (c : Conn) (code : HttpCode) (c' : Conn) (l : List Call) : Prop where
  code_mem : code = .badRequest ∨ code = .noResource ∨ code = .forbiddenRequest ∨ code = .fileRequest
  sockfd : c'.sockfd = c.sockfd
  writeIndex : c'.writeIndex = c.writeIndex
  bytesHaveSend : c'.bytesHaveSend = c.bytesHaveSend
  mapping : (code ≠ .fileRequest ∧ c'.fileAddress = c.fileAddress ∧ ∀ x ∈ l, ∃ p, x = Call.stat p) ∨
    (code = .fileRequest ∧ c'.fileAddress ≠ 0 ∧
      ∃ p, l = [.stat p, .openFile p, .mmap c'.fileStat.stSize c'.fileAddress])

theorem Requested.answered {c c' : Conn} {code : HttpCode} {l : List Call} (h : Requested c code c' l) :
    code.answered = true := by
  rcases h.code_mem with rfl | rfl | rfl | rfl <;> rfl

theorem mapFile_ne_zero (fs : FileSystem) (path : Bytes) (len : ℕ) : fs.mapFile path len ≠ 0 := by
  unfold FileSystem.mapFile
  split_ifs
  · cases fs.mmap len with
    | none => decide
    | some a => exact a.2.1
  · decide

theorem doRequest_requested (fs : FileSystem) (c : Conn) (e : Env) :
    ∃ l, Requested c (doRequest fs c e).1 (doRequest fs c e).2.1 l ∧ (doRequest fs c e).2.2 = e.append l := by
  have hstat : ∀ p, ∀ x ∈ [Call.stat p], ∃ p, x = Call.stat p := fun p x hx => ⟨p, List.mem_singleton.1 hx⟩
  unfold doRequest
  dsimp only
  cases fs.stat ((buildPath c).cstr 0) with
  | none => exact ⟨_, ⟨by simp, rfl, rfl, rfl, Or.inl ⟨by simp, rfl, hstat _⟩⟩, rfl⟩
  | some st =>
    dsimp only
    split_ifs
    · exact ⟨_, ⟨by simp, rfl, rfl, rfl, Or.inl ⟨by simp, rfl, hstat _⟩⟩, rfl⟩
    · exact ⟨_, ⟨by simp, rfl, rfl, rfl, Or.inl ⟨by simp, rfl, hstat _⟩⟩, rfl⟩
    · refine ⟨_, ⟨by simp, rfl, rfl, rfl, Or.inr ⟨rfl, mapFile_ne_zero _ _ _, (buildPath c).cstr 0, rfl⟩⟩, ?_⟩
      simp only [Env.record, Env.append, List.append_assoc]
      rfl

theorem doRequest_readSide (fs : FileSystem) (c : Conn) (e : Env) :
    (doRequest fs c e).2.1.toReadSide = c.toReadSide := by
  unfold doRequest
  dsimp only
  split
  · rfl
  · split_ifs <;> rfl

/-- `doRequest` always looks for the file -/
theorem doRequest_calls (fs : FileSystem) (c : Conn) (e : Env) :
    e.calls.length < (doRequest fs c e).2.2.calls.length := by
  unfold doRequest
  dsimp only
  split
  · simp [Env.record]
  · split_ifs <;> simp [Env.record]

/-- **What `processRead` leaves.** A request that is asked for may have come with a new descriptor `fd`. -/
theorem processRead_requested {fs : FileSystem} {c c' : Conn} {e e' : Env} {code : HttpCode}
    (h : processRead fs c e = some (code, c', e')) (hdef : code ≠ .undefined) :
    (c.Contained → c'.outside = none) ∧
      ((code = .noRequest ∧ e' = e ∧ ∃ r, c' = c.setRead r) ∨
        ∃ l fd, Requested { c with sockfd := fd } code c' l ∧ (c.Contained → fd = c.sockfd) ∧ e' = e.append l) := by
  unfold processRead at h
  cases hl : processReadLoop loopRounds .lineOk c.toReadSide with
  | none => rw [hl] at h; cases h
  | some x =>
    rw [hl] at h
    obtain ⟨ret, r⟩ := x
    rcases processReadLoop_code hl with hc | hc | hc | hc <;> obtain rfl : ret = _ := hc
    · cases h
      exact ⟨fun hin => hin _ _ hl, Or.inl ⟨rfl, rfl, r, rfl⟩⟩
    · cases h
      refine ⟨fun hin => hin _ _ hl, Or.inr ⟨[], c.sockfd, ⟨Or.inl rfl, rfl, rfl, rfl, Or.inl ⟨by simp, rfl, ?_⟩⟩,
        fun _ => rfl, (Env.append_nil _).symm⟩⟩
      exact fun _ hx => absurd hx List.not_mem_nil
    · obtain ⟨fd, o, hstore⟩ := (c.setRead r).storeOwn_eq
      have hkept : c.Contained → fd = c.sockfd ∧ o = none := by
        intro hin
        have hsame := Conn.storeOwn_none (c := c.setRead r) (hin _ _ hl)
        rw [hstore, Option.some.injEq] at hsame
        exact ⟨congrArg Conn.sockfd hsame, (congrArg (fun x : Conn => x.outside) hsame).trans (hin _ _ hl)⟩
      simp only [hstore, Option.map_some, Option.some.injEq] at h
      obtain ⟨l, hr, he⟩ := doRequest_requested fs { c.setRead r with sockfd := fd, outside := o } e
      have hread := doRequest_readSide fs { c.setRead r with sockfd := fd, outside := o } e
      rw [h] at hr he hread
      refine ⟨fun hin => ?_, Or.inr ⟨l, fd, ⟨hr.code_mem, hr.sockfd, hr.writeIndex, hr.bytesHaveSend, hr.mapping⟩,
        fun hin => (hkept hin).1, he⟩⟩
      exact (congrArg ReadSide.outside hread).trans (hkept hin).2
    · cases h
      exact absurd rfl hdef

/-- the ways in which `process` returns -/
inductive ProcessEnd (fs : FileSystem) (c : Conn) (e : Env) : HttpCode × Conn × Env → Prop
  /-- the request is not complete -/
  | waits {r : ReadSide} : ProcessEnd fs c e (.noRequest, c.setRead r, modfd e c.sockfd .epollIn)
  /-- a response is ready -/
  | answers {code : HttpCode} {c' : Conn} {l : List Call} (hq : Requested c code c' l)
      (hw : (processWrite code c').1 = true) :
      ProcessEnd fs c e (code, (processWrite code c').2, modfd (e.append l) c.sockfd .epollOut)
  /-- the response does not fit -/
  | refuses {code : HttpCode} {c' : Conn} {l : List Call} (hq : Requested c code c' l)
      (hw : (processWrite code c').1 = false) :
      ProcessEnd fs c e (code, (closeConn (processWrite code c').2 (e.append l)).1,
        modfd (closeConn (processWrite code c').2 (e.append l)).2
          (closeConn (processWrite code c').2 (e.append l)).1.sockfd .epollOut)

theorem ProcessEnd.defined {fs : FileSystem} {c : Conn} {e : Env} {x : HttpCode × Conn × Env}
    (h : ProcessEnd fs c e x) : x.1 ≠ .undefined := by
  have hcode : ∀ {code c' l}, Requested c code c' l → code ≠ .undefined := by
    intro code c' l hq
    rcases hq.code_mem with hc | hc | hc | hc <;> rw [hc] <;> decide
  cases h with
  | waits => nofun
  | answers hq hw => exact hcode hq
  | refuses hq hw => exact hcode hq

/-- **How `process` ends.** The descriptor is still the object's own, unless the parser stores in front of `readBuffer`. -/
theorem process_end {fs : FileSystem} {c : Conn} {e : Env} {x : HttpCode × Conn × Env} (h : process fs c e = some x)
    (hdef : x.1 ≠ .undefined) :
    ∃ fd, ProcessEnd fs { c with sockfd := fd } e x ∧ (c.Contained → fd = c.sockfd ∧ x.2.1.outside = none) := by
  unfold process at h
  cases hr : processRead fs c e with
  | none => rw [hr] at h; cases h
  | some y =>
    obtain ⟨code, c', e'⟩ := y
    rw [hr] at h
    dsimp only at h
    have hcode : code ≠ .undefined := by
      rintro rfl
      cases h
      exact hdef rfl
    obtain ⟨hin, ⟨rfl, rfl, r, rfl⟩ | ⟨l, fd, hq, hfd, rfl⟩⟩ := processRead_requested hr hcode
    · cases h
      exact ⟨c.sockfd, .waits (r := r), fun hc => ⟨rfl, hin hc⟩⟩
    · have hne : code ≠ .noRequest := by
        rcases hq.code_mem with hc | hc | hc | hc <;> rw [hc] <;> decide
      rw [if_neg hne, if_neg hcode] at h
      have hkept := processWrite_kept code c'
      have hsock : (processWrite code c').2.sockfd = fd := hkept.sockfd.trans hq.sockfd
      have hout : c.Contained → (processWrite code c').2.outside = none := fun hc =>
        (congrArg ReadSide.outside hkept.readSide).trans (hin hc)
      cases hw : (processWrite code c').1 with
      | true =>
        simp only [hw, if_true, hsock] at h
        cases h
        exact ⟨fd, .answers hq hw, fun hc => ⟨hfd hc, hout hc⟩⟩
      | false =>
        simp only [hw, Bool.false_eq_true, if_false] at h
        cases h
        refine ⟨fd, .refuses hq hw, fun hc => ⟨hfd hc, ?_⟩⟩
        rw [closeConn_readSide]
        exact hout hc

/-- the end of a `process` whose parser stays inside `readBuffer` -/
theorem Conn.Contained.process_end {fs : FileSystem} {c : Conn} (hin : c.Contained) {e : Env}
    {x : HttpCode × Conn × Env} (h : process fs c e = some x) (hdef : x.1 ≠ .undefined) :
    ProcessEnd fs c e x ∧ x.2.1.outside = none := by
  obtain ⟨fd, hend, hkept⟩ := HttpConn.process_end h hdef
  obtain ⟨rfl, hout⟩ := hkept hin
  exact ⟨hend, hout⟩

end WebServer.HttpConn
