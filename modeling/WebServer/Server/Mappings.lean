/-
The file mappings of a connection.

`ledger` reads the calls made for a descriptor and keeps the list of live mappings. It fails at a `munmap` of something
that is not live and at a `close` while a mapping is live.

- `mappings_released`: in runs without negative lengths that meet `releases` the ledger never fails, and a closed
  connection has no mapping.
- `mappings_leak`: the conditions are needed. `close_conn` does not call `unmap`, so a hang-up in the middle of a file
  response leaves the mapping; and MAP_FAILED, for example for an empty file, is passed to `munmap`.

`write` called with `bytesToSend = 0` is the third case: with a file of 2^32 - writeIndex bytes the counter wraps to 0 and
`init` is called without `unmap`.
-/
import WebServer.Server.Phase

namespace WebServer.Server

open WebServer.HttpConn WebServer.ThreadPool

/-! ## The ledger -/

/-- the live mappings, as pairs of address and length, after one more call -/
def ledger (live : List (ℕ × ℕ)) : Call → Option (List (ℕ × ℕ))
  | .mmap len res => if res = mapFailed then some live else some ((res, len) :: live)
  | .munmap addr len => if (addr, len) ∈ live then some (live.erase (addr, len)) else none
  | .close _ => if live = [] then some live else none
  | _ => some live

/-- what `fileAddress` and `fileStat` say is mapped -/
def mapping (c : Conn) : List (ℕ × ℕ) := if c.fileAddress = 0 then [] else [(c.fileAddress, c.fileStat.stSize)]

theorem mapping_nil {c : Conn} (h : c.fileAddress = 0) : mapping c = [] := if_pos h

theorem mapping_eq {c c' : Conn} (ha : c'.fileAddress = c.fileAddress) (hs : c'.fileStat = c.fileStat) :
    mapping c' = mapping c := by
  unfold mapping
  rw [ha, hs]

theorem ledger_sends {c c' : Conn} {l : List Call} (h : Sends c c' l) (live : List (ℕ × ℕ)) :
    Run.exec ledger live l = some live := by
  refine Run.exec_fixed fun x hx => ?_
  obtain ⟨iov, n, rfl⟩ := h.calls x hx
  rfl

theorem ledger_munmaps (c : Conn) : Run.exec ledger (mapping c) c.munmaps = some [] := by
  by_cases h : c.fileAddress = 0
  · simp [mapping, Conn.munmaps, h, Run.exec]
  · simp [mapping, Conn.munmaps, h, Run.exec, ledger]

theorem ledger_sent {c c' : Conn} {l : List Call} (h : Sends c c' l) :
    Run.exec ledger (mapping c) (l ++ c'.munmaps) = some [] := by
  rw [Run.exec_append (ledger_sends h _), ← mapping_eq h.fileAddress h.fileStat]
  exact ledger_munmaps c'

/-- the calls of `doRequest`, when nothing was mapped before -/
theorem ledger_requested {c c' : Conn} {code : HttpCode} {l : List Call} (h : Requested c code c' l)
    (h0 : c.fileAddress = 0) (hmap : code = .fileRequest → c'.fileAddress ≠ mapFailed) :
    Run.exec ledger [] l = some (mapping c') := by
  rcases h.mapping with ⟨-, ha, hl⟩ | ⟨hcode, hne, p, rfl⟩
  · rw [mapping_nil (ha.trans h0)]
    refine Run.exec_fixed fun x hx => ?_
    obtain ⟨p, rfl⟩ := hl x hx
    rfl
  · simp only [Run.exec, ledger, if_neg (hmap hcode), mapping, if_neg hne]

/-! ## Slots -/

/-- the ledger agrees with the object, and a mapped file is waiting to be sent -/
structure Tracked (v : Slot) : Prop where
  live : Run.exec ledger [] v.log = some (mapping v.conn)
  sending : v.conn.fileAddress ≠ 0 → v.opened = true ∧ ¬ v.WaitsFor .epollIn

theorem Tracked.unmapped {v : Slot} (h : Tracked v) (hin : v.WaitsFor .epollIn) : v.conn.fileAddress = 0 := by
  by_contra hne
  exact (h.sending hne).2 hin

/-- a slot without a mapping -/
theorem Tracked.of_zero {v : Slot} (h0 : v.conn.fileAddress = 0) (hlive : Run.exec ledger [] v.log = some []) :
    Tracked v :=
  ⟨by rw [mapping_nil h0, hlive], fun hne => absurd h0 hne⟩

/-- closing a slot without a mapping -/
theorem Tracked.close {v : Slot} (h0 : v.conn.fileAddress = 0) (hlive : Run.exec ledger [] v.log = some []) (fd : ℤ) :
    Tracked (v.close fd) :=
  Tracked.of_zero h0 (by rw [Slot.close, Run.exec_append hlive]; rfl)

theorem Tracked.log_nil {v : Slot} (h : Tracked v) (h0 : v.conn.fileAddress = 0) :
    Run.exec ledger [] v.log = some [] := by
  rw [h.live, mapping_nil h0]

/-- a file response never is refused -/
theorem refused_code {c : Conn} {code : HttpCode} (h : (processWrite code c).1 = false) : code ≠ .fileRequest := by
  rintro rfl
  cases h

theorem Tracked.step {fd : ℤ} {v v' : Slot} {act : Act} (hown : Own fd v) (ht : Tracked v)
    (hstep : SlotStep fd v act v') (hhup : act = .hangup → v.conn.fileAddress = 0)
    (hsend : act = .send → v.conn.bytesToSend = 0 → v.conn.fileAddress = 0)
    (hmap : act = .process .fileRequest → v'.conn.fileAddress ≠ mapFailed) : Tracked v' := by
  have hown' := hown.step hstep
  have hin : ∀ {ev rest}, v.pending = ev :: rest → ev.epollIn = true → v.conn.fileAddress = 0 := fun hp hev =>
    ht.unmapped (Or.inr (Or.inl ⟨_, hp ▸ List.mem_cons_self, hev⟩))
  have hheld : ∀ {n}, v.owners = n + 1 → v.conn.fileAddress = 0 := fun ho =>
    ht.unmapped (Or.inr (Or.inr (by omega)))
  cases hstep with
  | deliver hp hr =>
    exact ⟨ht.live, fun hne => ⟨(ht.sending hne).1, fun hj => (ht.sending hne).2 (hown.waitsFor_deliver hr hj)⟩⟩
  | accept h0 ho =>
    have hz : v.conn.fileAddress = 0 := by
      by_contra hne
      rw [(ht.sending hne).1] at ho
      cases ho
    exact Tracked.of_zero hz (ht.log_nil hz)
  | hangup hp hev =>
    refine Tracked.close ?_ ?_ fd
    · exact hhup rfl
    · exact ht.log_nil (hhup rfl)
  | readClose hp hev =>
    refine Tracked.close ?_ ?_ fd
    · exact hin hp hev
    · exact ht.log_nil (hin hp hev)
  | enqueue hp hev => exact Tracked.of_zero (hin hp hev) (ht.log_nil (hin hp hev))
  | drop hp hev => exact Tracked.of_zero (hin hp hev) (ht.log_nil (hin hp hev))
  | sendIdle hp hev h0 => exact Tracked.of_zero (hsend rfl h0) (ht.log_nil (hsend rfl h0))
  | sendBlocked hp hev hs hb =>
    refine ⟨?_, fun _ => ⟨(hown.delivered hp).2.2.2.1, fun hj => ?_⟩⟩
    · rw [Run.exec_append ht.live, ledger_sends hs, mapping_eq hs.fileAddress hs.fileStat]
    · cases hown'.waitsFor_armed rfl hj
  | sendKept hp hev hs => exact Tracked.of_zero rfl (by rw [Run.exec_append ht.live, ledger_sent hs])
  | sendClose hp hev hs => exact Tracked.close rfl (by rw [Run.exec_append ht.live, ledger_sent hs]) fd
  | ignore hp hev =>
    exact ⟨ht.live, fun hne => ⟨(ht.sending hne).1, fun hj => hown.waitsFor_taken hp hj rfl rfl rfl⟩⟩
  | waits ho => exact Tracked.of_zero (hheld ho) (ht.log_nil (hheld ho))
  | @answers n code c l ho hq hw =>
    have hk := processWrite_kept code c
    refine ⟨?_, fun _ => ⟨(hown.held ho).2.2.2, fun hj => ?_⟩⟩
    · rw [Run.exec_append (ht.log_nil (hheld ho)), mapping_eq hk.fileAddress hk.fileStat]
      refine ledger_requested hq (hheld ho) ?_
      rintro rfl
      exact hk.fileAddress ▸ hmap rfl
    · cases hown'.waitsFor_armed rfl hj
  | @refuses n code c l ho hq hw =>
    have hk := processWrite_kept code c
    have hcode := refused_code hw
    have hz : c.fileAddress = 0 := by
      rcases hq.mapping with ⟨-, ha, -⟩ | ⟨hfile, -⟩
      · exact ha.trans (hheld ho)
      · exact absurd hfile hcode
    refine Tracked.close (hk.fileAddress.trans hz) ?_ fd
    rw [Run.exec_append (ht.log_nil (hheld ho)), ledger_requested hq (hheld ho) fun h => absurd h hcode, mapping_nil hz]

/-! ## Runs -/

/-- the file that the request asks for, if it is readable and no directory, can be opened and mapped -/
def mapsFile (fs : FileSystem) (c : Conn) : Bool :=
  match processReadLoop loopRounds .lineOk c.toReadSide with
  | some (.getRequest, r) =>
    match fs.stat ((buildPath (c.setRead r)).cstr 0) with
    | some st =>
      if st.stMode &&& sIroth ≠ 0 ∧ sIsdir st.stMode = false then
        decide (fs.mapFile ((buildPath (c.setRead r)).cstr 0) st.stSize ≠ mapFailed)
      else true
    | none => true
  | _ => true

/-- the file that `doRequest` maps -/
theorem doRequest_maps {fs : FileSystem} {c c' : Conn} {e e' : Env} (h : doRequest fs c e = (.fileRequest, c', e')) :
    ∃ st, fs.stat ((buildPath c).cstr 0) = some st ∧ (st.stMode &&& sIroth ≠ 0 ∧ sIsdir st.stMode = false) ∧
      c'.fileAddress = fs.mapFile ((buildPath c).cstr 0) st.stSize := by
  unfold doRequest at h
  cases hst : fs.stat ((buildPath c).cstr 0) with
  | none => simp only [hst] at h; cases h
  | some st =>
    simp only [hst] at h
    split_ifs at h with hmode hdir <;> cases h
    exact ⟨st, rfl, ⟨hmode, by simpa using hdir⟩, rfl⟩

theorem processRead_maps {fs : FileSystem} {c c' : Conn} {e e' : Env} (hmaps : mapsFile fs c = true)
    (h : processRead fs c e = some (.fileRequest, c', e')) : c'.fileAddress ≠ mapFailed := by
  unfold processRead at h
  unfold mapsFile at hmaps
  split at h
  · cases h
  · rename_i r hr
    obtain ⟨fd, o, hstore⟩ := (c.setRead r).storeOwn_eq
    rw [hstore] at h
    obtain ⟨st, hst, hfile, haddr⟩ := doRequest_maps (c := { c.setRead r with sockfd := fd, outside := o })
      (Option.some.inj h)
    have hst' : fs.stat ((buildPath (c.setRead r)).cstr 0) = some st := hst
    simp only [hr, hst', if_pos hfile] at hmaps
    rw [haddr]
    exact of_decide_eq_true hmaps
  · rename_i ret r hne hr
    cases h
    rcases processReadLoop_code hr with hc | hc | hc | hc <;> cases hc

theorem process_maps {fs : FileSystem} {c : Conn} {e : Env} {x : Conn × Env} (hmaps : mapsFile fs c = true)
    (h : HttpConn.process fs c e = some (.fileRequest, x)) : x.1.fileAddress ≠ mapFailed := by
  unfold HttpConn.process at h
  cases hr : processRead fs c e with
  | none => rw [hr] at h; cases h
  | some y =>
    obtain ⟨code, c', e'⟩ := y
    rw [hr] at h
    dsimp only at h
    split_ifs at h with hno hdef hw
    · cases h
      cases hno
    · cases h
      cases hdef
    · cases h
      show (processWrite .fileRequest c').2.fileAddress ≠ mapFailed
      rw [(processWrite_kept .fileRequest c').fileAddress]
      exact processRead_maps hmaps hr
    · cases h
      exact absurd rfl hw

section Runs

variable {κ : Type*}

/-- no hang-up is handled while a file is mapped, nor an EPOLLOUT when `bytesToSend` is 0 though a file is mapped; and
the files asked for can be mapped -/
def releases (s : State κ) : Op κ → Bool
  | .handle _ =>
    match s.batch with
    | .client fd ev :: _ =>
      if ev.hup = true ∨ (ev.epollIn = false ∧ (s.users fd).bytesToSend = 0) then
        decide ((s.users fd).fileAddress = 0)
      else true
    | _ => true
  | .process j fs =>
    match s.pool.workers j with
    | .running fd => mapsFile fs (s.users fd)
    | _ => true
  | _ => true

variable [Fintype κ] [DecidableEq κ] {maxRequests : ℕ} {users : ℤ → Conn} {ops : List (Op κ)} {s s' : State κ}

omit [Fintype κ] [DecidableEq κ] in
theorem unmapped_of_cause {op : Op κ} {fd : ℤ} {act : Act} (hok : releases s op = true)
    (hcause : Cause maxRequests s op fd act) :
    (act = .hangup → (s.users fd).fileAddress = 0) ∧
      (act = .send → (s.users fd).bytesToSend = 0 → (s.users fd).fileAddress = 0) := by
  constructor
  · rintro rfl
    obtain ⟨a, ev, batch, rfl, hb, hev⟩ := hcause
    simp only [releases, hb] at hok
    rw [if_pos (Or.inl hev)] at hok
    exact of_decide_eq_true hok
  · rintro rfl h0
    obtain ⟨a, ev, batch, rfl, hb, -, hev⟩ := hcause
    simp only [releases, hb] at hok
    rw [if_pos (Or.inr ⟨hev, h0⟩)] at hok
    exact of_decide_eq_true hok

omit [Fintype κ] in
theorem mapped_of_cause {op : Op κ} {fd : ℤ} (hok : releases s op = true) (hin : contained s op)
    (hst : Server.step maxRequests s op = some s') (hcause : Cause maxRequests s op fd (.process .fileRequest)) :
    (s'.users fd).fileAddress ≠ mapFailed := by
  obtain ⟨j, fs, x, hop, hj, hx⟩ := hcause
  rw [users_process hop hj hx hin hst]
  subst hop
  simp only [releases, hj] at hok
  exact process_maps hok hx

/-- **Every mapping is released, once and before the connection is closed**, in runs without negative lengths that meet
`releases`. -/
theorem mappings_released (h0 : ∀ fd, (users fd).fileAddress = 0)
    (hin : Run.Along (Server.step maxRequests) (fun s op => lengthsInside s op = true) (State.start users) ops)
    (hok : Run.Along (Server.step maxRequests) (fun s op => releases s op = true) (State.start users) ops)
    (h : Run.exec (Server.step maxRequests) (State.start users) ops = some s) (fd : ℤ) :
    ∃ live, Run.exec ledger [] (s.logs fd) = some live ∧ (fd ∉ s.opened → live = []) := by
  obtain ⟨-, ht⟩ := run_slots (P := fun _ => Tracked) (fun fd => Tracked.of_zero (h0 fd) rfl)
    (fun s op s' fd act hok hc hst hcause hown ht hstep => ht.step hown hstep (unmapped_of_cause hok hcause).1
      (unmapped_of_cause hok hcause).2 fun hact => mapped_of_cause hok hc hst (hact ▸ hcause)) hin hok h
  refine ⟨_, (ht fd).live, fun hclosed => mapping_nil ?_⟩
  by_contra hne
  exact hclosed (of_decide_eq_true ((ht fd).sending hne).1)

end Runs

/-- the file of ten bytes is sent, and the connection is closed -/
def servedOps : List (Op Unit) := requestOps (plainFiles 10) ++
  [.epollWait [.client 5 writable], .handle ⟨none, [], [.sent 92]⟩]

def servedRun : Option (State Unit) := Run.exec (Server.step 1) (State.start fun _ => Conn.blank) servedOps

theorem servedRun_isSome : servedRun.isSome = true := by decide +kernel

theorem mappings_released_servedRun : 5 ∉ (servedRun.get servedRun_isSome).opened ∧
    ∃ live, Run.exec ledger [] ((servedRun.get servedRun_isSome).logs 5) = some live ∧ live = [] := by
  have hclosed : 5 ∉ (servedRun.get servedRun_isSome).opened := by decide +kernel
  obtain ⟨live, hlive, hnil⟩ :=
    mappings_released (fun _ => rfl) (by decide +kernel) (by decide +kernel) (Option.some_get servedRun_isSome).symm 5
  exact ⟨hclosed, live, hlive, hnil hclosed⟩

/-- the client hangs up before the response is sent -/
def hangupRun : Option (State Unit) :=
  Run.exec (Server.step 1) (State.start fun _ => Conn.blank) (requestOps (plainFiles 10) ++
    [.epollWait [.client 5 ⟨true, false, false⟩], .handle ⟨none, [], []⟩])

/-- the file asked for is empty -/
def emptyRun : Option (State Unit) :=
  Run.exec (Server.step 1) (State.start fun _ => Conn.blank) (requestOps (plainFiles 0) ++
    [.epollWait [.client 5 writable], .handle ⟨none, [], [.sent 81]⟩])

/-- The ledger fails: the hang-up closes the connection with the mapping live, and MAP_FAILED is unmapped. -/
theorem mappings_leak :
    hangupRun.map (fun s => ((s.logs 5).drop 2, Run.exec ledger [] (s.logs 5))) =
      some ([.mmap 10 4096, .close 5], none) ∧
    emptyRun.map (fun s => ((s.logs 5).drop 4, Run.exec ledger [] (s.logs 5))) =
      some ([.munmap mapFailed 0, .close 5], none) := by
  decide +kernel

end WebServer.Server
