/-
Requests in the server: what `users[fd]` has received when a worker parses it.

- `handle_reads`: the main loop changes the request members of an object only by `read` and by `init`.
- `Reads`: a connection that waits for EPOLLIN, is reported readable or is in the pool has a request that was received
  from `init` on by `read` and `processRead` (`Reading`).
- `lengthsInside`: the bytes that a worker parses announce a length that is not negative. Then its parser stores nothing
  in front of its `readBuffer`, and in runs whose requests are all of this kind `Reads` holds (`run_reads`).
- `run_slots`: what a slot has at the start and keeps in every `SlotStep` holds of all slots in these runs.
- `parsing_ends_iff`: the loop of `processRead` in a worker ends unless the bytes received make it spin or write over
  memory in use.
- `parsing_spins`: a request whose body is not complete yet takes a worker for ever.
-/
import WebServer.HttpConn.Chunks
import WebServer.HttpConn.HeadEnd
import WebServer.Server.Refine

namespace WebServer.Server

open WebServer.HttpConn WebServer.ThreadPool

variable {κ : Type*}

/-! ## The request members in one step -/

/-- the request members of an object are left alone, reset, or extended by `read` -/
def Receives (r r' : ReadSide) : Prop := r' = r ∨ r' = ReadSide.fresh ∨ ∃ rs b, read rs r = some (b, r')

theorem receives_put {s : State κ} {fd : ℤ} {x : Conn × Env}
    (h : Receives (s.users fd).toReadSide x.1.toReadSide) (g : ℤ) :
    Receives (s.users g).toReadSide ((s.put fd x).users g).toReadSide := by
  by_cases hg : g = fd
  · subst hg
    have hput : (s.put g x).users g = x.1 := Function.update_self ..
    rw [hput]
    exact h
  · have hput : (s.put fd x).users g = s.users g := Function.update_of_ne hg _ _
    rw [hput]
    exact Or.inl rfl

theorem users_close (s : State κ) (fd g : ℤ) : ((s.close fd).users g).toReadSide = (s.users g).toReadSide := by
  by_cases hg : g = fd
  · subst hg
    have hput : (s.close g).users g = (closeConn (s.users g) (s.env g)).1 := Function.update_self ..
    rw [hput]
    exact closeConn_readSide _ _
  · exact congrArg Conn.toReadSide (Function.update_of_ne hg _ _)

theorem receives_setRead {s : State κ} {fd : ℤ} {r : ReadSide} {rs : List Recv} {b : Bool}
    (h : read rs (s.users fd).toReadSide = some (b, r)) (g : ℤ) :
    Receives (s.users g).toReadSide ((s.setRead fd r).users g).toReadSide := by
  by_cases hg : g = fd
  · subst hg
    have hset : (s.setRead g r).users g = (s.users g).setRead r := Function.update_self ..
    rw [hset]
    exact Or.inr (Or.inr ⟨rs, b, h⟩)
  · have hset : (s.setRead fd r).users g = s.users g := Function.update_of_ne hg _ _
    rw [hset]
    exact Or.inl rfl

theorem receives_write {rs : List Writev} {c : Conn} {e : Env} {x : Bool × Conn × Env}
    (h : HttpConn.write rs c e = some x) : Receives c.toReadSide x.2.1.toReadSide := by
  cases write_end h with
  | idle h0 => exact Or.inr (Or.inl rfl)
  | blocked hs h0 hb => exact Or.inl hs.readSide
  | failed hs h0 => exact Or.inl hs.readSide
  | kept hs h0 => exact Or.inr (Or.inl rfl)
  | done hs h0 => exact Or.inl hs.readSide

variable [DecidableEq κ] {maxRequests : ℕ}

/-- **The main loop and requests.** -/
theorem handle_reads {s s' : State κ} {a : Answers} (h : Server.step maxRequests s (.handle a) = some s') (g : ℤ) :
    Receives (s.users g).toReadSide (s'.users g).toReadSide := by
  obtain ⟨ev, batch, -, hev⟩ := step_handle h
  cases ev with
  | listen =>
    simp only [State.onEvent, State.onAccept] at hev
    split at hev
    · cases hev
      exact Or.inl rfl
    · rename_i fd
      split_ifs at hev
      · cases hev
        exact Or.inl rfl
      · cases hev
        exact receives_put (Or.inr (Or.inl rfl)) g
  | client fd ev =>
    simp only [State.onEvent] at hev
    split_ifs at hev
    · cases hev
      exact Or.inl (users_close _ fd g)
    · unfold State.onReadable at hev
      split at hev
      · rename_i r hr
        split at hev
        · cases hev
          exact receives_setRead hr g
        · cases hev
      · rename_i r hr
        cases hev
        rw [users_close]
        exact receives_setRead hr g
      · cases hev
    · unfold State.onWritable at hev
      split at hev
      · rename_i x hx
        cases hev
        exact receives_put (receives_write hx) g
      · rename_i x hx
        cases hev
        rw [users_close]
        exact receives_put (receives_write hx) g
      · cases hev
    · cases hev
      exact Or.inl rfl

/-- a step of the server that is not the `process` of the object itself -/
theorem step_reads {s s' : State κ} {op : Op κ} {g : ℤ} (hin : contained s op)
    (h : Server.step maxRequests s op = some s') (hop : ∀ j fs, op = .process j fs → s.pool.workers j ≠ .running g) :
    Receives (s.users g).toReadSide (s'.users g).toReadSide := by
  cases op with
  | epollWait events =>
    obtain ⟨-, -, rfl⟩ := step_epollWait h
    exact Or.inl rfl
  | handle a => exact handle_reads h g
  | post | wait | waitEarly | run =>
    obtain ⟨p, -, rfl⟩ := setPool_some h
    exact Or.inl rfl
  | process j fs =>
    obtain ⟨fd, code, x, p, hj, -, -, -, rfl⟩ := step_process_contained h hin
    have hne : g ≠ fd := by
      rintro rfl
      exact hop j fs rfl hj
    exact Or.inl (congrArg Conn.toReadSide (Function.update_of_ne hne _ _))

/-- a `process` that waits for more bytes has parsed what was there -/
theorem process_parses {fs : FileSystem} {c : Conn} {e : Env} {x : Conn × Env}
    (h : HttpConn.process fs c e = some (.noRequest, x)) :
    processReadLoop loopRounds .lineOk c.toReadSide = some (.noRequest, x.1.toReadSide) := by
  cases hl : processReadLoop loopRounds .lineOk c.toReadSide with
  | none =>
    rw [process_none hl] at h
    cases h
  | some y =>
    obtain ⟨code, r⟩ := y
    rcases processReadLoop_code hl with hc | hc | hc | hc <;> obtain rfl : code = _ := hc
    · rw [process_noRequest hl] at h
      cases h
      rfl
    · simp [HttpConn.process, processRead, hl] at h
    · obtain ⟨c', e', h', -⟩ := process_getRequest fs e hl
      rw [h'] at h
      exact absurd (congrArg Prod.fst (Option.some.inj h)) (resourceCode_ne fs _)
    · rw [process_undefined hl] at h
      cases h

/-! ## Runs -/

/-- a slot that is to be read or parsed holds a request received from `init` on -/
def Parsing (v : Slot) : Prop := v.WaitsFor .epollIn → Reading v.conn.toReadSide

theorem reading_receives {r r' : ReadSide} (h : Reading r) (hr : Receives r r') : Reading r' := by
  rcases hr with rfl | rfl | ⟨rs, b, hr⟩
  · exact h
  · exact .init
  · exact .read h hr

theorem Parsing.step {fd : ℤ} {v v' : Slot} {act : Act} (hown : Own fd v) (hparse : Parsing v)
    (hstep : SlotStep fd v act v') (hread : v.pending ≠ [] → Receives v.conn.toReadSide v'.conn.toReadSide)
    (hproc : act = .process .noRequest →
      processReadLoop loopRounds .lineOk v.conn.toReadSide = some (.noRequest, v'.conn.toReadSide)) : Parsing v' := by
  intro hw
  have horigin := hstep.origin hown hw
  generalize v'.conn = c', v'.log = log at horigin hread hproc ⊢
  cases horigin with
  | same h => exact hparse h
  | reset c log => exact .init
  | received hp h => exact reading_receives (hparse h) (hread hp)
  | parsed h => exact .parse (hparse h) (hproc rfl)

/-- the bytes that a worker parses announce a length that is not negative -/
def lengthsInside (s : State κ) : Op κ → Bool
  | .process j _ =>
    match s.pool.workers j with
    | .running fd => 0 ≤ (s.users fd).bodyLength
    | _ => true
  | _ => true

variable [Fintype κ] {users : ℤ → Conn} {ops : List (Op κ)} {s s' : State κ} {op : Op κ}

/-- the invariant of the server, with the requests of its slots -/
structure Reads (s : State κ) : Prop where
  inv : Inv s
  parsing : ∀ fd, Parsing (s.slot fd)

omit [DecidableEq κ] in
theorem Reads.steady (h : Reads s) {j : κ} {fd : ℤ} (hj : s.pool.workers j = .running fd) :
    Steady (s.users fd).toReadSide :=
  (h.parsing fd (Or.inr (Or.inr (ownersOf_running hj)))).steady

omit [DecidableEq κ] in
theorem Reads.contained (h : Reads s) (hop : lengthsInside s op = true) : contained s op := by
  cases op with
  | process j fs =>
    intro fd hj
    refine (h.steady hj).contained ?_
    simpa only [lengthsInside, hj, decide_eq_true_eq] using hop
  | _ => trivial

theorem Reads.step (h : Reads s) (hop : lengthsInside s op = true) (hst : Server.step maxRequests s op = some s') :
    Reads s' := by
  have hin := h.contained hop
  refine ⟨h.inv.step hin hst, slots_step (P := fun _ => Parsing) h.inv hin hst (fun fd act hcause hstep => ?_) h.parsing⟩
  refine (h.parsing fd).step (h.inv.slots fd) hstep (fun hp => ?_) (fun hact => ?_)
  · -- while an event of the slot is in the batch, no worker has it
    apply step_reads hin hst
    intro j fs _ hj
    obtain ⟨ev, rest, hpend⟩ := List.exists_cons_of_ne_nil hp
    have hzero : ownersOf s.pool fd = 0 := ((h.inv.slots fd).delivered hpend).2.1
    have hpos := ownersOf_running hj
    omega
  · subst hact
    obtain ⟨j, fs, x, hop, hj, hx⟩ := hcause
    have husers : (s'.slot fd).conn = x.1 := users_process hop hj hx hin hst
    rw [husers]
    exact process_parses hx

omit [DecidableEq κ] in
theorem reads_start (users : ℤ → Conn) : Reads (State.start users : State κ) := by
  refine ⟨inv_start users, fun fd hw => ?_⟩
  rw [slot_start] at hw
  simp [Slot.WaitsFor] at hw

/-- **Requests in runs**, whose workers parse no negative length -/
theorem run_reads
    (hin : Run.Along (Server.step maxRequests) (fun s op => lengthsInside s op = true) (State.start users) ops)
    (h : Run.exec (Server.step maxRequests) (State.start users) ops = some s) : Reads s :=
  Run.exec_inv_along (fun _ _ _ hr hop hst => hr.step hop hst) (reads_start users) hin h

/-- **What the slots keep holds in all these runs of the server**, for operations that all meet `ok` -/
theorem run_slots {ok : State κ → Op κ → Prop} {P : ℤ → Slot → Prop}
    (h0 : ∀ fd, P fd ⟨users fd, .absent, false, [], [], 0⟩)
    (hstep : ∀ s op s' fd act, ok s op → contained s op → Server.step maxRequests s op = some s' →
      Cause maxRequests s op fd act → Own fd (s.slot fd) → P fd (s.slot fd) →
      SlotStep fd (s.slot fd) act (s'.slot fd) → P fd (s'.slot fd))
    (hin : Run.Along (Server.step maxRequests) (fun s op => lengthsInside s op = true) (State.start users) ops)
    (hok : Run.Along (Server.step maxRequests) ok (State.start users) ops)
    (h : Run.exec (Server.step maxRequests) (State.start users) ops = some s) : Reads s ∧ ∀ fd, P fd (s.slot fd) := by
  have hinit : Reads (State.start users : State κ) ∧ ∀ fd, P fd ((State.start users : State κ).slot fd) :=
    ⟨reads_start users, fun fd => by rw [slot_start]; exact h0 fd⟩
  refine Run.exec_inv_along (I := fun s : State κ => Reads s ∧ ∀ fd, P fd (s.slot fd)) ?_ hinit (hin.and hok) h
  rintro s op t ⟨hr, hp⟩ ⟨hop, hok⟩ hst
  have hc := hr.contained hop
  exact ⟨hr.step hop hst, slots_step hr.inv hc hst
    (fun fd act hcause hact => hstep s op t fd act hok hc hst hcause (hr.inv.slots fd) (hp fd) hact) hp⟩

/-! ## The end of the parser's loop -/

/-- **The loop of `processRead` in a worker.** In every state of these runs, for every worker that is in
`users[fd].process()`: the loop ends if and only if the bytes received neither make it spin nor write over memory in use. -/
theorem parsing_ends_iff
    (hin : Run.Along (Server.step maxRequests) (fun s op => lengthsInside s op = true) (State.start users) ops)
    (h : Run.exec (Server.step maxRequests) (State.start users) ops = some s) {j : κ} {fd : ℤ}
    (hj : s.pool.workers j = .running fd) :
    loopEnds (s.users fd).toReadSide ↔
      (s.users fd).toReadSide.spins = false ∧ (s.users fd).toReadSide.faulty = false :=
  ((run_reads hin h).steady hj).loopEnds_iff

/-- a client sends some bytes, and the only worker takes its request -/
def parseOps (bytes : Bytes) : List (Op Unit) := connect 5 ++ [.epollWait [.client 5 readable],
  .handle ⟨none, [.data bytes, .eagain], []⟩, .post, .wait (), .run ()]

/-- a whole request is there -/
def parseRun : Option (State Unit) := Run.exec (Server.step 1) (State.start fun _ => Conn.blank)
  (parseOps (ascii "GET / HTTP/1.1\r\nHost: a\r\n\r\n"))

theorem parseRun_isSome : parseRun.isSome = true := by decide +kernel

theorem parsing_ends_parseRun : (parseRun.get parseRun_isSome).pool.workers () = .running 5 ∧
    ((parseRun.get parseRun_isSome).users 5).toReadSide.spins = false ∧
    ((parseRun.get parseRun_isSome).users 5).toReadSide.faulty = false ∧
    loopEnds ((parseRun.get parseRun_isSome).users 5).toReadSide := by
  have hj : (parseRun.get parseRun_isSome).pool.workers () = .running 5 := by decide +kernel
  have hspins : ((parseRun.get parseRun_isSome).users 5).toReadSide.spins = false := by decide +kernel
  have hfaulty : ((parseRun.get parseRun_isSome).users 5).toReadSide.faulty = false := by decide +kernel
  exact ⟨hj, hspins, hfaulty,
    (parsing_ends_iff (by decide +kernel) (Option.some_get parseRun_isSome).symm hj).2 ⟨hspins, hfaulty⟩⟩

/-- two of the five bytes of the body are there -/
def spinRun : Option (State Unit) := Run.exec (Server.step 1) (State.start fun _ => Conn.blank)
  (parseOps (ascii "GET / HTTP/1.1\r\nContent-Length: 05\r\n\r\nab"))

theorem spinRun_isSome : spinRun.isSome = true := by decide +kernel

/-- **A request that takes a worker for ever.** -/
theorem parsing_spins : (spinRun.get spinRun_isSome).pool.workers () = .running 5 ∧
    ¬ loopEnds ((spinRun.get spinRun_isSome).users 5).toReadSide := by
  have hj : (spinRun.get spinRun_isSome).pool.workers () = .running 5 := by decide +kernel
  have hsteady := (run_reads (by decide +kernel) (Option.some_get spinRun_isSome).symm).steady hj
  refine ⟨hj, fun hends => ?_⟩
  have hnot := (hsteady.loopEnds_iff.1 hends).1
  have hspins : ((spinRun.get spinRun_isSome).users 5).toReadSide.spins = true := by decide +kernel
  exact absurd (hnot.symm.trans hspins) (by decide)

end WebServer.Server
