/-
The threads of the server go on.

- `close_main_only`: `process` never closes a connection, so the main thread alone changes `userCount`, which no lock
  protects; unless a negative length changes the descriptor in the object.
- `Idle`: no event is left, nothing is queued, and every worker waits.
- `Returns`: the bytes received lead out of the parser's loop, and it stays inside its `readBuffer`.
- `settles`: without new events the threads take a bounded number of steps, and then the server is idle.
- `progress_iff`: in every state of every run without negative lengths, if the requests that workers have return, some
  thread can go on unless the server is idle; and then every open connection that found room in the queue is armed.
-/
import WebServer.Server.Alone
import WebServer.Server.Requests

namespace WebServer.Server

open WebServer.HttpConn WebServer.ThreadPool

section Runs

variable {κ : Type*} [DecidableEq κ] [Fintype κ] {maxRequests : ℕ} {users : ℤ → Conn} {ops : List (Op κ)} {s : State κ}

/-- **Only the main thread closes connections.** In every state of every run without negative lengths, `process` in a
worker leaves the open descriptors and `userCount` as they are, and its connection open. -/
theorem close_main_only
    (hin : Run.Along (Server.step maxRequests) (fun s op => lengthsInside s op = true) (State.start users) ops)
    (h : Run.exec (Server.step maxRequests) (State.start users) ops = some s) {j : κ} {fd : ℤ} {fs : FileSystem}
    {code : HttpCode} {c : Conn} {e : Env} (hj : s.pool.workers j = .running fd) (hlen : 0 ≤ (s.users fd).bodyLength)
    (hx : HttpConn.process fs (s.users fd) (s.env fd) = some (code, c, e)) (hdef : code ≠ .undefined) :
    e.opened = s.opened ∧ e.userCount = s.userCount ∧ fd ∈ e.opened ∧ c.sockfd = fd := by
  have hs := run_serving hin h
  obtain ⟨hend, -⟩ := ((hs.steady hj).contained hlen).process_end hx hdef
  obtain ⟨hopen, hopened, hcount, hsock⟩ := hs.process_keeps hj hend
  exact ⟨hopened, hcount, hopened ▸ hopen, hsock⟩

/-! ## Who can go on -/

/-- operations of threads that have something to do; a new batch needs an event, and an early end of `wait` a signal -/
def Op.goesOn : Op κ → Bool
  | .epollWait _ | .waitEarly _ => false
  | _ => true

structure Idle (s : State κ) : Prop where
  batch : s.batch = []
  main : s.pool.appenders () = .idle
  queue : s.pool.workQueue = []
  units : s.pool.queueStat = 0
  workers : ∀ j, s.pool.workers j = .waiting

omit [Fintype κ] in
/-- nobody can go on in an idle server -/
theorem Idle.stops (h : Idle s) {op : Op κ} (hop : op.goesOn = true) : Server.step maxRequests s op = none := by
  cases op with
  | epollWait events => cases hop
  | waitEarly j => cases hop
  | handle a => simp only [Server.step, h.batch]
  | post => simp only [Server.step, ThreadPool.step, h.main, setPool]
  | wait j => simp only [Server.step, ThreadPool.step, h.workers j, h.units, setPool]
  | run j => simp only [Server.step, ThreadPool.step, h.workers j, setPool]
  | process j fs => simp only [Server.step, h.workers j]

omit [Fintype κ] in
/-- the locked section of `append` is always possible -/
theorem append_possible (maxRequests : ℕ) {pool : Pool ℤ Unit κ} (hidle : pool.appenders () = .idle) (request : Option ℤ) :
    ∃ p, ThreadPool.step maxRequests pool (.append () request) = some p := by
  simp only [ThreadPool.step, hidle]
  split
  · exact ⟨_, rfl⟩
  · exact ⟨_, rfl⟩

omit [Fintype κ] in
/-- the kernel has answers with which the main loop gets through any event -/
theorem event_answers (maxRequests : ℕ) {t : State κ} (hidle : t.pool.appenders () = .idle) (ev : Event) :
    ∃ a s', State.onEvent maxRequests a t ev = some s' := by
  cases ev with
  | listen => exact ⟨⟨none, [], []⟩, t, rfl⟩
  | client fd ev =>
    refine ⟨⟨none, [.eagain], [.error]⟩, ?_⟩
    simp only [State.onEvent]
    split_ifs
    · exact ⟨_, rfl⟩
    · unfold State.onReadable
      by_cases hfull : (t.users fd).readIndex ≥ readBufferSize
      · simp only [HttpConn.read, if_pos hfull]
        exact ⟨_, rfl⟩
      · obtain ⟨p, hp⟩ := append_possible maxRequests hidle (some fd)
        simp only [HttpConn.read, if_neg hfull, readLoop, hp]
        exact ⟨_, rfl⟩
    · unfold State.onWritable HttpConn.write
      by_cases hzero : (t.users fd).bytesToSend = 0
      · simp only [if_pos hzero]
        exact ⟨_, rfl⟩
      · simp only [if_neg hzero, writeLoop]
        exact ⟨_, rfl⟩
    · exact ⟨_, rfl⟩

/-- the loop of `processRead` ends, and nothing in front of `readBuffer` or in use is written over -/
structure Returns (r : ReadSide) : Prop where
  ends : r.spins = false
  sound : r.faulty = false
  inside : 0 ≤ r.bodyLength

theorem process_returns (fs : FileSystem) {c : Conn} (e : Env) {code : HttpCode} {r : ReadSide}
    (h : processReadLoop loopRounds .lineOk c.toReadSide = some (code, r)) (hdef : code ≠ .undefined) :
    ∃ y, HttpConn.process fs c e = some y ∧ y.1 ≠ .undefined := by
  rcases processReadLoop_code h with hc | hc | hc | hc <;> obtain rfl : code = _ := hc
  · exact ⟨_, process_noRequest h, nofun⟩
  · have hread : processRead fs c e = some (.badRequest, c.setRead r, e) := by
      unfold processRead
      rw [h]
    unfold HttpConn.process
    rw [hread]
    dsimp only
    split_ifs <;> exact ⟨_, rfl, nofun⟩
  · obtain ⟨c', e', hproc, -⟩ := process_getRequest fs e h
    refine ⟨_, hproc, fun hc => ?_⟩
    have hanswered := resourceCode_answered fs ((buildPath (c.setRead r)).cstr 0)
    rw [show resourceCode fs ((buildPath (c.setRead r)).cstr 0) = .undefined from hc] at hanswered
    cases hanswered
  · exact absurd rfl hdef

/-- such a request takes the worker through `process` -/
theorem Returns.step {j : κ} {fd : ℤ} (h : Returns (s.users fd).toReadSide) (hs : Reads s)
    (hj : s.pool.workers j = .running fd) (fs : FileSystem) :
    (Server.step maxRequests s (.process j fs)).isSome = true := by
  have hsteady := hs.steady hj
  obtain ⟨fuel, code, r, hloop, hdef⟩ := hsteady.loopEnds_iff.2 ⟨h.ends, h.sound⟩
  obtain ⟨⟨code, x⟩, hx, hdef⟩ := process_returns fs (s.env fd) (processReadLoop_enough hsteady.inv hloop) hdef
  obtain ⟨-, hout⟩ := (hsteady.contained h.inside).process_end hx hdef
  have hstore : (s.put fd x).storeOutside fd = some (s.put fd x) := storeOutside_none (by simpa [State.put] using hout)
  have hfinish : (ThreadPool.step maxRequests s.pool (.finish j)).isSome = true := by
    simp only [ThreadPool.step, hj, Option.isSome_some]
  obtain ⟨p, hp⟩ := Option.isSome_iff_exists.1 hfinish
  rw [process_step hj hx hdef hstore hp]
  rfl

omit [Fintype κ] in
theorem can_go (op : Op κ) (hop : op.goesOn = true) (h : (Server.step maxRequests s op).isSome = true) :
    ∃ op s', op.goesOn = true ∧ Server.step maxRequests s op = some s' := by
  obtain ⟨s', hs⟩ := Option.isSome_iff_exists.1 h
  exact ⟨op, s', hop, hs⟩

/-- a server that is not idle has a thread that can go on, if it is not a worker in `process` -/
theorem goes_on_or_running [Nonempty κ] (h : Run.exec (Server.step maxRequests) (State.start users) ops = some s)
    (hbusy : ¬ Idle s) :
    (∃ op s', op.goesOn = true ∧ Server.step maxRequests s op = some s') ∨ ∃ j fd, s.pool.workers j = .running fd := by
  cases hmain : s.pool.appenders () with
  | pushed =>
    refine Or.inl (can_go .post rfl ?_)
    simp only [Server.step, ThreadPool.step, hmain, setPool, Option.isSome_some]
  | idle =>
    cases hbatch : s.batch with
    | cons ev batch =>
      obtain ⟨a, s', hev⟩ := event_answers maxRequests (t := { s with batch := batch }) hmain ev
      refine Or.inl ⟨.handle a, s', rfl, ?_⟩
      simp only [Server.step, hbatch, hmain]
      exact hev
    | nil =>
      by_cases hall : ∀ j, s.pool.workers j = .waiting
      · -- everybody waits: there is a unit of the semaphore, or the server is idle
        obtain ⟨j⟩ := ‹Nonempty κ›
        cases hunits : s.pool.queueStat with
        | succ n =>
          refine Or.inl (can_go (.wait j) rfl ?_)
          simp only [Server.step, ThreadPool.step, hall j, hunits, setPool, Option.isSome_some]
        | zero =>
          have hqueue : s.pool.workQueue = [] := by
            by_contra hne
            have hpos := (run_pool h).awake hne hall fun _ => hmain
            omega
          exact absurd ⟨hbatch, hmain, hqueue, hunits, hall⟩ hbusy
      · obtain ⟨j, hj⟩ := not_forall.1 hall
        cases hworker : s.pool.workers j with
        | waiting => exact absurd hworker hj
        | woken taken =>
          cases hqueue : s.pool.workQueue with
          | nil =>
            refine Or.inl (can_go (.run j) rfl ?_)
            simp only [Server.step, ThreadPool.step, hworker, hqueue, setPool, Option.isSome_some]
          | cons request rest =>
            refine Or.inl (can_go (.run j) rfl ?_)
            simp only [Server.step, ThreadPool.step, hworker, hqueue, setPool, Option.isSome_some]
        | running fd => exact Or.inr ⟨j, fd, hworker⟩

/-- a server that is not idle has a thread that can go on, if the requests that workers have lead out of the parser -/
theorem goes_on [Nonempty κ]
    (hin : Run.Along (Server.step maxRequests) (fun s op => lengthsInside s op = true) (State.start users) ops)
    (h : Run.exec (Server.step maxRequests) (State.start users) ops = some s)
    (hends : ∀ j fd, s.pool.workers j = .running fd → Returns (s.users fd).toReadSide) (hbusy : ¬ Idle s) :
    ∃ op s', op.goesOn = true ∧ Server.step maxRequests s op = some s' := by
  rcases goes_on_or_running h hbusy with hgo | ⟨j, fd, hj⟩
  · exact hgo
  · exact can_go (.process j (plainFiles 0)) rfl ((hends j fd hj).step (run_reads hin h) hj _)

/-- **The server goes on.** In every state of every run, without negative lengths, of a server with at least one worker:
if the requests that workers have lead out of the parser, some thread can go on, without a new event, if and only if the
server is not idle. And in an idle server every open connection is armed, if all requests found room in the queue. -/
theorem progress_iff [Nonempty κ]
    (hin : Run.Along (Server.step maxRequests) (fun s op => lengthsInside s op = true) (State.start users) ops)
    (h : Run.exec (Server.step maxRequests) (State.start users) ops = some s)
    (hends : ∀ j fd, s.pool.workers j = .running fd → Returns (s.users fd).toReadSide) :
    ((∃ op s', op.goesOn = true ∧ Server.step maxRequests s op = some s') ↔ ¬ Idle s) ∧
    (Run.Along (Server.step maxRequests) (fun s op => findsRoom maxRequests s op = true) (State.start users) ops →
      Idle s → ∀ fd ∈ s.opened, ∃ ev, s.epoll fd = .armed ev) := by
  refine ⟨⟨?_, goes_on hin h hends⟩, ?_⟩
  · rintro ⟨op, s', hop, hstep⟩ hidle
    rw [hidle.stops hop] at hstep
    cases hstep
  · intro hroom hidle fd hopen
    obtain ⟨-, hkept⟩ := run_slots (P := fun fd => Kept (users fd)) (fun fd => ⟨fun h0 _ => h0, nofun, nofun⟩)
      (fun _ _ _ _ _ hok _ _ hcause _ hk hstep => hk.step hstep (not_drop hok hcause)) hin hroom h
    rcases attended_of_places ((hkept fd).place (decide_eq_true hopen)) with harmed | ⟨ev, hev⟩ | hq | ⟨j, hj⟩
    · exact harmed
    · rw [hidle.batch] at hev
      cases hev
    · rw [hidle.queue] at hq
      cases hq
    · rw [hidle.workers j] at hj
      cases hj

/-! ## How long they go on -/

/-- what a worker has yet to do -/
def stage : Worker ℤ → ℕ
  | .waiting => 0
  | _ => 1

theorem stage_waiting : stage .waiting = 0 := rfl

theorem stage_woken (taken : Bool) : stage (.woken taken) = 1 := rfl

theorem stage_running (fd : ℤ) : stage (.running fd) = 1 := rfl

/-- the steps that the pool can still take: a unit of the semaphore makes a worker wait and look, a push needs a post -/
def poolWork (pool : Pool ℤ Unit κ) : ℕ :=
  pool.workQueue.length + 2 * pool.queueStat + (if pool.appenders () = .pushed then 3 else 0) +
    ∑ j, stage (pool.workers j)

/-- the steps that the server can still take without a new event -/
def work (s : State κ) : ℕ := 5 * s.batch.length + poolWork s.pool

theorem stage_setWorker (pool : Pool ℤ Unit κ) (j : κ) (w : Worker ℤ) :
    (∑ i, stage ((pool.setWorker j w).workers i)) + stage (pool.workers j) = (∑ i, stage (pool.workers i)) + stage w :=
  Run.sum_update pool.workers j w stage

theorem poolWork_setWorker (pool : Pool ℤ Unit κ) (j : κ) (w : Worker ℤ) :
    poolWork (pool.setWorker j w) + stage (pool.workers j) = poolWork pool + stage w := by
  have hsum := stage_setWorker pool j w
  have hsplit : poolWork (pool.setWorker j w) = pool.workQueue.length + 2 * pool.queueStat +
      (if pool.appenders () = .pushed then 3 else 0) + ∑ i, stage ((pool.setWorker j w).workers i) := rfl
  rw [hsplit, poolWork]
  omega

theorem poolWork_append {pool pool' : Pool ℤ Unit κ} {request : Option ℤ}
    (h : ThreadPool.step maxRequests pool (.append () request) = some pool') : poolWork pool' ≤ poolWork pool + 4 := by
  obtain ⟨hidle, ⟨-, rfl⟩ | ⟨-, rfl⟩⟩ := step_append h
  · exact Nat.le_add_right _ _
  · simp [poolWork, Pool.setAppender, hidle]
    omega

theorem poolWork_post {pool pool' : Pool ℤ Unit κ} (h : ThreadPool.step maxRequests pool (.post ()) = some pool') :
    poolWork pool' < poolWork pool := by
  obtain ⟨hpushed, rfl⟩ := step_post h
  simp [poolWork, Pool.setAppender, hpushed]
  omega

theorem poolWork_wait {pool pool' : Pool ℤ Unit κ} {j : κ}
    (h : ThreadPool.step maxRequests pool (.wait j) = some pool') : poolWork pool' < poolWork pool := by
  obtain ⟨hj, n, hn, rfl⟩ := step_wait h
  have hsum := stage_setWorker pool j (.woken true)
  rw [hj, stage_waiting, stage_woken] at hsum
  simp only [poolWork, hn, Pool.setWorker] at hsum ⊢
  omega

theorem poolWork_run {pool pool' : Pool ℤ Unit κ} {j : κ}
    (h : ThreadPool.step maxRequests pool (.run j) = some pool') : poolWork pool' < poolWork pool := by
  obtain ⟨taken, hj, ⟨hq, rfl⟩ | ⟨request, rest, hq, rfl⟩⟩ := step_run h
  · have hwork := poolWork_setWorker pool j .waiting
    rw [hj, stage_waiting, stage_woken] at hwork
    omega
  · have hsum := stage_setWorker pool j (handOut request)
    have hle : stage (handOut request) ≤ 1 := by cases request <;> simp [handOut, stage]
    rw [hj, stage_woken] at hsum
    simp only [poolWork, Pool.setWorker, hq, List.length_cons] at hsum ⊢
    omega

theorem poolWork_finish {pool pool' : Pool ℤ Unit κ} {j : κ}
    (h : ThreadPool.step maxRequests pool (.finish j) = some pool') : poolWork pool' < poolWork pool := by
  obtain ⟨request, hj, rfl⟩ := step_finish h
  have hwork := poolWork_setWorker pool j .waiting
  rw [hj, stage_waiting, stage_running] at hwork
  omega

/-- an event costs at most one push -/
theorem poolWork_event {t s' : State κ} {a : Answers} {ev : Event} (h : State.onEvent maxRequests a t ev = some s') :
    s'.batch = t.batch ∧ poolWork s'.pool ≤ poolWork t.pool + 4 := by
  have hsame : poolWork t.pool ≤ poolWork t.pool + 4 := Nat.le_add_right _ _
  cases ev with
  | listen =>
    simp only [State.onEvent, State.onAccept] at h
    split at h
    · cases h
      exact ⟨rfl, hsame⟩
    · split_ifs at h <;> cases h <;> exact ⟨rfl, hsame⟩
  | client fd ev =>
    simp only [State.onEvent] at h
    split_ifs at h
    · cases h
      exact ⟨rfl, hsame⟩
    · unfold State.onReadable at h
      split at h
      · split at h
        · rename_i p hp
          cases h
          exact ⟨rfl, poolWork_append hp⟩
        · cases h
      · cases h
        exact ⟨rfl, hsame⟩
      · cases h
    · unfold State.onWritable at h
      split at h
      · cases h
        exact ⟨rfl, hsame⟩
      · cases h
        exact ⟨rfl, hsame⟩
      · cases h
    · cases h
      exact ⟨rfl, hsame⟩

/-- every step without a new event leaves less to do -/
theorem work_step {s' : State κ} {op : Op κ} (hop : op.goesOn = true) (h : Server.step maxRequests s op = some s') :
    work s' < work s := by
  cases op with
  | epollWait events => cases hop
  | waitEarly j => cases hop
  | handle a =>
    obtain ⟨ev, batch, hb, hev⟩ := step_handle h
    obtain ⟨hbatch, hpool⟩ := poolWork_event hev
    unfold work
    rw [hbatch, hb, List.length_cons]
    dsimp only at hpool ⊢
    omega
  | post =>
    obtain ⟨p, hp, rfl⟩ := setPool_some h
    exact Nat.add_lt_add_left (poolWork_post hp) _
  | wait j =>
    obtain ⟨p, hp, rfl⟩ := setPool_some h
    exact Nat.add_lt_add_left (poolWork_wait hp) _
  | run j =>
    obtain ⟨p, hp, rfl⟩ := setPool_some h
    exact Nat.add_lt_add_left (poolWork_run hp) _
  | process j fs =>
    obtain ⟨fd, code, x, t, p, -, -, -, ht, hp, rfl⟩ := step_process h
    obtain ⟨users, rfl⟩ := storeOutside_users ht
    exact Nat.add_lt_add_left (poolWork_finish hp) _

/-- **The server settles.** From every state that the server can reach, and without new events, the threads together take
at most `work` more steps, in whatever order they run. When none of them can take another one, the server is idle or a
worker is in `process`; and if no length is negative in the run and the requests that workers have lead out of the parser,
the server is idle. -/
theorem settles [Nonempty κ] {more : List (Op κ)} {s' : State κ}
    (h : Run.exec (Server.step maxRequests) (State.start users) ops = some s) (hmore : ∀ op ∈ more, op.goesOn = true)
    (h' : Run.exec (Server.step maxRequests) s more = some s') :
    more.length ≤ work s ∧
      ((∀ op, op.goesOn = true → Server.step maxRequests s' op = none) →
        (Idle s' ∨ ∃ j fd, s'.pool.workers j = .running fd) ∧
        (Run.Along (Server.step maxRequests) (fun s op => lengthsInside s op = true) (State.start users) (ops ++ more) →
          (∀ j fd, s'.pool.workers j = .running fd → Returns (s'.users fd).toReadSide) → Idle s')) := by
  have hlength : more.length + work s' ≤ work s :=
    Run.exec_length_le (fun _ _ _ hop hstep => work_step hop hstep) hmore h'
  have hrun : Run.exec (Server.step maxRequests) (State.start users) (ops ++ more) = some s' := by
    rw [Run.exec_append h, h']
  refine ⟨Nat.le_of_add_right_le hlength, fun hstop => ?_⟩
  have hstuck : ¬ ∃ op t, op.goesOn = true ∧ Server.step maxRequests s' op = some t := by
    rintro ⟨op, t, hop, hstep⟩
    rw [hstop op hop] at hstep
    cases hstep
  refine ⟨?_, fun hin hends => ?_⟩
  · by_contra hnot
    obtain ⟨hbusy, hnone⟩ := not_or.1 hnot
    exact (goes_on_or_running hrun hbusy).elim hstuck hnone
  · by_contra hbusy
    exact hstuck (goes_on hin hrun hends hbusy)

end Runs

/-- the worker that has a whole request goes on -/
theorem progress_iff_parseRun : ((∃ op s', op.goesOn = true ∧
      Server.step 1 (parseRun.get parseRun_isSome) op = some s') ↔ ¬ Idle (parseRun.get parseRun_isSome)) ∧
    (Run.Along (Server.step 1) (fun s op => findsRoom 1 s op = true) (State.start fun _ => Conn.blank)
        (parseOps (ascii "GET / HTTP/1.1\r\nHost: a\r\n\r\n")) →
      Idle (parseRun.get parseRun_isSome) → ∀ fd ∈ (parseRun.get parseRun_isSome).opened,
        ∃ ev, (parseRun.get parseRun_isSome).epoll fd = .armed ev) := by
  have hworker : (parseRun.get parseRun_isSome).pool.workers () = .running 5 := by decide +kernel
  refine progress_iff (by decide +kernel) (Option.some_get parseRun_isSome).symm fun j fd hj => ?_
  obtain rfl : fd = 5 := Worker.running.inj (hj.symm.trans hworker)
  exact ⟨by decide +kernel, by decide +kernel, by decide +kernel⟩

/-- the request is parsed; nobody but the client has anything to do then -/
def settledRun : Option (State Unit) :=
  Run.exec (Server.step 1) (parseRun.get parseRun_isSome) [.process () (plainFiles 10)]

theorem settledRun_isSome : settledRun.isSome = true := by decide +kernel

theorem settles_parseRun : [Op.process () (plainFiles 10)].length ≤ work (parseRun.get parseRun_isSome) ∧
    ((∀ op, op.goesOn = true → Server.step 1 (settledRun.get settledRun_isSome) op = none) →
      Idle (settledRun.get settledRun_isSome)) := by
  have hworker : (settledRun.get settledRun_isSome).pool.workers () = .waiting := by decide +kernel
  obtain ⟨hlength, hidle⟩ := settles (Option.some_get parseRun_isSome).symm (by simp [Op.goesOn])
    (Option.some_get settledRun_isSome).symm
  refine ⟨hlength, fun hstop => (hidle hstop).1.resolve_right ?_⟩
  rintro ⟨j, fd, hj⟩
  cases hworker.symm.trans hj

def parsedRequest : Option (HttpCode × Conn × Env) :=
  HttpConn.process (plainFiles 10) ((parseRun.get parseRun_isSome).users 5) ((parseRun.get parseRun_isSome).env 5)

theorem parsedRequest_isSome : parsedRequest.isSome = true := by decide +kernel

theorem close_main_only_parseRun :
    (parsedRequest.get parsedRequest_isSome).2.2.opened = (parseRun.get parseRun_isSome).opened ∧
      (parsedRequest.get parsedRequest_isSome).2.2.userCount = (parseRun.get parseRun_isSome).userCount ∧
      5 ∈ (parsedRequest.get parsedRequest_isSome).2.2.opened ∧
      (parsedRequest.get parsedRequest_isSome).2.1.sockfd = 5 :=
  have hworker : (parseRun.get parseRun_isSome).pool.workers () = .running 5 := by decide +kernel
  close_main_only (by decide +kernel) (Option.some_get parseRun_isSome).symm hworker (by decide +kernel)
    (Option.some_get parsedRequest_isSome).symm (by decide +kernel)

end WebServer.Server
