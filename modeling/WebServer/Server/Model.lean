/-
The server (webServer/main.cpp): the main loop over epoll batches, the array `users` of connection objects, and the
thread pool whose workers call `process`.

The main thread and the workers interleave arbitrarily through `step`:
- `epollWait`: a new batch. The kernel reports a descriptor at most once in a batch and only if it is armed, with the
  events it is armed for or a hang-up, and disarms it (EPOLLONESHOT);
- `handle`: the main loop's body for the next event of the batch, up to the locked section of `pool->append`, with the
  results of `accept`, `recv` and `writev` as an argument. `accept` never returns a descriptor that is open;
- `post`: the rest of `pool->append`; only then the main loop goes on;
- `wait`, `waitEarly`, `run`: a worker up to `request->process()`, as in `ThreadPool`;
- `process`: `users[fd].process()` in the worker that took it. Its last action is the `modfd` that arms the descriptor. A
  zero that its parser stores in front of the object goes into an object with a smaller descriptor (`storeOutside`). A
  `process` that writes over memory in use, or over memory in front of the array, has no next state.

A request in the pool is the descriptor `fd` of the pointer `users + fd`. The objects in `users` hold no lock: each
member function works on `users[fd]` and on the parts of the state that all connections share (`env`, `put`). The calls
that the functions of `users[fd]` make are collected in `logs fd`.

Left out: the set-up of the listening socket, the end of the main loop, and the bound of the array, which is as long as
the descriptors need.
-/
import WebServer.HttpConn.Conn
import WebServer.ThreadPool

namespace WebServer.Server

open WebServer.HttpConn WebServer.ThreadPool

/-! ## Data model -/

/-- MAX_FD -/
def maxFd : ℤ := 65535

/-- MAX_EVENT -/
def maxEvent : ℕ := 10000

/-- `epoll_event.events`, as far as the main loop looks at it -/
structure Events where
  /-- one of EPOLLRDHUP, EPOLLHUP and EPOLLERR -/
  hup : Bool
  epollIn : Bool
  epollOut : Bool
deriving DecidableEq, Repr

inductive Event where
  | listen
  | client (fd : ℤ) (events : Events)
deriving DecidableEq, Repr

structure State (κ : Type*) where
  users : ℤ → Conn
  epoll : ℤ → EpollItem
  opened : Finset ℤ
  userCount : ℤ
  logs : ℤ → List Call
  /-- events of the current batch that are not handled yet -/
  batch : List Event
  pool : Pool ℤ Unit κ

/-- what the kernel answers to the calls that one event leads to -/
structure Answers where
  /-- the result of `accept`, `none` for -1 -/
  accepted : Option ℤ
  recv : List Recv
  writev : List Writev

inductive Op (κ : Type*) where
  | epollWait (events : List Event)
  | handle (answers : Answers)
  | post
  | wait (j : κ)
  | waitEarly (j : κ)
  | run (j : κ)
  | process (j : κ) (fs : FileSystem)

variable {κ : Type*}

/-- the server before its first batch -/
def State.start (users : ℤ → Conn) : State κ := ⟨users, fun _ => .absent, ∅, 0, fun _ => [], [], Pool.init⟩

/-! ## The main loop -/

namespace State

/-- what the member functions of `users[fd]` see of the rest -/
def env (s : State κ) (fd : ℤ) : Env := ⟨s.epoll, s.opened, s.userCount, s.logs fd⟩

/-- `users[fd]` and the rest after a member function -/
def put (s : State κ) (fd : ℤ) (x : Conn × Env) : State κ :=
  { s with
    users := Function.update s.users fd x.1
    epoll := x.2.epoll
    opened := x.2.opened
    userCount := x.2.userCount
    logs := Function.update s.logs fd x.2.calls }

def setRead (s : State κ) (fd : ℤ) (r : ReadSide) : State κ :=
  { s with users := Function.update s.users fd ((s.users fd).setRead r) }

/-- `users[fd].close_conn()` -/
def close (s : State κ) (fd : ℤ) : State κ := s.put fd (closeConn (s.users fd) (s.env fd))

/-- the zero that the parser of `users[fd]` has stored in front of that object: the objects lie one behind the other -/
def storeOutside (s : State κ) (fd : ℤ) : Option (State κ) :=
  match (s.users fd).outside with
  | none => some s
  | some i =>
    let k := offsetOf .readBuffer + i.val
    let g := fd + k / objectSize
    if 0 ≤ g then
      ((s.users g).zeroAt (k % objectSize).toNat).map fun c =>
        { s with users := Function.update (Function.update s.users fd { s.users fd with outside := none }) g c }
    else none

/-- the kernel opens `fd` -/
def openFd (s : State κ) (fd : ℤ) : State κ := { s with opened := insert fd s.opened }

/-- a connection comes in; when there are MAX_FD of them, the new one is closed at once -/
def onAccept (accepted : Option ℤ) (s : State κ) : Option (State κ) :=
  match accepted with
  | none => some s
  | some fd =>
    if 0 ≤ fd ∧ fd ∉ s.opened then
      if s.userCount ≥ maxFd then some s
      else some ((s.openFd fd).put fd ((s.users fd).initConn fd ((s.openFd fd).env fd)))
    else none

end State

variable [DecidableEq κ]

namespace State

/-- EPOLLIN: the result of `pool->append` is ignored -/
def onReadable (maxRequests : ℕ) (fd : ℤ) (rs : List Recv) (s : State κ) : Option (State κ) :=
  match read rs (s.users fd).toReadSide with
  | some (true, r) =>
    match ThreadPool.step maxRequests s.pool (.append () (some fd)) with
    | some pool => some { s.setRead fd r with pool := pool }
    | none => none
  | some (false, r) => some ((s.setRead fd r).close fd)
  | none => none

/-- EPOLLOUT -/
def onWritable (fd : ℤ) (rs : List Writev) (s : State κ) : Option (State κ) :=
  match write rs (s.users fd) (s.env fd) with
  | some (true, x) => some (s.put fd x)
  | some (false, x) => some ((s.put fd x).close fd)
  | none => none

/-- the body of the loop over the batch -/
def onEvent (maxRequests : ℕ) (a : Answers) (s : State κ) : Event → Option (State κ)
  | .listen => s.onAccept a.accepted
  | .client fd ev =>
    if ev.hup then some (s.close fd)
    else if ev.epollIn then s.onReadable maxRequests fd a.recv
    else if ev.epollOut then s.onWritable fd a.writev
    else some s

end State

/-! ## Steps -/

/-- the events that an entry of the epoll set can report -/
def reports : EpollItem → Events → Bool
  | .armed .epollIn, ev => (ev.hup || ev.epollIn) && !ev.epollOut
  | .armed .epollOut, ev => (ev.hup || ev.epollOut) && !ev.epollIn
  | _, _ => false

def Event.fd : Event → Option ℤ
  | .listen => none
  | .client fd _ => some fd

def Event.reported (epoll : ℤ → EpollItem) : Event → Bool
  | .listen => true
  | .client fd ev => reports (epoll fd) ev

/-- a batch the kernel can return -/
def batchOk (epoll : ℤ → EpollItem) (events : List Event) : Prop :=
  events.length ≤ maxEvent ∧ (events.map Event.fd).Nodup ∧ ∀ ev ∈ events, ev.reported epoll = true

instance (epoll : ℤ → EpollItem) (events : List Event) : Decidable (batchOk epoll events) :=
  inferInstanceAs (Decidable (_ ∧ _))

/-- the epoll set after the events of a batch were delivered -/
def disarm (epoll : ℤ → EpollItem) (events : List Event) (fd : ℤ) : EpollItem :=
  if some fd ∈ events.map Event.fd then .disarmed else epoll fd

def setPool (s : State κ) : Option (Pool ℤ Unit κ) → Option (State κ)
  | some pool => some { s with pool := pool }
  | none => none

def step (maxRequests : ℕ) (s : State κ) : Op κ → Option (State κ)
  | .epollWait events =>
    if s.batch = [] ∧ s.pool.appenders () = .idle ∧ batchOk s.epoll events then
      some { s with batch := events, epoll := disarm s.epoll events }
    else none
  | .handle a =>
    match s.batch, s.pool.appenders () with
    | ev :: batch, .idle => State.onEvent maxRequests a { s with batch := batch } ev
    | _, _ => none
  | .post => setPool s (ThreadPool.step maxRequests s.pool (.post ()))
  | .wait j => setPool s (ThreadPool.step maxRequests s.pool (.wait j))
  | .waitEarly j => setPool s (ThreadPool.step maxRequests s.pool (.waitEarly j))
  | .run j => setPool s (ThreadPool.step maxRequests s.pool (.run j))
  | .process j fs =>
    match s.pool.workers j with
    | .running fd =>
      match HttpConn.process fs (s.users fd) (s.env fd) with
      | none | some (.undefined, _) => none
      | some (_, x) =>
        match (s.put fd x).storeOutside fd with
        | some t => setPool t (ThreadPool.step maxRequests s.pool (.finish j))
        | none => none
    | _ => none

/-! ## What one step does -/

omit [DecidableEq κ] in
theorem setPool_some {s s' : State κ} {pool : Option (Pool ℤ Unit κ)} (h : setPool s pool = some s') :
    ∃ p, pool = some p ∧ s' = { s with pool := p } := by
  cases pool with
  | none => cases h
  | some p => exact ⟨p, rfl, (Option.some.inj h).symm⟩

theorem step_epollWait {maxRequests : ℕ} {s s' : State κ} {events : List Event}
    (h : step maxRequests s (.epollWait events) = some s') :
    s.batch = [] ∧ batchOk s.epoll events ∧ s' = { s with batch := events, epoll := disarm s.epoll events } := by
  simp only [step] at h
  split_ifs at h with hok
  exact ⟨hok.1, hok.2.2, (Option.some.inj h).symm⟩

theorem step_handle {maxRequests : ℕ} {s s' : State κ} {a : Answers} (h : step maxRequests s (.handle a) = some s') :
    ∃ ev batch, s.batch = ev :: batch ∧ State.onEvent maxRequests a { s with batch := batch } ev = some s' := by
  simp only [step] at h
  split at h
  · rename_i ev batch hb hidle
    exact ⟨ev, batch, hb, h⟩
  · cases h

omit [DecidableEq κ] in
theorem storeOutside_none {s : State κ} {fd : ℤ} (h : (s.users fd).outside = none) : s.storeOutside fd = some s := by
  unfold State.storeOutside
  rw [h]

omit [DecidableEq κ] in
/-- only the objects change -/
theorem storeOutside_users {s t : State κ} {fd : ℤ} (h : s.storeOutside fd = some t) :
    ∃ users, t = { s with users := users } := by
  unfold State.storeOutside at h
  split at h
  · exact ⟨s.users, (Option.some.inj h).symm⟩
  · dsimp only at h
    split_ifs at h
    obtain ⟨c, -, rfl⟩ := Option.map_eq_some_iff.1 h
    exact ⟨_, rfl⟩

theorem step_process {maxRequests : ℕ} {s s' : State κ} {j : κ} {fs : FileSystem}
    (h : step maxRequests s (.process j fs) = some s') :
    ∃ fd code x t p, s.pool.workers j = .running fd ∧
      HttpConn.process fs (s.users fd) (s.env fd) = some (code, x) ∧ code ≠ .undefined ∧
      (s.put fd x).storeOutside fd = some t ∧ ThreadPool.step maxRequests s.pool (.finish j) = some p ∧
      s' = { t with pool := p } := by
  simp only [step] at h
  split at h
  · rename_i fd hj
    split at h
    · cases h
    · cases h
    · rename_i code x hdef hx
      split at h
      · rename_i t ht
        obtain ⟨p, hp, rfl⟩ := setPool_some h
        exact ⟨fd, code, x, t, p, hj, hx, hdef, ht, hp, rfl⟩
      · cases h
  · cases h

theorem process_step {maxRequests : ℕ} {s t : State κ} {j : κ} {fs : FileSystem} {fd : ℤ} {code : HttpCode}
    {x : Conn × Env} {p : Pool ℤ Unit κ} (hj : s.pool.workers j = .running fd)
    (hx : HttpConn.process fs (s.users fd) (s.env fd) = some (code, x)) (hdef : code ≠ .undefined)
    (ht : (s.put fd x).storeOutside fd = some t) (hp : ThreadPool.step maxRequests s.pool (.finish j) = some p) :
    step maxRequests s (.process j fs) = some { t with pool := p } := by
  simp only [step, hj]
  rw [hx]
  cases code <;> first | exact absurd rfl hdef | simp only [ht, hp, setPool]

/-! ## Events of a client -/

/-- a client connects -/
def connect (fd : ℤ) : List (Op Unit) := [.epollWait [.listen], .handle ⟨some fd, [], []⟩]

def readable : Events := ⟨false, true, false⟩

def writable : Events := ⟨false, false, true⟩

end WebServer.Server
