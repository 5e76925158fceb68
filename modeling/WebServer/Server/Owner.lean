/-
Who may touch a connection.

The objects in `users` have no lock. A connection is handed from place to place instead: armed in epoll, in the batch of
the main loop, in the queue or in the hands of a worker. All this is about runs in which no request announces a negative
length, since the parser of such a request stores into other objects.

- `one_owner`: a connection is never in two places, and only open connections are in any.
- `owner_overwritten`: with a negative length, a client takes the descriptor out of an object that is in the queue.
- `attended`: as long as every request finds room in the queue, an open connection is always in one of the places.
- `orphan_fullQueue`: a request that finds the queue full is dropped, and its connection stays open, unarmed and
  unattended.
-/
import WebServer.Server.Requests

namespace WebServer.Server

open WebServer.HttpConn WebServer.ThreadPool

section Runs

variable {κ : Type*} [Fintype κ] [DecidableEq κ] {maxRequests : ℕ} {users : ℤ → Conn} {ops : List (Op κ)} {s : State κ}

omit [Fintype κ] [DecidableEq κ] in
theorem pendingFor_pos {fd : ℤ} {ev : Events} (h : .client fd ev ∈ s.batch) : pendingFor fd s.batch ≠ [] := by
  intro hn
  have := List.filterMap_eq_nil_iff.1 hn _ h
  simp [Event.toward] at this

/-- **At most one owner.** In every state of every run without negative lengths: the pointer `users + fd` occurs at most
once in the queue and the workers' hands together, and while it occurs there `fd` is not armed, has no event in the batch,
and is open. The objects of open connections have their descriptor, and `userCount` is the number of open connections. -/
theorem one_owner
    (hin : Run.Along (Server.step maxRequests) (fun s op => lengthsInside s op = true) (State.start users) ops)
    (h : Run.exec (Server.step maxRequests) (State.start users) ops = some s) :
    (∀ fd, ownersOf s.pool fd ≤ 1 ∧ (0 < ownersOf s.pool fd → (∀ ev, s.epoll fd ≠ .armed ev) ∧
      (∀ ev, .client fd ev ∉ s.batch) ∧ fd ∈ s.opened ∧ (s.users fd).sockfd = fd)) ∧
    (∀ fd ∈ s.opened, (s.users fd).sockfd = fd) ∧ s.userCount = s.opened.card := by
  have hi := (run_reads hin h).inv
  refine ⟨fun fd => ?_, fun fd hin => ((hi.slots fd).sock (decide_eq_true hin)).1, hi.count⟩
  · have hone := (hi.slots fd).one
    change ownersOf s.pool fd + (pendingFor fd s.batch).length + isArmed (s.epoll fd) ≤ 1 at hone
    refine ⟨by omega, fun hpos => ⟨fun ev hev => ?_, fun ev hev => ?_, ?_⟩⟩
    · rw [hev] at hone
      simp only [isArmed] at hone
      omega
    · have := List.length_pos_iff.2 (pendingFor_pos hev)
      omega
    · have hplaces : 0 < (s.slot fd).places := by
        show 0 < ownersOf s.pool fd + _ + _
        omega
      obtain ⟨hin, hsock, -⟩ := hi.live hplaces
      exact ⟨hin, hsock⟩

/-- the next event of the batch: the beginning of a request, which goes to the pool -/
def arrive : Op Unit := .handle ⟨none, [.data (ascii "GET"), .eagain], []⟩

/-- a client whose request is taken by the only worker -/
def takenOps : List (Op Unit) := connect 5 ++ [.epollWait [.client 5 readable], arrive, .post, .wait (), .run ()]

def takenRun : Option (State Unit) := Run.exec (Server.step 1) (State.start fun _ => Conn.blank) takenOps

theorem takenRun_isSome : takenRun.isSome = true := by decide +kernel

theorem one_owner_takenRun : (takenRun.get takenRun_isSome).userCount = (takenRun.get takenRun_isSome).opened.card :=
  (one_owner (by decide +kernel) (Option.some_get takenRun_isSome).symm).2.2

/-- clients 5 and 6 are in the queue when the worker parses the request of 6. The body starts at 52, so that its zero goes
to the first byte of the object before `users[6]` -/
def overwrittenOps : List (Op Unit) := connect 5 ++ connect 6 ++
  [.epollWait [.client 6 readable, .client 5 readable],
    .handle ⟨none, [.data (ascii "GET /index.html HTTP/1.1\r\nContent-Length: -04648\r\n\r\n"), .eagain], []⟩, .post,
    arrive, .post, .wait (), .run (), .process () (plainFiles 10)]

def overwrittenRun : Option (State Unit) :=
  Run.exec (Server.step 1) (State.start fun _ => Conn.blank) overwrittenOps

theorem overwrittenRun_isSome : overwrittenRun.isSome = true := by decide +kernel

/-- **A negative length.** A connection is in the queue, and its object has lost the descriptor. -/
theorem owner_overwritten : 0 < ownersOf (overwrittenRun.get overwrittenRun_isSome).pool 5 ∧
    ((overwrittenRun.get overwrittenRun_isSome).users 5).sockfd = 0 := by
  decide +kernel

/-! ## Nobody waits in vain -/

/-- some part of the program will look at `fd` -/
def Attended (s : State κ) (fd : ℤ) : Prop :=
  (∃ ev, s.epoll fd = .armed ev) ∨ (∃ ev, .client fd ev ∈ s.batch) ∨ some fd ∈ s.pool.workQueue ∨
    ∃ j, s.pool.workers j = .running fd

/-- a request that is read finds room in the queue -/
def findsRoom (maxRequests : ℕ) (s : State κ) : Op κ → Bool
  | .handle a =>
    match s.batch with
    | .client fd ev :: _ =>
      if ev.hup = false ∧ ev.epollIn = true ∧ (read a.recv (s.users fd).toReadSide).map Prod.fst = some true then
        decide (s.pool.workQueue.length ≤ maxRequests)
      else true
    | _ => true
  | _ => true

/-- an open slot is in a place, pending events say what they are, and a closed slot is marked, if it was at the start -/
structure Kept (start : Conn) (v : Slot) : Prop where
  closed : start.sockfd = -1 → v.opened = false → v.conn.sockfd = -1
  place : v.opened = true → 0 < v.places
  event : ∀ ev ∈ v.pending, ev.hup = true ∨ ev.epollIn = true ∨ ev.epollOut = true

theorem reports_event {item : EpollItem} {ev : Events} (h : reports item ev = true) :
    ev.hup = true ∨ ev.epollIn = true ∨ ev.epollOut = true := by
  obtain ⟨a, b, c⟩ := ev
  cases a <;> cases b <;> cases c <;> simp_all [reports]
  cases item with
  | armed i => cases i <;> simp at h
  | _ => simp at h

theorem SlotStep.closed {fd : ℤ} {v v' : Slot} {act : Act} (hstep : SlotStep fd v act v')
    (h : v.opened = false → v.conn.sockfd = -1) (hc : v'.opened = false) : v'.conn.sockfd = -1 := by
  cases hstep with
  | accept => cases hc
  | hangup | readClose | sendClose | refuses => rfl
  | sendBlocked hp hev hs hb => exact hs.sockfd.trans (h hc)
  | sendKept hp hev hs => exact hs.sockfd.trans (h hc)
  | answers ho hq hw => exact ((processWrite_kept _ _).sockfd.trans hq.sockfd).trans (h hc)
  | deliver | enqueue | drop | sendIdle | ignore | waits => exact h hc

theorem Kept.step {fd : ℤ} {start : Conn} {v v' : Slot} {act : Act} (hk : Kept start v) (hstep : SlotStep fd v act v')
    (hdrop : act ≠ .drop) : Kept start v' := by
  have hclosed := fun h0 => hstep.closed (hk.closed h0)
  have hfalse : false = true → 0 < v'.places := fun h => absurd h Bool.false_ne_true
  have hrest : ∀ {ev rest}, v.pending = ev :: rest →
      ∀ ev ∈ rest, ev.hup = true ∨ ev.epollIn = true ∨ ev.epollOut = true :=
    fun hp ev hev => hk.event ev (hp ▸ List.mem_cons_of_mem _ hev)
  cases hstep with
  | deliver hp hr =>
    refine ⟨hclosed, fun _ => ?_, fun ev hev => ?_⟩
    · simp only [Slot.places, List.length_singleton]; omega
    · exact List.mem_singleton.1 hev ▸ reports_event hr
  | accept h0 ho => exact ⟨hclosed, fun _ => by simp only [Slot.places, isArmed]; omega, hk.event⟩
  | hangup hp hev => exact ⟨hclosed, hfalse, hrest hp⟩
  | readClose hp hev => exact ⟨hclosed, hfalse, hrest hp⟩
  | enqueue hp hev => exact ⟨hclosed, fun _ => by simp only [Slot.places]; omega, hrest hp⟩
  | drop hp hev => exact absurd rfl hdrop
  | sendIdle hp hev h0 => exact ⟨hclosed, fun _ => by simp only [Slot.places, isArmed]; omega, hrest hp⟩
  | sendBlocked hp hev hs hb => exact ⟨hclosed, fun _ => by simp only [Slot.places, isArmed]; omega, hrest hp⟩
  | sendKept hp hev hs => exact ⟨hclosed, fun _ => by simp only [Slot.places, isArmed]; omega, hrest hp⟩
  | sendClose hp hev hs => exact ⟨hclosed, hfalse, hrest hp⟩
  | @ignore ev rest hp hev =>
    have := hk.event ev (hp ▸ List.mem_cons_self)
    simp [hev.1, hev.2.1, hev.2.2] at this
  | waits ho => exact ⟨hclosed, fun _ => by simp only [Slot.places, isArmed]; omega, hk.event⟩
  | answers ho hq hw => exact ⟨hclosed, fun _ => by simp only [Slot.places, isArmed]; omega, hk.event⟩
  | refuses ho hq hw => exact ⟨hclosed, hfalse, hk.event⟩

omit [Fintype κ] [DecidableEq κ] in
theorem not_drop {op : Op κ} {fd : ℤ} {act : Act} (hok : findsRoom maxRequests s op = true)
    (hcause : Cause maxRequests s op fd act) : act ≠ .drop := by
  rintro rfl
  obtain ⟨a, ev, batch, r, rfl, hb, hhup, hin, hr, hfull⟩ := hcause
  have hroom : s.pool.workQueue.length ≤ maxRequests := by
    unfold findsRoom at hok
    rw [hb] at hok
    dsimp only at hok
    rw [if_pos ⟨hhup, hin, by rw [hr]; rfl⟩] at hok
    exact of_decide_eq_true hok
  omega

omit [DecidableEq κ] in
theorem attended_of_places {fd : ℤ} (h : 0 < (s.slot fd).places) : Attended s fd := by
  change 0 < s.pool.workQueue.count (some fd) + ∑ j, holds fd (s.pool.workers j) + (pendingFor fd s.batch).length +
    isArmed (s.epoll fd) at h
  by_cases hq : some fd ∈ s.pool.workQueue
  · exact Or.inr (Or.inr (Or.inl hq))
  by_cases hw : ∃ j, s.pool.workers j = .running fd
  · exact Or.inr (Or.inr (Or.inr hw))
  have hheld : ∑ j, holds fd (s.pool.workers j) = 0 := by
    refine Finset.sum_eq_zero fun j _ => ?_
    unfold holds
    split
    · rename_i x hj
      exact if_neg fun hx : x = fd => hw ⟨j, hx ▸ hj⟩
    · rfl
  rw [List.count_eq_zero.2 hq, hheld] at h
  cases hp : pendingFor fd s.batch with
  | cons ev rest =>
    obtain ⟨x, hx, hto⟩ := List.mem_filterMap.1 (hp ▸ List.mem_cons_self : ev ∈ pendingFor fd s.batch)
    refine Or.inr (Or.inl ⟨ev, ?_⟩)
    cases x with
    | listen => cases hto
    | client y bits =>
      simp only [Event.toward] at hto
      split_ifs at hto with hy
      rwa [← hy, ← Option.some.inj hto]
  | nil =>
    cases hi : s.epoll fd with
    | armed ev => exact Or.inl ⟨ev, hi⟩
    | absent => rw [hp, hi] at h; cases h
    | disarmed => rw [hp, hi] at h; cases h

/-- **No open connection is forgotten**, in runs in which every request that is read finds room in the queue and announces
no negative length. The open connections are the objects with a `sockfd` other than -1; the source leaves that member open
before the first `init`. -/
theorem attended
    (hin : Run.Along (Server.step maxRequests) (fun s op => lengthsInside s op = true) (State.start users) ops)
    (hroom : Run.Along (Server.step maxRequests) (fun s op => findsRoom maxRequests s op = true) (State.start users) ops)
    (h : Run.exec (Server.step maxRequests) (State.start users) ops = some s) (fd : ℤ) :
    (fd ∈ s.opened → Attended s fd) ∧ ((users fd).sockfd = -1 → (s.users fd).sockfd ≠ -1 → fd ∈ s.opened) := by
  obtain ⟨-, hkept⟩ := run_slots (P := fun fd => Kept (users fd)) (fun fd => ⟨fun h0 _ => h0, nofun, nofun⟩)
    (fun _ _ _ _ _ hok _ _ hcause _ hk hstep => hk.step hstep (not_drop hok hcause)) hin hroom h
  refine ⟨fun hin => attended_of_places ((hkept fd).place (decide_eq_true hin)), fun h0 hopen => ?_⟩
  by_contra hout
  exact hopen ((hkept fd).closed h0 (decide_eq_false hout))

end Runs

theorem attended_takenRun : Attended (takenRun.get takenRun_isSome) 5 := by
  obtain ⟨hatt, hopen⟩ := attended (by decide +kernel) (by decide +kernel) (Option.some_get takenRun_isSome).symm 5
  exact hatt (hopen rfl (by decide +kernel))

/-- three clients whose requests come in one batch, while the worker is not scheduled -/
def fullQueue : Option (State Unit) :=
  Run.exec (Server.step 1) (State.start fun _ => Conn.blank) (connect 5 ++ connect 6 ++ connect 7 ++
    [.epollWait [.client 5 readable, .client 6 readable, .client 7 readable], arrive, .post, arrive, .post, arrive])

theorem fullQueue_isSome : fullQueue.isSome = true := by decide +kernel

/-- The queue of a pool with `maxRequests = 1` is full for the third request: its connection stays open and is lost. -/
theorem orphan_fullQueue : ((fullQueue.get fullQueue_isSome).users 7).sockfd ≠ -1 ∧
    ¬ Attended (fullQueue.get fullQueue_isSome) 7 := by
  have hbatch : (fullQueue.get fullQueue_isSome).batch = [] := by decide +kernel
  have hitem : (fullQueue.get fullQueue_isSome).epoll 7 = .disarmed := by decide +kernel
  have hqueue : some 7 ∉ (fullQueue.get fullQueue_isSome).pool.workQueue := by decide +kernel
  have hworkers : ∀ j, (fullQueue.get fullQueue_isSome).pool.workers j ≠ .running 7 := by decide +kernel
  refine ⟨by decide +kernel, ?_⟩
  rintro (⟨ev, hev⟩ | ⟨ev, hev⟩ | hq | ⟨j, hj⟩)
  · rw [hitem] at hev
    cases hev
  · rw [hbatch] at hev
    cases hev
  · exact hqueue hq
  · exact hworkers j hj

end WebServer.Server
