/-
The descriptors that index `users`.

The array has MAX_FD objects. The main loop admits a connection while there are fewer than MAX_FD of them, and then uses
its descriptor as the index. `accept` returns the lowest descriptor that the process does not use, and it uses others
besides the connections: the standard streams, the listening socket, the epoll set, and files that workers have open.

- `step_inUse`: a step brings in no descriptor but the one that `accept` returned, whatever the parsers of the workers
  store into the objects.
- `indices`: as long as fewer than MAX_FD descriptors are in use, whatever they are for, whenever a connection comes in,
  every index is inside the array.
- `index_overrun`: with the five descriptors that the server always has, its 65531st client gets `users[65535]`.
-/
import WebServer.Server.Owner

namespace WebServer.Server

open WebServer.HttpConn WebServer.ThreadPool

/-! ## Which descriptors come in -/

/-- every descriptor of the first environment, open or in the epoll set, is one of the second -/
structure Within (e' e : Env) : Prop where
  opened : e'.opened ⊆ e.opened
  epoll : ∀ g, e'.epoll g ≠ .absent → e.epoll g ≠ .absent

theorem Within.trans {e e' e'' : Env} (h : Within e'' e') (h' : Within e' e) : Within e'' e :=
  ⟨h.opened.trans h'.opened, fun g hg => h'.epoll g (h.epoll g hg)⟩

theorem within_append (e : Env) (l : List Call) : Within (e.append l) e := ⟨Finset.Subset.refl _, fun _ h => h⟩

theorem modfd_within (e : Env) (x : ℤ) (ev : Interest) : Within (modfd e x ev) e := by
  refine ⟨(modfd_shared e x ev).1.subset, fun g hg => ?_⟩
  unfold modfd at hg
  split at hg
  · exact hg
  · rename_i hx
    by_cases h : g = x
    · exact h ▸ hx
    · dsimp only at hg
      rwa [Function.update_of_ne h] at hg

theorem closeConn_within (c : Conn) (e : Env) : Within (closeConn c e).2 e := by
  unfold closeConn
  split_ifs
  · refine ⟨Finset.erase_subset _ _, fun g hg => ?_⟩
    by_cases h : g = c.sockfd
    · exact absurd (h ▸ Function.update_self _ _ _) hg
    · have heq : (removefd e c.sockfd).epoll g = e.epoll g := Function.update_of_ne h _ _
      exact heq ▸ hg
  · exact ⟨Finset.Subset.refl _, fun _ h => h⟩

theorem write_within {ws : List Writev} {c : Conn} {e : Env} {x : Bool × Conn × Env}
    (h : HttpConn.write ws c e = some x) : Within x.2.2 e := by
  cases write_end h with
  | idle => exact modfd_within _ _ _
  | blocked => exact (modfd_within _ _ _).trans (within_append e _)
  | failed => exact within_append e _
  | kept => exact (modfd_within _ _ _).trans (within_append e _)
  | done => exact (modfd_within _ _ _).trans (within_append e _)

theorem process_within {fs : FileSystem} {c : Conn} {e : Env} {x : HttpCode × Conn × Env}
    (h : HttpConn.process fs c e = some x) (hdef : x.1 ≠ .undefined) : Within x.2.2 e := by
  obtain ⟨fd, hend, -⟩ := process_end h hdef
  cases hend with
  | waits => exact modfd_within _ _ _
  | answers => exact (modfd_within _ _ _).trans (within_append e _)
  | refuses => exact ((modfd_within _ _ _).trans (closeConn_within _ _)).trans (within_append e _)

section Steps

variable {κ : Type*}

/-- what `accept` returns, if the operation calls it -/
def accepts (s : State κ) : Op κ → Option ℤ
  | .handle a =>
    match s.batch with
    | .listen :: _ => a.accepted
    | _ => none
  | _ => none

/-- the descriptor is open, in the epoll set, in the batch or in the pool -/
def InUse [Fintype κ] (s : State κ) (fd : ℤ) : Prop :=
  fd ∈ s.opened ∨ s.epoll fd ≠ .absent ∨ (∃ ev, .client fd ev ∈ s.batch) ∨ 0 < ownersOf s.pool fd

variable [Fintype κ] {s t : State κ} {g : ℤ}

/-- what a function of an object changes in the state brings in no descriptor -/
theorem InUse.put {fd : ℤ} {x : Conn × Env} (h : InUse (s.put fd x) g) (hin : Within x.2 (s.env fd)) : InUse s g := by
  rcases h with ho | he | hb | hp
  · exact Or.inl (hin.opened ho)
  · exact Or.inr (Or.inl (hin.epoll g he))
  · exact Or.inr (Or.inr (Or.inl hb))
  · exact Or.inr (Or.inr (Or.inr hp))

theorem InUse.close {fd : ℤ} (h : InUse (s.close fd) g) : InUse s g := h.put (closeConn_within _ _)

/-- the rest of a batch -/
theorem InUse.batch {ev : Event} {batch : List Event} (hb : s.batch = ev :: batch)
    (h : InUse { s with batch := batch } g) : InUse s g := by
  refine h.imp_right (Or.imp_right (Or.imp_left ?_))
  rintro ⟨ev, hev⟩
  exact ⟨ev, hb ▸ List.mem_cons_of_mem _ hev⟩

theorem InUse.pool {pool : Pool ℤ Unit κ} (h : InUse { s with pool := pool } g)
    (hp : 0 < ownersOf pool g → InUse s g) : InUse s g := by
  rcases h with ho | he | hb | ho
  · exact Or.inl ho
  · exact Or.inr (Or.inl he)
  · exact Or.inr (Or.inr (Or.inl hb))
  · exact hp ho

variable [DecidableEq κ] {maxRequests : ℕ} {s' : State κ}

/-- an event of a client that is in use -/
theorem event_inUse {a : Answers} {fd : ℤ} {ev : Events} (h : s.onEvent maxRequests a (.client fd ev) = some s')
    (hg : InUse s' g) : InUse s g ∨ g = fd := by
  simp only [State.onEvent] at h
  split_ifs at h
  · cases h
    exact Or.inl hg.close
  · unfold State.onReadable at h
    split at h
    · rename_i r hr
      split at h <;> cases h
      rename_i pool hpool
      by_cases hfd : g = fd
      · exact Or.inr hfd
      · refine Or.inl (InUse.pool (s := s) hg fun hp => ?_)
        have howners := ownersOf_append hpool g
        rw [if_neg (Ne.symm hfd), Nat.add_zero, ← or_and_right] at howners
        exact Or.inr (Or.inr (Or.inr (howners.2 ▸ hp)))
    · cases h
      exact Or.inl (InUse.close (s := s.setRead fd _) hg)
    · cases h
  · unfold State.onWritable at h
    split at h
    · rename_i x hx
      cases h
      exact Or.inl (hg.put (write_within hx))
    · rename_i x hx
      cases h
      exact Or.inl (hg.close.put (write_within hx))
    · cases h
  · cases h
    exact Or.inl hg

omit [DecidableEq κ] in
/-- an event of the listening socket -/
theorem accept_inUse {accepted : Option ℤ} (h : s.onAccept accepted = some s') (hg : InUse s' g) :
    InUse s g ∨ accepted = some g := by
  unfold State.onAccept at h
  split at h
  · cases h
    exact Or.inl hg
  · rename_i fd
    split_ifs at h
    · cases h
      exact Or.inl hg
    · cases h
      by_cases hfd : fd = g
      · exact Or.inr (congrArg some hfd)
      · refine Or.inl ?_
        rcases hg with ho | he | hb | hp
        · simp only [State.put, Conn.initConn, addfd] at ho
          split at ho <;> exact Or.inl (Finset.mem_of_mem_insert_of_ne ho (Ne.symm hfd))
        · have heq := (initConn_local fd (s.users fd) ((s.openFd fd).env fd) g (Ne.symm hfd)).1
          exact Or.inr (Or.inl fun habs => he (heq.trans habs))
        · exact Or.inr (Or.inr (Or.inl hb))
        · exact Or.inr (Or.inr (Or.inr hp))

omit [DecidableEq κ] in
/-- a batch has only descriptors that are armed -/
theorem epollWait_inUse {events : List Event} (hok : batchOk s.epoll events)
    (hg : InUse { s with batch := events, epoll := disarm s.epoll events } g) : InUse s g := by
  obtain ⟨-, -, hrep⟩ := hok
  have harmed : ∀ ev, .client g ev ∈ events → s.epoll g ≠ .absent := by
    intro ev hev habs
    have hr := hrep _ hev
    simp only [Event.reported, habs, reports] at hr
    cases hr
  rcases hg with ho | he | ⟨ev, hev⟩ | hp
  · exact Or.inl ho
  · refine Or.inr (Or.inl ?_)
    by_cases hin : some g ∈ events.map Event.fd
    · obtain ⟨x, hx, hfd⟩ := List.mem_map.1 hin
      cases x with
      | listen => cases hfd
      | client y ev => exact harmed ev (Option.some.inj hfd ▸ hx)
    · simpa only [disarm, if_neg hin] using he
  · exact Or.inr (Or.inl (harmed ev hev))
  · exact Or.inr (Or.inr (Or.inr hp))

/-- **A step brings in no descriptor but the one that `accept` returned.** -/
theorem step_inUse {op : Op κ} (h : Server.step maxRequests s op = some s') (hg : InUse s' g) :
    InUse s g ∨ accepts s op = some g := by
  cases op with
  | epollWait events =>
    obtain ⟨-, hok, rfl⟩ := step_epollWait h
    exact Or.inl (epollWait_inUse hok hg)
  | handle a =>
    obtain ⟨ev, batch, hb, hev⟩ := step_handle h
    cases ev with
    | client fd ev =>
      refine Or.inl ?_
      rcases event_inUse hev hg with hs | rfl
      · exact hs.batch hb
      · exact Or.inr (Or.inr (Or.inl ⟨ev, hb ▸ List.mem_cons_self⟩))
    | listen =>
      simp only [accepts, hb]
      exact (accept_inUse hev hg).imp_left (InUse.batch hb)
  | post =>
    obtain ⟨p, hp, rfl⟩ := setPool_some h
    exact Or.inl (hg.pool fun ho => Or.inr (Or.inr (Or.inr (ownersOf_post hp g ▸ ho))))
  | wait j =>
    obtain ⟨p, hp, rfl⟩ := setPool_some h
    exact Or.inl (hg.pool fun ho => Or.inr (Or.inr (Or.inr (ownersOf_wait hp g ▸ ho))))
  | waitEarly j =>
    obtain ⟨p, hp, rfl⟩ := setPool_some h
    exact Or.inl (hg.pool fun ho => Or.inr (Or.inr (Or.inr (ownersOf_waitEarly hp g ▸ ho))))
  | run j =>
    obtain ⟨p, hp, rfl⟩ := setPool_some h
    exact Or.inl (hg.pool fun ho => Or.inr (Or.inr (Or.inr (ownersOf_run hp g ▸ ho))))
  | process j fs =>
    obtain ⟨fd, code, x, t, p, hj, hx, hdef, ht, hp, rfl⟩ := step_process h
    obtain ⟨users, rfl⟩ := storeOutside_users ht
    have howners := ownersOf_finish hj hp g
    have hput : InUse (s.put fd x) g := InUse.pool (s := s.put fd x) hg fun ho =>
      Or.inr (Or.inr (Or.inr (show 0 < ownersOf s.pool g by omega)))
    exact Or.inl (hput.put (process_within hx hdef))

end Steps

/-! ## The lowest descriptor -/

/-- `fd` is the lowest descriptor that is not in use -/
def lowestUnused (used : Finset ℤ) (fd : ℤ) : Prop := 0 ≤ fd ∧ fd ∉ used ∧ ∀ x ∈ List.range fd.toNat, (x : ℤ) ∈ used

instance (used : Finset ℤ) (fd : ℤ) : Decidable (lowestUnused used fd) := inferInstanceAs (Decidable (_ ∧ _ ∧ _))

/-- the descriptors below the lowest unused one are all in use -/
theorem lowestUnused_le {used : Finset ℤ} {fd : ℤ} (h : lowestUnused used fd) : fd ≤ used.card := by
  have hsub : (Finset.range fd.toNat).map Nat.castEmbedding ⊆ used := by
    intro y hy
    obtain ⟨x, hx, rfl⟩ := Finset.mem_map.1 hy
    exact h.2.2 x (List.mem_range.2 (Finset.mem_range.1 hx))
  have hcard := Finset.card_le_card hsub
  rw [Finset.card_map, Finset.card_range] at hcard
  omega

/-- an operation, and the descriptors that the process has besides the connections when it happens -/
structure Timed (κ : Type*) where
  op : Op κ
  others : Finset ℤ

section Runs

variable {κ : Type*} [DecidableEq κ]

/-- the server with a kernel that gives out the lowest unused descriptor -/
def kernelStep (maxRequests : ℕ) (s : State κ) (x : Timed κ) : Option (State κ) :=
  match accepts s x.op with
  | some fd => if lowestUnused (s.opened ∪ x.others) fd then Server.step maxRequests s x.op else none
  | none => Server.step maxRequests s x.op

/-- fewer than MAX_FD descriptors are in use when a connection comes in -/
def hasRoom (s : State κ) (x : Timed κ) : Bool :=
  match accepts s x.op with
  | some _ => decide ((s.opened ∪ x.others).card < maxFd)
  | none => true

variable {maxRequests : ℕ} {users : ℤ → Conn} {ops : List (Timed κ)} {s s' : State κ}

theorem kernelStep_step {x : Timed κ} (h : kernelStep maxRequests s x = some s') :
    Server.step maxRequests s x.op = some s' ∧
      ∀ fd, accepts s x.op = some fd → lowestUnused (s.opened ∪ x.others) fd := by
  unfold kernelStep at h
  cases ha : accepts s x.op with
  | none =>
    rw [ha] at h
    exact ⟨h, nofun⟩
  | some fd =>
    rw [ha] at h
    dsimp only at h
    split_ifs at h with hlow
    exact ⟨h, fun g hg => Option.some.inj hg ▸ hlow⟩

variable [Fintype κ]

/-- the descriptors in use are indices of the array -/
def Indexed (s : State κ) : Prop := ∀ fd, InUse s fd → 0 ≤ fd ∧ fd < maxFd

theorem Indexed.step {x : Timed κ} (h : Indexed s) (hroom : hasRoom s x = true)
    (hs : kernelStep maxRequests s x = some s') : Indexed s' := by
  obtain ⟨hstep, hlow⟩ := kernelStep_step hs
  intro fd hfd
  rcases step_inUse hstep hfd with hin | ha
  · exact h fd hin
  · have hunused := hlow fd ha
    simp only [hasRoom, ha, decide_eq_true_eq] at hroom
    exact ⟨hunused.1, (lowestUnused_le hunused).trans_lt hroom⟩

omit [DecidableEq κ] in
theorem indexed_start (users : ℤ → Conn) : Indexed (State.start users : State κ) := by
  intro fd hfd
  simp [InUse, State.start, ownersOf, Pool.init, holds] at hfd

/-- **Indices of `users`.** In every state of every run in which fewer than MAX_FD descriptors are in use, whatever they
are for, whenever a connection comes in: every open connection, every event of the batch and every request in the pool
is for a descriptor below MAX_FD. -/
theorem indices
    (hroom : Run.Along (kernelStep maxRequests) (fun s x => hasRoom s x = true) (State.start users) ops)
    (h : Run.exec (kernelStep maxRequests) (State.start users) ops = some s) (fd : ℤ)
    (hfd : fd ∈ s.opened ∨ (∃ ev, .client fd ev ∈ s.batch) ∨ 0 < ownersOf s.pool fd) : 0 ≤ fd ∧ fd < maxFd :=
  Run.exec_inv_along (fun _ _ _ hi hok hst => hi.step hok hst) (indexed_start users) hroom h fd
    (hfd.imp_right Or.inr)

end Runs

/-- stdin, stdout, stderr, the listening socket and the epoll set -/
def standing : Finset ℤ := {0, 1, 2, 3, 4}

/-- a client connects and sends the beginning of a request -/
def indexedRun : Option (State Unit) := Run.exec (kernelStep 1) (State.start fun _ => Conn.blank)
  (takenOps.map fun op => ⟨op, standing⟩)

theorem indexedRun_isSome : indexedRun.isSome = true := by decide +kernel

theorem indices_indexedRun : (0 : ℤ) ≤ 5 ∧ 5 < maxFd :=
  indices (by decide +kernel) (Option.some_get indexedRun_isSome).symm 5 (Or.inl (by decide +kernel))

/-! ## More clients than descriptors -/

/-- the clients connect one after the other -/
def clients (n : ℕ) : List (Timed Unit) :=
  (List.range n).flatMap fun i => (connect (5 + i)).map fun op => ⟨op, standing⟩

theorem clients_succ (n : ℕ) :
    clients (n + 1) = clients n ++ (connect (5 + n)).map fun op => ⟨op, standing⟩ := by
  simp [clients, List.range_succ]

/-- the state after the first `n` clients -/
structure Connected (n : ℕ) (s : State Unit) : Prop where
  opened : ∀ fd, fd ∈ s.opened ↔ 5 ≤ fd ∧ fd < 5 + n
  userCount : s.userCount = n
  batch : s.batch = []
  idle : s.pool.appenders () = .idle

theorem lowestUnused_next {n : ℕ} {s : State Unit} (h : Connected n s) :
    lowestUnused (s.opened ∪ standing) (5 + n) := by
  have hmem : ∀ fd, fd ∈ s.opened ∪ standing ↔ 0 ≤ fd ∧ fd < 5 + n := by
    intro fd
    simp only [Finset.mem_union, h.opened, standing, Finset.mem_insert, Finset.mem_singleton]
    omega
  refine ⟨by omega, ?_, fun x hx => ?_⟩
  · rw [hmem]
    omega
  · have hlt := List.mem_range.1 hx
    rw [hmem]
    omega

/-- a connection that comes in while there are fewer than MAX_FD -/
theorem step_accept {s : State Unit} {batch : List Event} {a : Answers} {fd : ℤ} (hb : s.batch = .listen :: batch)
    (hidle : s.pool.appenders () = .idle) (ha : a.accepted = some fd) (hfd : 0 ≤ fd ∧ fd ∉ s.opened)
    (hcount : s.userCount < maxFd) :
    ∃ s', Server.step 1 s (.handle a) = some s' ∧ s'.opened = insert fd s.opened ∧ s'.userCount = s.userCount + 1 ∧
      s'.batch = batch ∧ s'.pool = s.pool := by
  have hstep : Server.step 1 s (.handle a) = State.onAccept (some fd) { s with batch := batch } := by
    simp only [Server.step, hb, hidle, State.onEvent, ha]
  have hfull : ¬ State.userCount { s with batch := batch } ≥ maxFd := not_le.2 hcount
  rw [hstep, State.onAccept, if_pos hfd, if_neg hfull]
  refine ⟨_, rfl, ?_, ?_, rfl, rfl⟩
  · simp only [State.put, Conn.initConn, addfd, State.openFd, State.env]
    split <;> rfl
  · simp only [State.put, Conn.initConn, addfd, State.openFd, State.env]
    split <;> rfl

theorem Connected.next {n : ℕ} {s : State Unit} (h : Connected n s) (hn : n < 65535) :
    ∃ s', Run.exec (kernelStep 1) s ((connect (5 + n)).map fun op => ⟨op, standing⟩) = some s' ∧
      Connected (n + 1) s' := by
  have hlow := lowestUnused_next h
  have hwait : kernelStep 1 s ⟨.epollWait [.listen], standing⟩ =
      some { s with batch := [.listen], epoll := disarm s.epoll [.listen] } := by
    have hok : batchOk s.epoll [.listen] := ⟨by decide, by simp, by simp [Event.reported]⟩
    show (if s.batch = [] ∧ s.pool.appenders () = .idle ∧ batchOk s.epoll [.listen] then _ else none) = _
    rw [if_pos ⟨h.batch, h.idle, hok⟩]
  have hnot : (5 + n : ℤ) ∉ s.opened := by
    rw [h.opened]
    omega
  have hroom : s.userCount < maxFd := by
    rw [h.userCount, maxFd]
    omega
  obtain ⟨s', hs', hopened, hcount, hbatch, hpool⟩ :=
    step_accept (s := { s with batch := [.listen], epoll := disarm s.epoll [.listen] })
      (a := ⟨some (5 + n), [], []⟩) rfl h.idle rfl ⟨by omega, hnot⟩ hroom
  refine ⟨s', ?_, fun fd => ?_, ?_, hbatch, by rw [hpool]; exact h.idle⟩
  · have hhandle : kernelStep 1 { s with batch := [.listen], epoll := disarm s.epoll [.listen] }
        ⟨.handle ⟨some (5 + n), [], []⟩, standing⟩ = some s' := by
      rw [← hs']
      exact if_pos hlow
    simp only [connect, List.map_cons, List.map_nil, Run.exec, hwait, hhandle]
  · rw [hopened, Finset.mem_insert, h.opened]
    push_cast
    omega
  · rw [hcount, h.userCount]
    push_cast
    rfl

theorem clients_connected {n : ℕ} (hn : n ≤ 65535) :
    ∃ s, Run.exec (kernelStep 1) (State.start fun _ => Conn.blank) (clients n) = some s ∧ Connected n s := by
  induction n with
  | zero =>
    refine ⟨_, rfl, fun fd => ?_, rfl, rfl, rfl⟩
    simp [State.start]
  | succ n ih =>
    obtain ⟨s, hs, hc⟩ := ih (by omega)
    obtain ⟨s', hs', hc'⟩ := hc.next (by omega)
    exact ⟨s', by rw [clients_succ, Run.exec_append hs]; exact hs', hc'⟩

/-- **An index outside the array.** The 65531st client is admitted and gets the descriptor MAX_FD. -/
theorem index_overrun : ∃ s, Run.exec (kernelStep 1) (State.start fun _ => Conn.blank) (clients 65531) = some s ∧
    maxFd ∈ s.opened ∧ s.userCount < maxFd := by
  obtain ⟨s, hs, hc⟩ := @clients_connected 65531 (by omega)
  refine ⟨s, hs, ?_, ?_⟩
  · rw [hc.opened, maxFd]
    omega
  · rw [hc.userCount, maxFd]
    omega

end WebServer.Server
