/-
The server is its slots.

- `contained`: the parser of the step, if it is one of a worker, stores nothing in front of its `readBuffer`. Otherwise it
  changes its own descriptor or another object.
- `step_slot`: every such step of the server leaves a slot alone or is a step of the slot. `Cause` says which operation is
  behind a step of the slot, as far as conditions on runs need it.
- `Inv`: every slot has at most one owner, and `userCount` is the number of open connections.
- `Inv.step`, `slots_step`: such a step keeps the invariant, and what a slot keeps in every `SlotStep` holds of all slots
  after it.
- `run_pool`: the pool inside the server runs as the pool alone does.
-/
import WebServer.Server.Slots

namespace WebServer.Server

open WebServer.HttpConn WebServer.ThreadPool

/-! ## What the functions leave alone -/

/-- only the entries of `fd` change -/
def Local (fd : ℤ) (e e' : Env) : Prop := ∀ g, g ≠ fd → e'.epoll g = e.epoll g ∧ (g ∈ e'.opened ↔ g ∈ e.opened)

theorem Local.trans {fd : ℤ} {e e' e'' : Env} (h : Local fd e e') (h' : Local fd e' e'') : Local fd e e'' :=
  fun g hg => ⟨(h' g hg).1.trans (h g hg).1, (h' g hg).2.trans (h g hg).2⟩

theorem local_append (fd : ℤ) (e : Env) (l : List Call) : Local fd e (e.append l) := fun _ _ => ⟨rfl, Iff.rfl⟩

theorem modfd_shared (e : Env) (x : ℤ) (ev : Interest) :
    (modfd e x ev).opened = e.opened ∧ (modfd e x ev).userCount = e.userCount := by
  unfold modfd
  split <;> exact ⟨rfl, rfl⟩

theorem epoll_modfd {e : Env} {x : ℤ} (h : e.epoll x ≠ .absent) (ev : Interest) : (modfd e x ev).epoll x = .armed ev := by
  unfold modfd
  split
  · contradiction
  · exact Function.update_self _ _ _

theorem modfd_local {fd x : ℤ} {e : Env} (h : x = fd ∨ e.epoll x = .absent) (ev : Interest) :
    Local fd e (modfd e x ev) := by
  intro g hg
  unfold modfd
  split
  · exact ⟨rfl, Iff.rfl⟩
  · rename_i hx
    rcases h with rfl | h
    · exact ⟨Function.update_of_ne hg _ _, Iff.rfl⟩
    · exact absurd h hx

theorem modfd_absent {e : Env} {x : ℤ} (h : e.epoll x = .absent) (ev : Interest) : modfd e x ev = e := by
  unfold modfd
  rw [h]

theorem closeConn_local {fd : ℤ} {c : Conn} (h : c.sockfd = fd) (hne : fd ≠ -1) (e : Env) :
    Local fd e (closeConn c e).2 := by
  rw [closeConn_open (by rwa [h]), h]
  exact fun g hg => ⟨Function.update_of_ne hg _ _, by simp [removefd, Env.record, hg]⟩

theorem initConn_local (fd : ℤ) (c : Conn) (e : Env) : Local fd e (c.initConn fd e).2 := by
  intro g hg
  unfold Conn.initConn addfd
  dsimp only
  split
  · exact ⟨Function.update_of_ne hg _ _, Iff.rfl⟩
  · exact ⟨rfl, Iff.rfl⟩

theorem write_local {fd : ℤ} {ws : List Writev} {c : Conn} {e : Env} {x : Bool × Conn × Env} (hc : c.sockfd = fd)
    (h : write ws c e = some x) : Local fd e x.2.2 := by
  have hmod : ∀ l ev, Local fd e (modfd (e.append l) c.sockfd ev) := fun l ev =>
    (local_append fd e l).trans (modfd_local (Or.inl hc) ev)
  cases write_end h with
  | idle => exact modfd_local (Or.inl hc) _
  | blocked => exact hmod _ _
  | failed => exact local_append _ _ _
  | kept => exact hmod _ _
  | done => exact hmod _ _

theorem write_shared {ws : List Writev} {c : Conn} {e : Env} {x : Bool × Conn × Env} (h : write ws c e = some x) :
    x.2.2.opened = e.opened ∧ x.2.2.userCount = e.userCount ∧ x.2.1.sockfd = c.sockfd := by
  have hmod : ∀ l ev, (modfd (e.append l) c.sockfd ev).opened = e.opened ∧
      (modfd (e.append l) c.sockfd ev).userCount = e.userCount := fun l ev => modfd_shared _ _ _
  cases write_end h with
  | idle => exact ⟨(modfd_shared _ _ _).1, (modfd_shared _ _ _).2, rfl⟩
  | blocked hs => exact ⟨(hmod _ _).1, (hmod _ _).2, hs.sockfd⟩
  | failed hs => exact ⟨rfl, rfl, hs.sockfd⟩
  | kept hs => exact ⟨(hmod _ _).1, (hmod _ _).2, hs.sockfd⟩
  | done hs => exact ⟨(hmod _ _).1, (hmod _ _).2, hs.sockfd⟩

theorem process_local {fd : ℤ} {fs : FileSystem} {c : Conn} {e : Env} {x : HttpCode × Conn × Env} (hc : c.sockfd = fd)
    (hne : fd ≠ -1) (habs : e.epoll (-1) = .absent) (h : ProcessEnd fs c e x) : Local fd e x.2.2 := by
  cases h with
  | waits => exact modfd_local (Or.inl hc) _
  | answers => exact (local_append fd e _).trans (modfd_local (Or.inl hc) _)
  | @refuses code c' l hq hw =>
    have hsock : (processWrite code c').2.sockfd = fd := ((processWrite_kept code c').sockfd.trans hq.sockfd).trans hc
    have hclose := (local_append fd e l).trans (closeConn_local hsock hne (e.append l))
    refine hclose.trans (modfd_local (Or.inr ?_) _)
    rw [closeConn_open (by rwa [hsock])]
    exact (Function.update_of_ne (by rw [hsock]; exact hne.symm) _ _).trans habs

/-! ## The number of connections -/

/-- `userCount` counts the open connections -/
def Counts (e : Env) : Prop := e.userCount = e.opened.card

theorem closeConn_counts {fd : ℤ} {c : Conn} {e : Env} (h : Counts e) (hc : c.sockfd = fd) (hne : fd ≠ -1)
    (hin : fd ∈ e.opened) : Counts (closeConn c e).2 := by
  have hpos := Finset.card_pos.2 ⟨fd, hin⟩
  unfold Counts at *
  rw [closeConn_open (by rwa [hc]), hc]
  show e.userCount - 1 = ((e.opened.erase fd).card : ℤ)
  rw [Finset.card_erase_of_mem hin]
  omega

theorem modfd_counts {e : Env} (h : Counts e) (x : ℤ) (ev : Interest) : Counts (modfd e x ev) := by
  unfold Counts
  rw [(modfd_shared e x ev).1, (modfd_shared e x ev).2]
  exact h

theorem process_counts {fd : ℤ} {fs : FileSystem} {c : Conn} {e : Env} {x : HttpCode × Conn × Env} (h : Counts e)
    (hc : c.sockfd = fd) (hne : fd ≠ -1) (hin : fd ∈ e.opened) (hx : ProcessEnd fs c e x) : Counts x.2.2 := by
  cases hx with
  | waits => exact modfd_counts h _ _
  | @answers code c' l hq hw => exact modfd_counts (show Counts (e.append l) from h) _ _
  | @refuses code c' l hq hw =>
    refine modfd_counts (@closeConn_counts fd _ _ (show Counts (e.append l) from h) ?_ hne hin) _ _
    exact ((processWrite_kept code c').sockfd.trans hq.sockfd).trans hc

/-! ## The batch -/

theorem pendingFor_eq_nil {fd : ℤ} {events : List Event} (h : some fd ∉ events.map Event.fd) :
    pendingFor fd events = [] := by
  refine List.filterMap_eq_nil_iff.2 fun ev hev => ?_
  cases ev with
  | listen => rfl
  | client x bits =>
    have hx : x ≠ fd := fun hx => h (List.mem_map.2 ⟨_, hev, by rw [hx]; rfl⟩)
    simp only [Event.toward, if_neg hx]

theorem pendingFor_nodup {fd : ℤ} {ev : Events} {events : List Event} (hn : (events.map Event.fd).Nodup)
    (h : .client fd ev ∈ events) : pendingFor fd events = [ev] := by
  induction events with
  | nil => cases h
  | cons x events ih =>
    rw [List.map_cons, List.nodup_cons] at hn
    rcases List.mem_cons.1 h with rfl | hmem
    · have hrest : pendingFor fd events = [] := pendingFor_eq_nil hn.1
      unfold pendingFor at hrest ⊢
      rw [List.filterMap_cons, hrest]
      simp [Event.toward]
    · have hx : Event.toward fd x = none := by
        cases x with
        | listen => rfl
        | client y bits =>
          have hy : y ≠ fd := fun hy => hn.1 (List.mem_map.2 ⟨_, hmem, by rw [hy]; rfl⟩)
          simp only [Event.toward, if_neg hy]
      have hrest := ih hn.2 hmem
      unfold pendingFor at hrest ⊢
      rw [List.filterMap_cons, hx]
      exact hrest

theorem pendingFor_cons_self (fd : ℤ) (ev : Events) (batch : List Event) :
    pendingFor fd (.client fd ev :: batch) = ev :: pendingFor fd batch := by
  simp [pendingFor, Event.toward]

theorem pendingFor_cons_other {fd x : ℤ} (h : x ≠ fd) (ev : Events) (batch : List Event) :
    pendingFor fd (.client x ev :: batch) = pendingFor fd batch := by
  simp [pendingFor, Event.toward, h]

section Threads

variable {κ : Type*} [Fintype κ]

/-! ## Slots of a changed state -/

namespace State

theorem slot_put_self (s : State κ) (fd : ℤ) (x : Conn × Env) : (s.put fd x).slot fd =
    { s.slot fd with conn := x.1, item := x.2.epoll fd, opened := decide (fd ∈ x.2.opened), log := x.2.calls } := by
  simp only [slot, put, Function.update_self]
  rfl

theorem slot_put_other {s : State κ} {fd g : ℤ} {x : Conn × Env} (hg : g ≠ fd) (hl : Local fd (s.env fd) x.2) :
    (s.put fd x).slot g = s.slot g := by
  obtain ⟨h1, h2⟩ := hl g hg
  simp only [slot, put, Function.update_of_ne hg, h1, h2]
  rfl

theorem slot_close_self {s : State κ} {fd : ℤ} (hs : (s.users fd).sockfd = fd) (hne : fd ≠ -1) :
    (s.close fd).slot fd = (s.slot fd).close fd := by
  rw [close, slot_put_self, closeConn_open (by rwa [hs]), hs]
  simp [Slot.close, removefd, Env.record, slot, env]

theorem slot_close_other {s : State κ} {fd g : ℤ} (hs : (s.users fd).sockfd = fd) (hne : fd ≠ -1) (hg : g ≠ fd) :
    (s.close fd).slot g = s.slot g :=
  slot_put_other hg (closeConn_local hs hne _)

theorem slot_setRead_self (s : State κ) (fd : ℤ) (r : ReadSide) :
    (s.setRead fd r).slot fd = { s.slot fd with conn := (s.users fd).setRead r } := by
  simp only [slot, setRead, Function.update_self]
  rfl

theorem slot_setRead_other {s : State κ} {fd g : ℤ} (hg : g ≠ fd) (r : ReadSide) :
    (s.setRead fd r).slot g = s.slot g := by
  simp only [slot, setRead, Function.update_of_ne hg]
  rfl

/-- the slot after calls `l` and a `modfd` -/
theorem slot_put_modfd {s : State κ} {fd : ℤ} (h : s.epoll fd ≠ .absent) (c : Conn) (l : List Call) (ev : Interest) :
    (s.put fd (c, modfd ((s.env fd).append l) fd ev)).slot fd =
      { s.slot fd with conn := c, item := .armed ev, log := s.logs fd ++ l } := by
  rw [slot_put_self, epoll_modfd (e := (s.env fd).append l) h, (modfd_shared _ _ _).1, modfd_calls]
  rfl

theorem slot_put_append (s : State κ) (fd : ℤ) (c : Conn) (l : List Call) :
    (s.put fd (c, (s.env fd).append l)).slot fd = { s.slot fd with conn := c, log := s.logs fd ++ l } := by
  rw [slot_put_self]
  rfl

end State

/-! ## Steps of the server are steps of its slots -/

/-- the operations behind a step of a slot, where conditions on runs speak about them -/
def Cause (maxRequests : ℕ) (s : State κ) (op : Op κ) (fd : ℤ) : Act → Prop
  | .hangup => ∃ a ev batch, op = .handle a ∧ s.batch = .client fd ev :: batch ∧ ev.hup = true
  | .drop => ∃ a ev batch r, op = .handle a ∧ s.batch = .client fd ev :: batch ∧ ev.hup = false ∧ ev.epollIn = true ∧
      read a.recv (s.users fd).toReadSide = some (true, r) ∧ maxRequests < s.pool.workQueue.length
  | .send => ∃ a ev batch, op = .handle a ∧ s.batch = .client fd ev :: batch ∧ ev.hup = false ∧ ev.epollIn = false
  | .process code => ∃ j fs x, op = .process j fs ∧ s.pool.workers j = .running fd ∧
      HttpConn.process fs (s.users fd) (s.env fd) = some (code, x)
  | _ => True

/-- the slot of `fd` is left alone, or makes a step -/
def Moves (maxRequests : ℕ) (s s' : State κ) (op : Op κ) (fd : ℤ) : Prop :=
  s'.slot fd = s.slot fd ∨ ∃ act, SlotStep fd (s.slot fd) act (s'.slot fd) ∧ Cause maxRequests s op fd act

theorem epollWait_moves {maxRequests : ℕ} {s : State κ} {events : List Event} (hb : s.batch = [])
    (hok : batchOk s.epoll events) (fd : ℤ) :
    Moves maxRequests s { s with batch := events, epoll := disarm s.epoll events } (.epollWait events) fd := by
  obtain ⟨-, hnodup, hrep⟩ := hok
  have hnil : (s.slot fd).pending = [] := by
    show pendingFor fd s.batch = []
    rw [hb]
    rfl
  by_cases hin : some fd ∈ events.map Event.fd
  · obtain ⟨x, hx, hfd⟩ := List.mem_map.1 hin
    obtain ⟨ev, rfl⟩ : ∃ ev, x = .client fd ev := by
      cases x with
      | listen => cases hfd
      | client y ev => exact ⟨ev, by rw [Option.some.inj hfd]⟩
    refine Or.inr ⟨.deliver, ?_, trivial⟩
    have hslot : State.slot { s with batch := events, epoll := disarm s.epoll events } fd =
        { s.slot fd with item := .disarmed, pending := [ev] } := by
      simp only [State.slot, disarm, if_pos hin, pendingFor_nodup hnodup hx]
    rw [hslot]
    exact .deliver hnil (hrep _ hx)
  · refine Or.inl ?_
    simp only [State.slot, disarm, if_neg hin, pendingFor_eq_nil hin, hb]
    rfl

variable [DecidableEq κ]

/-! ## The pool -/

theorem ownersOf_setWorker (pool : Pool ℤ Unit κ) (j : κ) (w : Worker ℤ) (fd : ℤ) :
    ownersOf (pool.setWorker j w) fd + holds fd (pool.workers j) = ownersOf pool fd + holds fd w := by
  have h := Run.sum_update pool.workers j w (holds fd)
  unfold ownersOf
  simp only [Pool.setWorker]
  omega

omit [DecidableEq κ] in
theorem ownersOf_running {pool : Pool ℤ Unit κ} {j : κ} {fd : ℤ} (hj : pool.workers j = .running fd) :
    0 < ownersOf pool fd := by
  have h := Finset.single_le_sum (f := fun j => holds fd (pool.workers j)) (fun _ _ => Nat.zero_le _) (Finset.mem_univ j)
  have hone : holds fd (pool.workers j) = 1 := by rw [hj]; exact if_pos rfl
  unfold ownersOf
  omega

/-- the queue takes one more pointer, unless it is full -/
theorem ownersOf_append {maxRequests : ℕ} {pool pool' : Pool ℤ Unit κ} {x : ℤ}
    (h : ThreadPool.step maxRequests pool (.append () (some x)) = some pool') (fd : ℤ) :
    (maxRequests < pool.workQueue.length ∧ ownersOf pool' fd = ownersOf pool fd) ∨
      (pool.workQueue.length ≤ maxRequests ∧ ownersOf pool' fd = ownersOf pool fd + if x = fd then 1 else 0) := by
  obtain ⟨-, ⟨hfull, rfl⟩ | ⟨hroom, rfl⟩⟩ := step_append h
  · exact Or.inl ⟨hfull, rfl⟩
  · refine Or.inr ⟨hroom, ?_⟩
    show (pool.workQueue ++ [some x]).count (some fd) + ∑ j, holds fd (pool.workers j) = _
    unfold ownersOf
    rw [List.count_append, List.count_singleton]
    by_cases hx : x = fd
    · simp [hx]; omega
    · simp [hx]

theorem ownersOf_run {maxRequests : ℕ} {pool pool' : Pool ℤ Unit κ} {j : κ}
    (h : ThreadPool.step maxRequests pool (.run j) = some pool') (fd : ℤ) : ownersOf pool' fd = ownersOf pool fd := by
  obtain ⟨taken, hj, ⟨-, rfl⟩ | ⟨request, rest, hq, rfl⟩⟩ := step_run h
  · have := ownersOf_setWorker pool j .waiting fd
    rw [hj] at this
    exact this
  · have hw := Run.sum_update pool.workers j (handOut request) (holds fd)
    rw [hj] at hw
    show rest.count (some fd) + ∑ i, holds fd (Function.update pool.workers j (handOut request) i) = _
    unfold ownersOf
    rw [hq]
    cases request with
    | none =>
      rw [List.count_cons_of_ne (by simp)]
      simp only [handOut, holds] at hw ⊢
      omega
    | some x =>
      rw [List.count_cons]
      simp only [handOut, holds] at hw ⊢
      by_cases hx : x = fd <;> simp [hx] at hw ⊢ <;> omega

/-- steps of the pool that move no request -/
theorem ownersOf_post {maxRequests : ℕ} {pool pool' : Pool ℤ Unit κ}
    (h : ThreadPool.step maxRequests pool (.post ()) = some pool') (fd : ℤ) : ownersOf pool' fd = ownersOf pool fd := by
  obtain ⟨-, rfl⟩ := step_post h
  rfl

theorem ownersOf_wait {maxRequests : ℕ} {pool pool' : Pool ℤ Unit κ} {j : κ}
    (h : ThreadPool.step maxRequests pool (.wait j) = some pool') (fd : ℤ) : ownersOf pool' fd = ownersOf pool fd := by
  obtain ⟨hj, n, -, rfl⟩ := step_wait h
  have := ownersOf_setWorker pool j (.woken true) fd
  rw [hj] at this
  exact this

theorem ownersOf_waitEarly {maxRequests : ℕ} {pool pool' : Pool ℤ Unit κ} {j : κ}
    (h : ThreadPool.step maxRequests pool (.waitEarly j) = some pool') (fd : ℤ) :
    ownersOf pool' fd = ownersOf pool fd := by
  obtain ⟨hj, rfl⟩ := step_waitEarly h
  have := ownersOf_setWorker pool j (.woken false) fd
  rw [hj] at this
  exact this

theorem ownersOf_finish {maxRequests : ℕ} {pool pool' : Pool ℤ Unit κ} {j : κ} {x : ℤ}
    (hj : pool.workers j = .running x) (h : ThreadPool.step maxRequests pool (.finish j) = some pool') (fd : ℤ) :
    ownersOf pool' fd + (if x = fd then 1 else 0) = ownersOf pool fd := by
  obtain ⟨-, -, rfl⟩ := step_finish h
  have := ownersOf_setWorker pool j .waiting fd
  rw [hj] at this
  exact this

/-! ## The main loop -/

/-- the slot whose event is handled, before the handler's own effect -/
structure Handled (s t : State κ) (fd : ℤ) (ev : Events) : Prop where
  users : t.users = s.users
  epoll : t.epoll = s.epoll
  pool : t.pool = s.pool
  sock : (t.users fd).sockfd = fd
  ne : fd ≠ -1
  item : t.epoll fd ≠ .absent
  pending : ∃ rest, (s.slot fd).pending = ev :: rest ∧ t.slot fd = { s.slot fd with pending := rest }
  others : ∀ g, g ≠ fd → t.slot g = s.slot g

omit [DecidableEq κ] in
theorem handled {s : State κ} {fd : ℤ} {ev : Events} {batch : List Event} (h : Own fd (s.slot fd))
    (hb : s.batch = .client fd ev :: batch) : Handled s { s with batch := batch } fd ev := by
  have hp : (s.slot fd).pending = ev :: pendingFor fd batch := by
    show pendingFor fd s.batch = _
    rw [hb, pendingFor_cons_self]
  obtain ⟨-, hs, hne, hi⟩ := h.live (by rw [Slot.places, hp, List.length_cons]; omega)
  refine ⟨rfl, rfl, rfl, hs, hne, hi, ⟨_, hp, rfl⟩, fun g hg => ?_⟩
  simp only [State.slot, hb, pendingFor_cons_other hg.symm]

omit [DecidableEq κ] in
theorem hangup_moves {maxRequests : ℕ} {s t : State κ} {fd : ℤ} {ev : Events} {batch : List Event}
    (hh : Handled s t fd ev) (hb : s.batch = .client fd ev :: batch) (hev : ev.hup = true) (a : Answers) (g : ℤ) :
    Moves maxRequests s (t.close fd) (.handle a) g := by
  by_cases hg : g = fd
  · subst hg
    obtain ⟨rest, hp, hslot⟩ := hh.pending
    refine Or.inr ⟨.hangup, ?_, a, ev, batch, rfl, hb, hev⟩
    rw [State.slot_close_self hh.sock hh.ne, hslot]
    exact .hangup hp hev
  · exact Or.inl ((State.slot_close_other hh.sock hh.ne hg).trans (hh.others g hg))

theorem readable_moves {maxRequests : ℕ} {s t s' : State κ} {fd : ℤ} {ev : Events} {batch : List Event} {a : Answers}
    (hh : Handled s t fd ev) (hb : s.batch = .client fd ev :: batch) (hhup : ev.hup = false) (hev : ev.epollIn = true)
    (h : t.onReadable maxRequests fd a.recv = some s') (g : ℤ) : Moves maxRequests s s' (.handle a) g := by
  obtain ⟨rest, hp, hslot⟩ := hh.pending
  have husers : t.users fd = (s.slot fd).conn := congrFun hh.users fd
  unfold State.onReadable at h
  cases hr : read a.recv (t.users fd).toReadSide with
  | none => rw [hr] at h; cases h
  | some x =>
    obtain ⟨b, r⟩ := x
    rw [hr] at h
    cases b with
    | false =>
      obtain rfl := Option.some.inj h
      have hsock : ((t.setRead fd r).users fd).sockfd = fd := by
        simp only [State.setRead, Function.update_self]
        exact hh.sock
      by_cases hg : g = fd
      · subst hg
        refine Or.inr ⟨.readClose, ?_, trivial⟩
        rw [State.slot_close_self hsock hh.ne, State.slot_setRead_self, hslot, husers]
        exact .readClose hp hev
      · refine Or.inl ?_
        rw [State.slot_close_other hsock hh.ne hg, State.slot_setRead_other hg, hh.others g hg]
    | true =>
      dsimp only at h
      cases hpool : ThreadPool.step maxRequests t.pool (.append () (some fd)) with
      | none => rw [hpool] at h; cases h
      | some pool =>
        rw [hpool] at h
        obtain rfl := Option.some.inj h
        have hset : State.slot { t.setRead fd r with pool := pool } g =
            { (t.setRead fd r).slot g with owners := ownersOf pool g } := rfl
        have howners := ownersOf_append hpool g
        rw [hh.pool] at howners
        unfold Moves
        rw [hset]
        by_cases hg : g = fd
        · subst hg
          rw [State.slot_setRead_self, hslot, husers]
          simp only [if_true] at howners
          rcases howners with ⟨hfull, heq⟩ | ⟨-, heq⟩
          · refine Or.inr ⟨.drop, ?_, a, ev, batch, r, rfl, hb, hhup, hev, by rw [← hr, husers]; rfl, hfull⟩
            rw [heq]
            exact .drop hp hev
          · refine Or.inr ⟨.enqueue, ?_, trivial⟩
            rw [heq]
            exact .enqueue hp hev
        · rw [State.slot_setRead_other hg, hh.others g hg]
          simp only [if_neg (Ne.symm hg), Nat.add_zero] at howners
          refine Or.inl ?_
          rcases howners with ⟨-, heq⟩ | ⟨-, heq⟩ <;> rw [heq] <;> rfl

omit [DecidableEq κ] in
theorem writable_moves {maxRequests : ℕ} {s t s' : State κ} {fd : ℤ} {ev : Events} {batch : List Event} {a : Answers}
    (hh : Handled s t fd ev) (hb : s.batch = .client fd ev :: batch) (hhup : ev.hup = false) (hin : ev.epollIn = false)
    (hev : ev.epollOut = true) (h : t.onWritable fd a.writev = some s') (g : ℤ) :
    Moves maxRequests s s' (.handle a) g := by
  obtain ⟨rest, hp, hslot⟩ := hh.pending
  have husers : t.users fd = (s.slot fd).conn := congrFun hh.users fd
  have hlog : t.logs fd = (s.slot fd).log := congrArg Slot.log hslot
  have hcause : Cause maxRequests s (.handle a) fd .send := ⟨a, ev, batch, rfl, hb, hhup, hin⟩
  unfold State.onWritable at h
  cases hw : write a.writev (t.users fd) (t.env fd) with
  | none => rw [hw] at h; cases h
  | some x =>
    rw [hw] at h
    have hlocal := write_local hh.sock hw
    have hshared := write_shared hw
    obtain ⟨b, c, e⟩ := x
    have hend := write_end hw
    cases b with
    | true =>
      obtain rfl := Option.some.inj h
      by_cases hg : g = fd
      · subst hg
        refine Or.inr ⟨.send, ?_, hcause⟩
        cases hend with
        | idle h0 =>
          rw [hh.sock, ← Env.append_nil (t.env g), State.slot_put_modfd hh.item, hslot, List.append_nil, husers, hlog]
          exact .sendIdle hp hev (husers ▸ h0)
        | blocked hs h0 hbytes =>
          rw [hh.sock, State.slot_put_modfd hh.item, hslot, hlog]
          exact .sendBlocked hp hev (husers ▸ hs) (husers ▸ hbytes)
        | kept hs h0 hl =>
          rw [hh.sock, State.slot_put_modfd hh.item, hslot, hlog]
          exact .sendKept hp hev (husers ▸ hs) (husers ▸ hl)
      · exact Or.inl ((State.slot_put_other hg hlocal).trans (hh.others g hg))
    | false =>
      obtain rfl := Option.some.inj h
      have hsock : ((t.put fd (c, e)).users fd).sockfd = fd := by
        simp only [State.put, Function.update_self]
        exact hshared.2.2.trans hh.sock
      by_cases hg : g = fd
      · subst hg
        refine Or.inr ⟨.sendClose, ?_, trivial⟩
        rw [State.slot_close_self hsock hh.ne]
        cases hend with
        | failed hs h0 hbytes =>
          rw [State.slot_put_append, hslot, hlog]
          exact .sendClose hp hev (husers ▸ hs) (Or.inr (husers ▸ hbytes))
        | done hs h0 hl =>
          rw [hh.sock, State.slot_put_modfd hh.item, hslot, hlog]
          exact .sendClose hp hev (husers ▸ hs) (Or.inl (husers ▸ hl))
      · refine Or.inl ?_
        rw [State.slot_close_other hsock hh.ne hg, State.slot_put_other hg hlocal, hh.others g hg]

omit [DecidableEq κ] in
theorem accept_moves {maxRequests : ℕ} {s t s' : State κ} (hi : ∀ fd, Own fd (s.slot fd))
    (ht : ∀ g, t.slot g = s.slot g) {accepted : Option ℤ} (h : t.onAccept accepted = some s') (op : Op κ) (g : ℤ) :
    Moves maxRequests s s' op g := by
  unfold State.onAccept at h
  cases accepted with
  | none =>
    obtain rfl := Option.some.inj h
    exact Or.inl (ht g)
  | some fd =>
    dsimp only at h
    split_ifs at h with hfd hfull
    · obtain rfl := Option.some.inj h
      exact Or.inl (ht g)
    · obtain rfl := Option.some.inj h
      by_cases hg : g = fd
      · subst hg
        have hclosed : (s.slot g).opened = false := by
          rw [← ht g]
          exact decide_eq_false hfd.2
        have habs : t.epoll g = .absent := by
          have := (hi g).absent.2 hclosed
          rwa [← ht g] at this
        refine Or.inr ⟨.accept, ?_, trivial⟩
        have hslot : ((t.openFd g).put g ((t.users g).initConn g ((t.openFd g).env g))).slot g =
            { t.slot g with
              conn := Conn.init { t.users g with sockfd := g }, item := .armed .epollIn, opened := true } := by
          rw [State.slot_put_self]
          simp [Conn.initConn, addfd, State.openFd, State.env, State.slot, habs]
        rw [hslot, ht g, show t.users g = (s.slot g).conn from congrArg Slot.conn (ht g)]
        exact .accept hfd.1 hclosed
      · refine Or.inl ?_
        rw [State.slot_put_other hg (initConn_local fd _ _), ← ht g]
        simp [State.slot, State.openFd, hg]

omit [DecidableEq κ] in
/-- the descriptor -1 of closed objects is not registered -/
theorem epoll_none {s : State κ} (hi : ∀ fd, Own fd (s.slot fd)) : s.epoll (-1) = .absent := by
  refine (hi (-1)).absent.2 ?_
  cases ho : (s.slot (-1)).opened with
  | false => rfl
  | true => exact absurd ((hi (-1)).sock ho).2 (by decide)

theorem process_moves {maxRequests : ℕ} {s : State κ} (hi : ∀ fd, Own fd (s.slot fd)) {j : κ} {fd : ℤ}
    {fs : FileSystem} {code : HttpCode} {x : Conn × Env} {pool : Pool ℤ Unit κ} (hj : s.pool.workers j = .running fd)
    (hx : HttpConn.process fs (s.users fd) (s.env fd) = some (code, x))
    (hend : ProcessEnd fs (s.users fd) (s.env fd) (code, x))
    (hpool : ThreadPool.step maxRequests s.pool (.finish j) = some pool) (g : ℤ) :
    Moves maxRequests s { s.put fd x with pool := pool } (.process j fs) g := by
  have howners := ownersOf_finish hj hpool
  have hfd := howners fd
  rw [if_pos rfl] at hfd
  obtain ⟨-, hsock, hne, hitem⟩ := (hi fd).live (by
    have : (s.slot fd).owners = ownersOf s.pool fd := rfl
    rw [Slot.places]; omega)
  have hset : State.slot { s.put fd x with pool := pool } g = { (s.put fd x).slot g with owners := ownersOf pool g } := rfl
  unfold Moves
  rw [hset]
  by_cases hg : g = fd
  · subst hg
    have hn : (s.slot g).owners = ownersOf pool g + 1 := hfd.symm
    refine Or.inr ⟨.process code, ?_, j, fs, x, rfl, hj, hx⟩
    have husers : (s.users g).sockfd = g := hsock
    obtain ⟨c, e⟩ := x
    cases hend with
    | waits =>
      rw [husers, ← Env.append_nil (s.env g), State.slot_put_modfd hitem, List.append_nil]
      exact .waits hn
    | answers hq hw =>
      rw [husers, State.slot_put_modfd hitem]
      exact .answers hn hq hw
    | @refuses _ c' l hq hw =>
      have hc : (processWrite code c').2.sockfd = g := ((processWrite_kept code c').sockfd.trans hq.sockfd).trans husers
      have habs : (closeConn (processWrite code c').2 ((s.env g).append l)).2.epoll (-1) = .absent := by
        rw [closeConn_open (by rwa [hc]), hc]
        exact (Function.update_of_ne hne.symm _ _).trans (epoll_none hi)
      have hm1 : (closeConn (processWrite code c').2 ((s.env g).append l)).1.sockfd = -1 := by
        rw [closeConn_open (by rwa [hc])]
      have hclose : (s.put g (closeConn (processWrite code c').2 ((s.env g).append l))).slot g =
          { s.slot g with conn := (processWrite code c').2, log := s.logs g ++ l }.close g := by
        rw [State.slot_put_self, closeConn_open (by rwa [hc]), hc]
        simp [Slot.close, removefd, Env.record, Env.append, State.env]
      rw [hm1, modfd_absent habs, Prod.mk.eta, hclose]
      exact .refuses hn hq hw
  · refine Or.inl ?_
    have hother := howners g
    rw [if_neg (Ne.symm hg), Nat.add_zero] at hother
    rw [State.slot_put_other hg (process_local hsock hne (epoll_none hi) hend), hother]
    rfl

omit [DecidableEq κ] in
theorem pool_moves {maxRequests : ℕ} {s : State κ} {pool : Pool ℤ Unit κ} {fd : ℤ}
    (h : ownersOf pool fd = ownersOf s.pool fd) (op : Op κ) : Moves maxRequests s { s with pool := pool } op fd := by
  refine Or.inl ?_
  simp only [State.slot, h]

theorem event_moves {maxRequests : ℕ} {s s' : State κ} (hi : ∀ fd, Own fd (s.slot fd)) {a : Answers} {ev : Event}
    {batch : List Event} (hb : s.batch = ev :: batch)
    (h : State.onEvent maxRequests a { s with batch := batch } ev = some s') (fd : ℤ) :
    Moves maxRequests s s' (.handle a) fd := by
  cases ev with
  | listen =>
    refine accept_moves hi (fun g => ?_) h _ fd
    simp only [State.slot, hb]
    rfl
  | client x ev =>
    have hh := handled (hi x) hb
    simp only [State.onEvent] at h
    split_ifs at h with h1 h2 h3
    · obtain rfl := Option.some.inj h
      exact hangup_moves hh hb h1 a fd
    · exact readable_moves hh hb (by simpa using h1) h2 h fd
    · exact writable_moves hh hb (by simpa using h1) (by simpa using h2) h3 h fd
    · obtain rfl := Option.some.inj h
      by_cases hfd : fd = x
      · subst hfd
        obtain ⟨rest, hp, hslot⟩ := hh.pending
        refine Or.inr ⟨.ignore, ?_, trivial⟩
        rw [hslot]
        exact .ignore hp ⟨by simpa using h1, by simpa using h2, by simpa using h3⟩
      · exact Or.inl (hh.others fd hfd)

/-- the parser of a worker stores nothing in front of its `readBuffer` -/
def contained (s : State κ) : Op κ → Prop
  | .process j _ => ∀ fd, s.pool.workers j = .running fd → (s.users fd).Contained
  | _ => True

omit [Fintype κ] in
theorem step_process_contained {maxRequests : ℕ} {s s' : State κ} {j : κ} {fs : FileSystem}
    (h : step maxRequests s (.process j fs) = some s') (hin : contained s (.process j fs)) :
    ∃ fd code x p, s.pool.workers j = .running fd ∧ HttpConn.process fs (s.users fd) (s.env fd) = some (code, x) ∧
      ProcessEnd fs (s.users fd) (s.env fd) (code, x) ∧ ThreadPool.step maxRequests s.pool (.finish j) = some p ∧
      s' = { s.put fd x with pool := p } := by
  obtain ⟨fd, code, x, t, p, hj, hx, hdef, ht, hp, rfl⟩ := step_process h
  obtain ⟨hend, hout⟩ := (hin fd hj).process_end hx hdef
  rw [storeOutside_none (by simpa [State.put] using hout)] at ht
  cases ht
  exact ⟨fd, code, x, p, hj, hx, hend, hp, rfl⟩

/-- **Every step of the server leaves a slot alone or is a step of the slot.** -/
theorem step_slot {maxRequests : ℕ} {s s' : State κ} {op : Op κ} (hi : ∀ fd, Own fd (s.slot fd))
    (hin : contained s op) (h : step maxRequests s op = some s') (fd : ℤ) : Moves maxRequests s s' op fd := by
  cases op with
  | epollWait events =>
    obtain ⟨hb, hok, rfl⟩ := step_epollWait h
    exact epollWait_moves hb hok fd
  | handle a =>
    obtain ⟨ev, batch, hb, hev⟩ := step_handle h
    exact event_moves hi hb hev fd
  | post =>
    obtain ⟨p, hp, rfl⟩ := setPool_some h
    exact pool_moves (ownersOf_post hp fd) _
  | wait j =>
    obtain ⟨p, hp, rfl⟩ := setPool_some h
    exact pool_moves (ownersOf_wait hp fd) _
  | waitEarly j =>
    obtain ⟨p, hp, rfl⟩ := setPool_some h
    exact pool_moves (ownersOf_waitEarly hp fd) _
  | run j =>
    obtain ⟨p, hp, rfl⟩ := setPool_some h
    exact pool_moves (ownersOf_run hp fd) _
  | process j fs =>
    obtain ⟨x, code, y, p, hj, hx, hend, hp, rfl⟩ := step_process_contained h hin
    exact process_moves hi hj hx hend hp fd

/-! ## The number of connections, along a step -/

/-- the invariant of the server: every slot has at most one owner, and `userCount` counts the open connections -/
structure Inv (s : State κ) : Prop where
  slots : ∀ fd, Own fd (s.slot fd)
  count : s.userCount = s.opened.card

omit [DecidableEq κ] in
theorem Inv.live {s : State κ} (h : Inv s) {fd : ℤ} (hp : 0 < (s.slot fd).places) :
    fd ∈ s.opened ∧ (s.users fd).sockfd = fd ∧ fd ≠ -1 := by
  obtain ⟨h1, h2, h3, -⟩ := (h.slots fd).live hp
  exact ⟨of_decide_eq_true h1, h2, h3⟩

theorem event_count {maxRequests : ℕ} {s s' : State κ} (hi : Inv s) {a : Answers} {ev : Event} {batch : List Event}
    (hb : s.batch = ev :: batch) (h : State.onEvent maxRequests a { s with batch := batch } ev = some s') :
    s'.userCount = s'.opened.card := by
  cases ev with
  | listen =>
    simp only [State.onEvent, State.onAccept] at h
    cases ha : a.accepted with
    | none =>
      rw [ha] at h
      obtain rfl := Option.some.inj h
      exact hi.count
    | some fd =>
      rw [ha] at h
      dsimp only at h
      split_ifs at h with hfd hfull
      · obtain rfl := Option.some.inj h
        exact hi.count
      · obtain rfl := Option.some.inj h
        have hcard : (insert fd s.opened).card = s.opened.card + 1 := Finset.card_insert_of_notMem hfd.2
        have hcount := hi.count
        simp only [State.put, Conn.initConn, addfd, State.openFd, State.env]
        split <;> simp only [hcard, hcount] <;> omega
  | client x ev =>
    have hplaces : 0 < (s.slot x).places := by
      have hp : (s.slot x).pending = ev :: pendingFor x batch := by
        show pendingFor x s.batch = _
        rw [hb, pendingFor_cons_self]
      rw [Slot.places, hp, List.length_cons]
      omega
    obtain ⟨hin, hsock, hne⟩ := hi.live hplaces
    simp only [State.onEvent] at h
    split_ifs at h with h1 h2 h3
    · obtain rfl := Option.some.inj h
      exact closeConn_counts (e := s.env x) hi.count hsock hne hin
    · unfold State.onReadable at h
      dsimp only at h
      split at h
      · split at h
        · obtain rfl := Option.some.inj h
          exact hi.count
        · cases h
      · rename_i r hr
        obtain rfl := Option.some.inj h
        refine closeConn_counts (e := s.env x) hi.count ?_ hne hin
        simp only [State.setRead, Function.update_self]
        exact hsock
      · cases h
    · unfold State.onWritable at h
      dsimp only at h
      split at h
      · rename_i y hw
        obtain rfl := Option.some.inj h
        obtain ⟨ho, hu, -⟩ := write_shared hw
        show y.2.userCount = (y.2.opened.card : ℤ)
        rw [ho, hu]
        exact hi.count
      · rename_i y hw
        obtain rfl := Option.some.inj h
        obtain ⟨ho, hu, hs⟩ := write_shared hw
        refine @closeConn_counts x _ _ ?_ ?_ hne ?_
        · show y.2.userCount = (y.2.opened.card : ℤ)
          rw [ho, hu]
          exact hi.count
        · simp only [State.put, Function.update_self]
          exact hs.trans hsock
        · show x ∈ y.2.opened
          rw [ho]
          exact hin
      · cases h
    · obtain rfl := Option.some.inj h
      exact hi.count

theorem step_count {maxRequests : ℕ} {s s' : State κ} {op : Op κ} (hi : Inv s) (hin : contained s op)
    (h : step maxRequests s op = some s') : s'.userCount = s'.opened.card := by
  cases op with
  | epollWait events =>
    obtain ⟨-, -, rfl⟩ := step_epollWait h
    exact hi.count
  | handle a =>
    obtain ⟨ev, batch, hb, hev⟩ := step_handle h
    exact event_count hi hb hev
  | post | wait | waitEarly | run =>
    obtain ⟨p, -, rfl⟩ := setPool_some h
    exact hi.count
  | process j fs =>
    obtain ⟨x, code, y, p, hj, -, hend, hp, rfl⟩ := step_process_contained h hin
    have howners := ownersOf_finish hj hp x
    rw [if_pos rfl] at howners
    have hplaces : 0 < (s.slot x).places := by
      show 0 < ownersOf s.pool x + _ + _
      omega
    obtain ⟨hopen, hsock, hne⟩ := hi.live hplaces
    exact process_counts (e := s.env x) hi.count hsock hne hopen hend

theorem Inv.step {maxRequests : ℕ} {s s' : State κ} {op : Op κ} (h : Inv s) (hin : contained s op)
    (hs : Server.step maxRequests s op = some s') : Inv s' := by
  refine ⟨fun fd => ?_, step_count h hin hs⟩
  rcases step_slot h.slots hin hs fd with heq | ⟨act, hstep, -⟩
  · exact heq ▸ h.slots fd
  · exact (h.slots fd).step hstep

omit [Fintype κ] in
/-- the object of the worker after `process` -/
theorem users_process {maxRequests : ℕ} {s s' : State κ} {op : Op κ} {j : κ} {fs : FileSystem} {fd : ℤ}
    {code : HttpCode} {x : Conn × Env} (hop : op = .process j fs) (hj : s.pool.workers j = .running fd)
    (hx : HttpConn.process fs (s.users fd) (s.env fd) = some (code, x)) (hin : contained s op)
    (h : Server.step maxRequests s op = some s') : s'.users fd = x.1 := by
  subst hop
  obtain ⟨fd', code', x', p, hj', hx', -, -, rfl⟩ := step_process_contained h hin
  obtain rfl : fd = fd' := by rw [hj] at hj'; injection hj'
  rw [hx] at hx'
  cases hx'
  exact Function.update_self _ _ _

/-! ## Runs -/

omit [DecidableEq κ] in
theorem slot_start (users : ℤ → Conn) (fd : ℤ) :
    (State.start users : State κ).slot fd = ⟨users fd, .absent, false, [], [], 0⟩ := by
  simp [State.slot, State.start, pendingFor, ownersOf, Pool.init, holds]

omit [DecidableEq κ] in
theorem inv_start (users : ℤ → Conn) : Inv (State.start users : State κ) := by
  refine ⟨fun fd => ?_, rfl⟩
  rw [slot_start]
  exact ⟨Nat.zero_le _, fun h => absurd h (lt_irrefl _), nofun, fun _ => rfl, fun _ => rfl⟩

/-- **What the slots keep holds after a step of the server.** -/
theorem slots_step {maxRequests : ℕ} {P : ℤ → Slot → Prop} {s s' : State κ} {op : Op κ} (hi : Inv s)
    (hin : contained s op) (h : Server.step maxRequests s op = some s')
    (hstep : ∀ fd act, Cause maxRequests s op fd act → SlotStep fd (s.slot fd) act (s'.slot fd) → P fd (s'.slot fd))
    (hp : ∀ fd, P fd (s.slot fd)) (fd : ℤ) : P fd (s'.slot fd) := by
  rcases step_slot hi.slots hin h fd with heq | ⟨act, hact, hcause⟩
  · exact heq ▸ hp fd
  · exact hstep fd act hcause hact

omit [Fintype κ] in
/-- the pool makes a step of its own, or none -/
theorem step_pool {maxRequests : ℕ} {s s' : State κ} {op : Op κ} (h : Server.step maxRequests s op = some s') :
    s'.pool = s.pool ∨ ∃ o, ThreadPool.step maxRequests s.pool o = some s'.pool := by
  cases op with
  | epollWait events =>
    obtain ⟨-, -, rfl⟩ := step_epollWait h
    exact Or.inl rfl
  | handle a =>
    obtain ⟨ev, batch, hb, hev⟩ := step_handle h
    cases ev with
    | listen =>
      simp only [State.onEvent, State.onAccept] at hev
      cases ha : a.accepted with
      | none => rw [ha] at hev; cases hev; exact Or.inl rfl
      | some fd =>
        rw [ha] at hev
        dsimp only at hev
        split_ifs at hev <;> cases hev <;> exact Or.inl rfl
    | client fd ev =>
      simp only [State.onEvent] at hev
      split_ifs at hev
      · cases hev; exact Or.inl rfl
      · unfold State.onReadable at hev
        split at hev
        · split at hev
          · rename_i p hp
            cases hev
            exact Or.inr ⟨_, hp⟩
          · cases hev
        · cases hev; exact Or.inl rfl
        · cases hev
      · unfold State.onWritable at hev
        split at hev
        · cases hev; exact Or.inl rfl
        · cases hev; exact Or.inl rfl
        · cases hev
      · cases hev; exact Or.inl rfl
  | post | wait | waitEarly | run =>
    obtain ⟨p, hp, rfl⟩ := setPool_some h
    exact Or.inr ⟨_, hp⟩
  | process j fs =>
    obtain ⟨-, -, -, -, p, -, -, -, -, hp, rfl⟩ := step_process h
    exact Or.inr ⟨_, hp⟩

/-- **The pool inside the server keeps the invariant of the pool.** -/
theorem run_pool {maxRequests : ℕ} {users : ℤ → Conn} {ops : List (Op κ)} {s : State κ}
    (h : Run.exec (Server.step maxRequests) (State.start users) ops = some s) : ThreadPool.Inv s.pool := by
  refine Run.exec_inv (I := fun s : State κ => ThreadPool.Inv s.pool) (fun s op t hi hs => ?_) ThreadPool.inv_init h
  rcases step_pool hs with heq | ⟨o, ho⟩
  · exact heq ▸ hi
  · exact hi.step ho

end Threads

end WebServer.Server
