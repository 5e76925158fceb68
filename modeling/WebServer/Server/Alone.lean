/-
A connection of the server, as if it were alone.

The main thread and the workers share `users`, the epoll set and the pool. `Run.project` takes from a run of the server
the calls of `read`, `process` and `write` for one descriptor (`State.uses`), with what the kernel answered. `useAlone`
makes such calls on a single object that nobody else touches.

- `process_env`, `write_env`: what happens to an object, and the calls made for it, do not depend on the rest of the
  process.
- `Tracks.step`: for a connection, a step of the server is one call of the object alone, or nothing.
- `served_alone`: so in every run of the server without negative lengths a connection has gone through exactly what it
  goes through alone.
-/
import WebServer.HttpConn.Isolation
import WebServer.Server.Replies

namespace WebServer.Server

open WebServer.HttpConn WebServer.ThreadPool

/-! ## An object and the rest of the process -/

/-- a result, the object and its log -/
def seen {α : Type*} (x : α × Conn × Env) : α × Conn × List Call := (x.1, x.2.1, x.2.2.calls)

section Environment

variable {e f : Env}

theorem closeConn_env (c : Conn) (h : e.calls = f.calls) :
    (closeConn c e).1 = (closeConn c f).1 ∧ (closeConn c e).2.calls = (closeConn c f).2.calls := by
  unfold closeConn
  split_ifs
  · exact ⟨rfl, congrArg (· ++ [Call.close c.sockfd]) h⟩
  · exact ⟨rfl, h⟩

theorem writeLoop_env (rs : List Writev) (c : Conn) (h : e.calls = f.calls) :
    (writeLoop rs c e).map seen = (writeLoop rs c f).map seen := by
  induction rs generalizing c e f with
  | nil => rfl
  | cons r rs ih =>
    cases r with
    | eagain => simp only [writeLoop, Option.map_some, seen, modfd_calls, h]
    | error => simp only [writeLoop, unmap_eq, Option.map_some, seen, Env.append, h]
    | sent n =>
      have hrecord : (e.record (.writev c.iov n)).calls = (f.record (.writev c.iov n)).calls :=
        congrArg (· ++ [Call.writev c.iov n]) h
      simp only [writeLoop, unmap_eq]
      split_ifs
      · simp only [Option.map_some, seen, modfd_calls, Env.append, hrecord]
      · simp only [Option.map_some, seen, modfd_calls, Env.append, hrecord]
      · exact ih _ hrecord

theorem write_env (rs : List Writev) (c : Conn) (h : e.calls = f.calls) :
    (HttpConn.write rs c e).map seen = (HttpConn.write rs c f).map seen := by
  unfold HttpConn.write
  split_ifs
  · simp only [Option.map_some, seen, modfd_calls, h]
  · exact writeLoop_env rs c h

theorem doRequest_env (fs : FileSystem) (c : Conn) (h : e.calls = f.calls) :
    seen (doRequest fs c e) = seen (doRequest fs c f) := by
  unfold doRequest
  dsimp only
  split
  · simp only [seen, Env.record, h]
  · split_ifs <;> simp only [seen, Env.record, h]

theorem processRead_env (fs : FileSystem) (c : Conn) (h : e.calls = f.calls) :
    (processRead fs c e).map seen = (processRead fs c f).map seen := by
  unfold processRead
  split
  · rfl
  · rename_i r _
    cases (c.setRead r).storeOwn with
    | none => rfl
    | some d => exact congrArg some (doRequest_env fs d h)
  · simp only [Option.map_some, seen, h]

theorem process_env (fs : FileSystem) (c : Conn) (h : e.calls = f.calls) :
    (HttpConn.process fs c e).map seen = (HttpConn.process fs c f).map seen := by
  have hread := processRead_env fs c h
  unfold HttpConn.process
  generalize processRead fs c e = x at hread
  generalize processRead fs c f = y at hread
  cases x with
  | none =>
    cases y with
    | none => rfl
    | some y => cases hread
  | some x =>
    cases y with
    | none => cases hread
    | some y =>
      obtain ⟨code, c', e'⟩ := x
      obtain ⟨code', d', f'⟩ := y
      obtain ⟨rfl, hrest⟩ := Prod.mk.inj (Option.some.inj hread)
      obtain ⟨rfl, hcalls⟩ := Prod.mk.inj hrest
      dsimp only at hcalls ⊢
      split_ifs
      · simp only [Option.map_some, seen, modfd_calls, hcalls]
      · simp only [Option.map_some, seen, hcalls]
      · simp only [Option.map_some, seen, modfd_calls, hcalls]
      · obtain ⟨h1, h2⟩ := closeConn_env (processWrite code c').2 hcalls
        simp only [Option.map_some, seen, modfd_calls, h1, h2]

end Environment

/-! ## One object alone -/

/-- a call on an object that is alone, with its log -/
def useAlone (x : Conn × List Call) (u : Use) : Option (Conn × List Call) :=
  (use (x.1, { Env.blank with calls := x.2 }) u).map fun y => (y.2.1, y.2.2.calls)

theorem useAlone_read {x : Conn × List Call} {rs : List Recv} {b : Bool} {r : ReadSide}
    (h : read rs x.1.toReadSide = some (b, r)) : useAlone x (.read rs) = some (x.1.setRead r, x.2) := by
  simp only [useAlone, use, h, Option.map_some]

theorem useAlone_process {fs : FileSystem} {c c' : Conn} {e e' : Env} {code : HttpCode}
    (h : HttpConn.process fs c e = some (code, c', e')) (hdef : code ≠ .undefined) :
    useAlone (c, e.calls) (.process fs) = some (c', e'.calls) := by
  have henv := process_env (e := e) (f := { Env.blank with calls := e.calls }) fs c rfl
  rw [h] at henv
  obtain ⟨y, hy, hseen⟩ := Option.map_eq_some_iff.1 henv.symm
  obtain ⟨hcode, hrest⟩ := Prod.mk.inj hseen
  simp only [useAlone, use, hy, hcode, if_neg hdef, Option.map_some]
  exact congrArg some hrest

theorem useAlone_write {rs : List Writev} {c c' : Conn} {e e' : Env} {b : Bool}
    (h : HttpConn.write rs c e = some (b, c', e')) : useAlone (c, e.calls) (.write rs) = some (c', e'.calls) := by
  have henv := write_env (e := e) (f := { Env.blank with calls := e.calls }) rs c rfl
  rw [h] at henv
  obtain ⟨y, hy, hseen⟩ := Option.map_eq_some_iff.1 henv.symm
  obtain ⟨-, hrest⟩ := Prod.mk.inj hseen
  simp only [useAlone, use, hy, Option.map_some]
  exact congrArg some hrest

/-! ## The server seen from one object -/

section Server

variable {κ : Type*} [DecidableEq κ]

/-- the call that an operation of the server makes on `users[fd]` -/
def State.uses (fd : ℤ) (s : State κ) : Op κ → Option Use
  | .handle a =>
    match s.batch with
    | .client g ev :: _ =>
      if g = fd ∧ ev.hup = false then
        if ev.epollIn then some (.read a.recv) else if ev.epollOut then some (.write a.writev) else none
      else none
    | _ => none
  | .process j fs => if s.pool.workers j = .running fd then some (.process fs) else none
  | _ => none

/-- the operation does not accept a connection on `fd` -/
def Spares (fd : ℤ) : Op κ → Prop
  | .handle a => a.accepted ≠ some fd
  | _ => True

/-- the slot is open and holds this object, or it was closed with this log -/
def Tracks (fd : ℤ) (v : Slot) (x : Conn × List Call) : Prop :=
  (v.opened = true ∧ v.conn = x.1 ∧ v.log = x.2) ∨ (v.opened = false ∧ v.log = x.2 ++ [.close fd])

variable {maxRequests : ℕ} {s s' : State κ} {fd : ℤ} {x : Conn × List Call}

theorem Tracks.closed {v : Slot} (h : v.log = x.2) (fd : ℤ) : Tracks fd (v.close fd) x :=
  Or.inr ⟨rfl, congrArg (· ++ [Call.close fd]) h⟩

theorem Tracks.live {v : Slot} (h : Tracks fd v x) (hopen : v.opened = true) : v.conn = x.1 ∧ v.log = x.2 := by
  rcases h with h | h
  · exact h.2
  · rw [hopen] at h
    cases h.1

variable [Fintype κ]

/-- an event of another connection is nothing to `fd` -/
theorem other_event {g : ℤ} {ev : Events} {batch : List Event} {a : Answers} (hi : ∀ g, Own g (s.slot g)) (hg : fd ≠ g)
    (hb : s.batch = .client g ev :: batch) (ht : Tracks fd (s.slot fd) x)
    (h : State.onEvent maxRequests a { s with batch := batch } (.client g ev) = some s') : Tracks fd (s'.slot fd) x := by
  have hh := handled (hi g) hb
  rw [← hh.others fd hg] at ht
  generalize { s with batch := batch } = t at hh ht h
  simp only [State.onEvent] at h
  split_ifs at h with hhup hin hout
  · obtain rfl := Option.some.inj h
    rwa [State.slot_close_other hh.sock hh.ne hg]
  · unfold State.onReadable at h
    split at h
    · rename_i r hr
      split at h
      · obtain rfl := Option.some.inj h
        rw [← State.slot_setRead_other hg r] at ht
        exact ht
      · cases h
    · rename_i r hr
      obtain rfl := Option.some.inj h
      have hsock : ((t.setRead g r).users g).sockfd = g := by
        rw [show (t.setRead g r).users g = (t.users g).setRead r from Function.update_self ..]
        exact hh.sock
      rwa [State.slot_close_other hsock hh.ne hg, State.slot_setRead_other hg]
    · cases h
  · unfold State.onWritable at h
    split at h
    · rename_i y hy
      obtain rfl := Option.some.inj h
      rwa [State.slot_put_other hg (write_local hh.sock hy)]
    · rename_i y hy
      obtain rfl := Option.some.inj h
      have hsock : ((t.put g y).users g).sockfd = g := by
        rw [show (t.put g y).users g = y.1 from Function.update_self ..]
        exact (write_shared hy).2.2.trans hh.sock
      rwa [State.slot_close_other hsock hh.ne hg, State.slot_put_other hg (write_local hh.sock hy)]
    · cases h
  · obtain rfl := Option.some.inj h
    exact ht

/-- what a call, or no call, leaves of the slot -/
def Follows (fd : ℤ) (v : Slot) (x : Conn × List Call) : Option Use → Prop
  | none => Tracks fd v x
  | some u => ∃ y, useAlone x u = some y ∧ Tracks fd v y

/-- an event of `fd` is a call on its object, or closes it -/
theorem own_event {ev : Events} {batch : List Event} {a : Answers} (hi : ∀ g, Own g (s.slot g))
    (hb : s.batch = .client fd ev :: batch) (ht : Tracks fd (s.slot fd) x)
    (h : State.onEvent maxRequests a { s with batch := batch } (.client fd ev) = some s') :
    Follows fd (s'.slot fd) x (s.uses fd (.handle a)) := by
  have hh := handled (hi fd) hb
  obtain ⟨rest, hpend, hslot⟩ := hh.pending
  have hopen : (s.slot fd).opened = true := ((hi fd).delivered hpend).2.2.2.1
  obtain ⟨hconn, hlog⟩ := ht.live hopen
  simp only [State.uses, hb, true_and]
  generalize { s with batch := batch } = t at hh hslot h
  have hobject : t.users fd = x.1 := (congrArg Slot.conn hslot).trans hconn
  have hcalls : t.logs fd = x.2 := (congrArg Slot.log hslot).trans hlog
  have hlive : (t.slot fd).opened = true := (congrArg Slot.opened hslot).trans hopen
  have hx : (t.users fd, (t.env fd).calls) = x := Prod.ext hobject hcalls
  simp only [State.onEvent] at h
  by_cases hhup : ev.hup = true
  · rw [if_pos hhup] at h
    rw [if_neg (by simp [hhup])]
    obtain rfl := Option.some.inj h
    rw [State.slot_close_self hh.sock hh.ne]
    exact Tracks.closed hcalls fd
  rw [if_neg hhup] at h
  rw [if_pos (Bool.eq_false_iff.2 hhup)]
  split_ifs at h ⊢ with hin hout
  · unfold State.onReadable at h
    split at h
    · rename_i r hr
      rw [hobject] at hr
      split at h
      · obtain rfl := Option.some.inj h
        refine ⟨_, useAlone_read hr, Or.inl ⟨hlive, ?_, hcalls⟩⟩
        exact (Function.update_self fd ((t.users fd).setRead r) t.users).trans (congrArg (Conn.setRead · r) hobject)
      · cases h
    · rename_i r hr
      rw [hobject] at hr
      obtain rfl := Option.some.inj h
      have hset : (t.setRead fd r).users fd = (t.users fd).setRead r := Function.update_self ..
      have hsock : ((t.setRead fd r).users fd).sockfd = fd := hset ▸ hh.sock
      refine ⟨_, useAlone_read hr, ?_⟩
      rw [State.slot_close_self hsock hh.ne]
      exact Tracks.closed hcalls fd
    · cases h
  · unfold State.onWritable at h
    split at h
    · rename_i y hy
      obtain rfl := Option.some.inj h
      have huse := useAlone_write hy
      rw [hx] at huse
      refine ⟨_, huse, ?_⟩
      rw [State.slot_put_self]
      have hstays : fd ∈ y.2.opened := (write_shared hy).1 ▸ of_decide_eq_true hlive
      exact Or.inl ⟨decide_eq_true hstays, rfl, rfl⟩
    · rename_i y hy
      obtain rfl := Option.some.inj h
      have huse := useAlone_write hy
      rw [hx] at huse
      have hput : (t.put fd y).users fd = y.1 := Function.update_self ..
      have hsock : ((t.put fd y).users fd).sockfd = fd := by
        rw [hput]
        exact (write_shared hy).2.2.trans hh.sock
      refine ⟨_, huse, ?_⟩
      rw [State.slot_close_self hsock hh.ne, State.slot_put_self]
      exact Tracks.closed rfl fd
    · cases h
  · obtain rfl := Option.some.inj h
    exact Or.inl ⟨hlive, hobject, hcalls⟩

omit [DecidableEq κ] in
/-- the response to every request fits into the write buffer, so `process` never comes to its call of `close_conn` -/
theorem Serving.process_keeps {j : κ} {g : ℤ} {fs : FileSystem} {code : HttpCode} {y : Conn × Env} (hs : Serving s)
    (hj : s.pool.workers j = .running g) (h : ProcessEnd fs (s.users g) (s.env g) (code, y)) :
    g ∈ s.opened ∧ y.2.opened = s.opened ∧ y.2.userCount = s.userCount ∧ y.1.sockfd = g := by
  have hwaits : (s.slot g).WaitsFor .epollIn := Or.inr (Or.inr (ownersOf_running hj))
  obtain ⟨hopen, hsock, -⟩ := hs.inv.live (Slot.places_pos hwaits)
  refine ⟨hopen, ?_⟩
  cases h with
  | waits =>
    obtain ⟨h1, h2⟩ := modfd_shared (s.env g) (s.users g).sockfd .epollIn
    exact ⟨h1, h2, hsock⟩
  | answers hq hw =>
    obtain ⟨h1, h2⟩ := modfd_shared ((s.env g).append _) (s.users g).sockfd .epollOut
    exact ⟨h1, h2, (processWrite_kept _ _).sockfd.trans (hq.sockfd.trans hsock)⟩
  | refuses hq hw =>
    rw [(processWrite_spec hq.answered (hq.writeIndex.trans (hs.empty hj).1)).1] at hw
    cases hw

/-- a worker's `process` is a call on the object it has taken, and nothing to the others -/
theorem process_follows {j : κ} {fs : FileSystem} (hs : Serving s) (hin : lengthsInside s (.process j fs) = true)
    (ht : Tracks fd (s.slot fd) x) (h : Server.step maxRequests s (.process j fs) = some s') :
    Follows fd (s'.slot fd) x (s.uses fd (.process j fs)) := by
  obtain ⟨g, code, y, p, hj, hy, hend, hp, rfl⟩ := step_process_contained h (hs.contained hin)
  simp only [State.uses, hj]
  have hwaits : (s.slot g).WaitsFor .epollIn := Or.inr (Or.inr (ownersOf_running hj))
  obtain ⟨hopen, hsock, hne, -⟩ := (hs.inv.slots g).live (Slot.places_pos hwaits)
  by_cases hg : g = fd
  · subst hg
    rw [if_pos rfl]
    obtain ⟨hconn, hlog⟩ := ht.live hopen
    have hx : (s.users g, (s.env g).calls) = x := Prod.ext hconn hlog
    have huse := useAlone_process hy hend.defined
    rw [hx] at huse
    refine ⟨_, huse, ?_⟩
    obtain ⟨hin, hsame, -, -⟩ := hs.process_keeps hj hend
    have hstays : g ∈ y.2.opened := hsame ▸ hin
    have htracks : Tracks g ((s.put g y).slot g) (y.1, y.2.calls) := by
      rw [State.slot_put_self]
      exact Or.inl ⟨decide_eq_true hstays, rfl, rfl⟩
    exact htracks
  · rw [if_neg (by simpa using hg)]
    have htracks : Tracks fd ((s.put g y).slot fd) x := by
      rwa [State.slot_put_other (Ne.symm hg) (process_local hsock hne (epoll_none hs.inv.slots) hend)]
    exact htracks

/-- **A step of the server, for one connection.** -/
theorem Tracks.step {op : Op κ} (hs : Serving s) (hin : lengthsInside s op = true) (ht : Tracks fd (s.slot fd) x)
    (hop : Spares fd op) (h : Server.step maxRequests s op = some s') : Follows fd (s'.slot fd) x (s.uses fd op) := by
  cases op with
  | epollWait events =>
    obtain ⟨-, -, rfl⟩ := step_epollWait h
    exact ht
  | post | wait | waitEarly | run =>
    obtain ⟨p, -, rfl⟩ := setPool_some h
    exact ht
  | process j fs => exact process_follows hs hin ht h
  | handle a =>
    obtain ⟨ev, batch, hb, hev⟩ := step_handle h
    cases ev with
    | client g ev =>
      by_cases hg : g = fd
      · subst hg
        exact own_event hs.inv.slots hb ht hev
      · have hnone : s.uses fd (.handle a) = none := by simp [State.uses, hb, hg]
        rw [hnone]
        exact other_event hs.inv.slots (Ne.symm hg) hb ht hev
    | listen =>
      have hnone : s.uses fd (.handle a) = none := by simp [State.uses, hb]
      rw [hnone]
      simp only [State.onEvent, State.onAccept] at hev
      split at hev
      · obtain rfl := Option.some.inj hev
        exact ht
      · rename_i g hg
        have hne : fd ≠ g := fun hfd => hop (hg.trans (congrArg some hfd.symm))
        split_ifs at hev
        · obtain rfl := Option.some.inj hev
          exact ht
        · obtain rfl := Option.some.inj hev
          have hslot : ∀ t : State κ, (t.openFd g).slot fd = t.slot fd := fun t => by
            simp [State.slot, State.openFd, hne]
          rw [State.slot_put_other hne (initConn_local g _ _), hslot]
          exact ht

theorem serving_tracks_step {op : Op κ} (hs : Serving s ∧ Tracks fd (s.slot fd) x)
    (hop : lengthsInside s op = true ∧ Spares fd op) (h : Server.step maxRequests s op = some s') :
    (s.uses fd op = none → Serving s' ∧ Tracks fd (s'.slot fd) x) ∧
      ∀ u, s.uses fd op = some u → ∃ y, useAlone x u = some y ∧ Serving s' ∧ Tracks fd (s'.slot fd) y := by
  have hnext := hs.1.step hop.1 h
  have hfollows := hs.2.step hs.1 hop.1 hop.2 h
  constructor
  · intro hnone
    rw [hnone] at hfollows
    exact ⟨hnext, hfollows⟩
  · intro u hu
    rw [hu] at hfollows
    obtain ⟨y, hy, hty⟩ := hfollows
    exact ⟨y, hy, hnext, hty⟩

/-- after a run, a connection that was open stands where its calls alone have led it -/
theorem tracks_run {ops : List (Op κ)} (hs : Serving s) (hopen : fd ∈ s.opened)
    (h : Run.exec (Server.step maxRequests) s ops = some s')
    (hin : Run.Along (Server.step maxRequests) (fun s op => lengthsInside s op = true) s ops)
    (hops : ∀ op ∈ ops, Spares fd op) :
    ∃ x, Run.exec useAlone (s.users fd, s.logs fd) (Run.project (Server.step maxRequests) (State.uses fd) s ops) =
      some x ∧ Tracks fd (s'.slot fd) x := by
  have hstart : Serving s ∧ Tracks fd (s.slot fd) (s.users fd, s.logs fd) :=
    ⟨hs, Or.inl ⟨decide_eq_true hopen, rfl, rfl⟩⟩
  have hok : Run.Along (Server.step maxRequests) (fun _ op => Spares fd op) s ops :=
    Run.along_of_forall (fun op hop _ => hops op hop) s
  obtain ⟨x, hexec, -, htracks⟩ := Run.exec_project (R := fun s x => Serving s ∧ Tracks fd (s.slot fd) x)
    (fun _ _ _ _ => serving_tracks_step) hstart (hin.and hok) h
  exact ⟨x, hexec, htracks⟩

/-- **Every connection is served as if it were alone.** Take any state that the server can reach, an open connection in
it and any continuation of the run, as long as no request announces a negative length and the descriptor is not given to
another client. The calls of `read`, `process` and `write` for this connection in the continuation, made one after the
other on its object alone, all return and lead to the object and to the log that the server has in the end; if the
connection has been closed, the call of `close` comes last. The other connections, the number of workers, the pool and the
order in which the threads run make no difference. -/
theorem served_alone {users : ℤ → Conn} {ops₀ ops : List (Op κ)}
    (hin₀ : Run.Along (Server.step maxRequests) (fun s op => lengthsInside s op = true) (State.start users) ops₀)
    (h₀ : Run.exec (Server.step maxRequests) (State.start users) ops₀ = some s) (hopen : fd ∈ s.opened)
    (hin : Run.Along (Server.step maxRequests) (fun s op => lengthsInside s op = true) s ops)
    (h : Run.exec (Server.step maxRequests) s ops = some s') (hops : ∀ op ∈ ops, Spares fd op) :
    ∃ c log, Run.exec useAlone (s.users fd, s.logs fd) (Run.project (Server.step maxRequests) (State.uses fd) s ops) =
        some (c, log) ∧
      ((fd ∈ s'.opened ∧ s'.users fd = c ∧ s'.logs fd = log) ∨ (fd ∉ s'.opened ∧ s'.logs fd = log ++ [.close fd])) := by
  obtain ⟨⟨c, log⟩, hexec, htracks⟩ := tracks_run (run_serving hin₀ h₀) hopen h hin hops
  refine ⟨c, log, hexec, ?_⟩
  rcases htracks with ⟨h1, h2, h3⟩ | ⟨h1, h2⟩
  · exact Or.inl ⟨of_decide_eq_true h1, h2, h3⟩
  · exact Or.inr ⟨of_decide_eq_false h1, h2⟩

end Server

/-- two clients are connected -/
def twoClients : Option (State Unit) := Run.exec (Server.step 1) (State.start fun _ => Conn.blank) (connect 5 ++ connect 6)

theorem twoClients_isSome : twoClients.isSome = true := by decide +kernel

/-- both send requests in one batch; the response to the first one is sent while the second is parsed -/
def mixedOps : List (Op Unit) := [.epollWait [.client 6 readable, .client 5 readable],
  .handle ⟨none, [.data (ascii "GET /b HTTP/1.1\r\n\r\n"), .eagain], []⟩, .post, .wait (),
  .handle ⟨none, [.data (ascii "GET /a HTTP/1.1\r\n\r\n"), .eagain], []⟩, .run (), .post, .process () (plainFiles 10),
  .wait (), .run (), .epollWait [.client 6 writable], .process () (plainFiles 20), .handle ⟨none, [], [.sent 97]⟩]

def mixedRun : Option (State Unit) := Run.exec (Server.step 1) (twoClients.get twoClients_isSome) mixedOps

theorem mixedRun_isSome : mixedRun.isSome = true := by decide +kernel

theorem served_alone_twoClients : ∃ c log,
    Run.exec useAlone ((twoClients.get twoClients_isSome).users 5, (twoClients.get twoClients_isSome).logs 5)
        (Run.project (Server.step 1) (State.uses 5) (twoClients.get twoClients_isSome) mixedOps) = some (c, log) ∧
      ((5 ∈ (mixedRun.get mixedRun_isSome).opened ∧ (mixedRun.get mixedRun_isSome).users 5 = c ∧
          (mixedRun.get mixedRun_isSome).logs 5 = log) ∨
        (5 ∉ (mixedRun.get mixedRun_isSome).opened ∧
          (mixedRun.get mixedRun_isSome).logs 5 = log ++ [.close 5])) := by
  have hspares : ∀ op ∈ mixedOps, Spares 5 op := by simp [mixedOps, Spares]
  exact served_alone (by decide +kernel) (Option.some_get twoClients_isSome).symm (by decide +kernel)
    (by decide +kernel) (Option.some_get mixedRun_isSome).symm hspares

end WebServer.Server
