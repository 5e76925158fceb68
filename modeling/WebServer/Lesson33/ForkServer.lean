/-
The server of lesson33/concurrencyServer.c, which forks a process for each client and collects them in the handler of
SIGCHLD.

A signal that comes while one of its kind is pending is lost, and SIGCHLD is blocked while its handler runs. The handler
`recyleChild` therefore collects children until there is none left that has ended. It is installed without SA_RESTART, so
a call of `accept` during which it ran returns EINTR, and the loop of `main` calls it again. The child's loop is that of
`working` in lesson33/server.c.

A child gets a copy of all descriptors of its parent. `main` closes the socket of no client, and a child only the one of
its own client. A connection ends for the client when no process has its socket open any more.

- `forkServer_reaps`: whatever the order of events, a child that has ended and is not collected yet has the handler
  running or the signal pending; every child that was started is running, waiting to be collected or collected.
- `forkServer_leaks`: a client that the server is done with sees the end of its connection only after the parent has
  exited and all children for later clients have ended; and over its whole life the server takes no more clients than it
  may have descriptors.
-/
import WebServer.Core.Run
import Mathlib.Tactic

namespace WebServer.Lesson33

/-! ## Model -/

namespace ForkServer

inductive Pc where
  | accepting
  /-- between the return of `accept` and the return of `fork` -/
  | forking
  /-- `exit(-1)` -/
  | exited
deriving DecidableEq, Repr

/-- a child of the server; clients are numbered in the order in which they were accepted -/
structure Child where
  /-- the client whose socket is `cfd` -/
  client : ℕ
  /-- `close(cfd)` was called -/
  closed : Bool
  /-- the clients whose sockets are open in the child -/
  fds : List ℕ
deriving DecidableEq, Repr

structure State where
  pc : Pc
  /-- inside `recyleChild` -/
  handling : Bool
  /-- the handler ran during the current call of `accept` -/
  interrupted : Bool
  /-- SIGCHLD is pending -/
  pending : Bool
  /-- the number of clients accepted so far -/
  accepted : ℕ
  /-- the clients whose sockets are open in the parent -/
  fds : List ℕ
  running : List ℕ
  zombies : List ℕ
  collected : List ℕ
  /-- the child with a pid -/
  child : ℕ → Child

inductive Op where
  /-- `accept` returns a client -/
  | accept
  /-- `accept` returns -1 with EINTR -/
  | eintr
  /-- `accept` returns -1 for another reason -/
  | acceptFails
  /-- `fork` returns in the parent: a pid, or -1 -/
  | fork (pid : Option ℕ)
  /-- a child calls `close(cfd)` -/
  | childCloses (pid : ℕ)
  /-- a child calls `exit` -/
  | childExits (pid : ℕ)
  /-- the signal is delivered -/
  | signal
  /-- `waitpid` in the handler: the pid of a child, or 0 or -1 -/
  | waitpid (ret : Option ℕ)
deriving DecidableEq, Repr

def start : State := ⟨.accepting, false, false, false, 0, [], [], [], [], fun _ => ⟨0, false, []⟩⟩

def Child.close (c : Child) : Child := { c with closed := true, fds := c.fds.erase c.client }

/-- one step, of a process that may have `limit` clients' sockets open -/
def step (limit : ℕ) (s : State) : Op → Option State
  | .accept =>
    if s.pc = .accepting ∧ s.handling = false ∧ s.interrupted = false ∧ s.fds.length < limit then
      some { s with accepted := s.accepted + 1, fds := s.fds ++ [s.accepted], pc := .forking }
    else none
  | .eintr =>
    if s.pc = .accepting ∧ s.handling = false ∧ s.interrupted = true then some { s with interrupted := false } else none
  | .acceptFails =>
    if s.pc = .accepting ∧ s.handling = false then some { s with pc := .exited, fds := [] } else none
  | .fork r =>
    if s.pc = .forking ∧ s.handling = false then
      match r with
      | some pid =>
        if pid ∈ s.running ++ s.zombies then none
        else some { s with
          running := s.running ++ [pid]
          child := Function.update s.child pid ⟨s.accepted - 1, false, s.fds⟩
          pc := .accepting }
      -- -1 is not tested for: the client keeps its socket and is served by nobody
      | none => some { s with pc := .accepting }
    else none
  | .childCloses pid =>
    if pid ∈ s.running ∧ (s.child pid).closed = false then
      some { s with child := Function.update s.child pid (s.child pid).close }
    else none
  | .childExits pid =>
    if pid ∈ s.running then
      some { s with running := s.running.erase pid, zombies := s.zombies ++ [pid], pending := true }
    else none
  | .signal =>
    if s.pending = true ∧ s.handling = false ∧ s.pc ≠ .exited then
      some { s with pending := false, handling := true, interrupted := s.interrupted || decide (s.pc = .accepting) }
    else none
  | .waitpid ret =>
    if s.handling = true then
      match ret with
      | some pid =>
        if pid ∈ s.zombies then
          some { s with zombies := s.zombies.erase pid, collected := s.collected ++ [pid] }
        else none
      | none => if s.zombies = [] then some { s with handling := false } else none
    else none

/-- some process has the socket of a client open -/
def State.isOpen (s : State) (client : ℕ) : Prop := client ∈ s.fds ∨ ∃ pid ∈ s.running, client ∈ (s.child pid).fds

/-! ## Invariant -/

/-- a child was started -/
def Op.starts : Op → Bool
  | .fork (some _) => true
  | _ => false

def children (os : List Op) : ℕ := os.countP Op.starts

/-- a child has the sockets of its client and of all earlier ones, but for the one that it has closed -/
def Child.Inherits (accepted : ℕ) (c : Child) : Prop :=
  c.client < accepted ∧ c.fds.Nodup ∧ ∀ k, k ∈ c.fds ↔ k < c.client ∨ k = c.client ∧ c.closed = false

structure Inv (limit : ℕ) (os : List Op) (s : State) : Prop where
  noticed : s.zombies ≠ [] → s.pending = true ∨ s.handling = true
  nodup : (s.running ++ s.zombies).Nodup
  children : children os = s.running.length + s.zombies.length + s.collected.length
  /-- the parent has the sockets of all clients, until it exits -/
  fds : s.fds = if s.pc = .exited then [] else List.range s.accepted
  forking : s.pc = .forking → 0 < s.accepted
  inherits : ∀ pid ∈ s.running, (s.child pid).Inherits s.accepted
  limit : s.accepted ≤ limit

theorem inv_start (limit : ℕ) : Inv limit [] start where
  noticed := fun h => absurd rfl h
  nodup := List.nodup_nil
  children := rfl
  fds := rfl
  forking := nofun
  inherits := nofun
  limit := Nat.zero_le _

variable {limit : ℕ} {os : List Op} {s t : State}

theorem children_concat (os : List Op) (o : Op) : children (os ++ [o]) = children os + if o.starts then 1 else 0 := by
  simp [children, List.countP_append, List.countP_singleton]

/-- an operation that starts no child -/
theorem Inv.idle (h : Inv limit os s) {o : Op} (hs : o.starts = false) : Inv limit (os ++ [o]) s where
  noticed := h.noticed
  nodup := h.nodup
  children := by rw [children_concat, hs]; exact h.children
  fds := h.fds
  forking := h.forking
  inherits := h.inherits
  limit := h.limit

theorem Inv.accept (h : Inv limit os s) (hpc : s.pc = .accepting) (hl : s.fds.length < limit) :
    Inv limit os { s with accepted := s.accepted + 1, fds := s.fds ++ [s.accepted], pc := .forking } := by
  have hfds := h.fds
  rw [hpc, if_neg nofun] at hfds
  rw [hfds, List.length_range] at hl
  exact {
    noticed := h.noticed
    nodup := h.nodup
    children := h.children
    fds := by rw [hfds, if_neg nofun, List.range_succ]
    forking := fun _ => Nat.succ_pos _
    inherits := fun pid hpid => ⟨(h.inherits pid hpid).1.trans (Nat.lt_succ_self _), (h.inherits pid hpid).2⟩
    limit := hl }

/-- the child gets the descriptors of its parent -/
theorem Inv.fork (h : Inv limit os s) (hpc : s.pc = .forking) {pid : ℕ} (hpid : pid ∉ s.running ++ s.zombies) :
    Inv limit (os ++ [.fork (some pid)]) { s with
      running := s.running ++ [pid]
      child := Function.update s.child pid ⟨s.accepted - 1, false, s.fds⟩
      pc := .accepting } := by
  have hpos := h.forking hpc
  have hfds := h.fds
  rw [hpc, if_neg nofun] at hfds
  exact {
    noticed := h.noticed
    nodup := by
      have hperm : (s.running ++ [pid] ++ s.zombies).Perm (pid :: (s.running ++ s.zombies)) := by
        rw [List.append_assoc]
        exact List.perm_middle
      exact hperm.nodup_iff.2 (List.nodup_cons.2 ⟨hpid, h.nodup⟩)
    children := by
      rw [children_concat, h.children]
      simp only [Op.starts, if_true, List.length_append, List.length_singleton]
      omega
    fds := hfds
    forking := nofun
    inherits := by
      intro j hj
      dsimp only at hj ⊢
      by_cases hji : j = pid
      · rw [hji, Function.update_self, hfds]
        refine ⟨Nat.sub_one_lt_of_lt hpos, List.nodup_range, fun k => ?_⟩
        rw [List.mem_range]
        simp only [and_true]
        omega
      · rw [Function.update_of_ne hji]
        exact h.inherits j ((List.mem_append.1 hj).resolve_right fun hmem => hji (List.mem_singleton.1 hmem))
    limit := h.limit }

theorem Child.Inherits.close {accepted : ℕ} {c : Child} (h : c.Inherits accepted) : c.close.Inherits accepted := by
  refine ⟨h.1, h.2.1.erase _, fun k => ?_⟩
  rw [Child.close, h.2.1.mem_erase_iff, h.2.2]
  constructor
  · rintro ⟨hne, hk | ⟨rfl, -⟩⟩
    · exact Or.inl hk
    · exact absurd rfl hne
  · rintro (hk | ⟨-, hc⟩)
    · exact ⟨hk.ne, Or.inl hk⟩
    · cases hc

theorem Inv.childCloses (h : Inv limit os s) {pid : ℕ} (hpid : pid ∈ s.running) :
    Inv limit os { s with child := Function.update s.child pid (s.child pid).close } := by
  refine ⟨h.noticed, h.nodup, h.children, h.fds, h.forking, fun j hj => ?_, h.limit⟩
  dsimp only
  by_cases hji : j = pid
  · rw [hji, Function.update_self]
    exact (h.inherits pid hpid).close
  · rw [Function.update_of_ne hji]
    exact h.inherits j hj

/-- a child ends, and the signal is pending -/
theorem Inv.childExits (h : Inv limit os s) {pid : ℕ} (hpid : pid ∈ s.running) :
    Inv limit os { s with running := s.running.erase pid, zombies := s.zombies ++ [pid], pending := true } where
  noticed := fun _ => Or.inl rfl
  nodup := by
    have h1 : (s.running.erase pid ++ (s.zombies ++ [pid])).Perm (s.running.erase pid ++ pid :: s.zombies) :=
      (List.perm_append_singleton pid s.zombies).append_left _
    have h2 : (s.running.erase pid ++ pid :: s.zombies).Perm (pid :: s.running.erase pid ++ s.zombies) :=
      List.perm_middle
    have h3 : (pid :: s.running.erase pid ++ s.zombies).Perm (s.running ++ s.zombies) :=
      (List.perm_cons_erase hpid).symm.append_right _
    exact ((h1.trans h2).trans h3).nodup_iff.2 h.nodup
  children := by
    have hlen := List.length_erase_of_mem hpid
    have hpos := List.length_pos_of_mem hpid
    simp only [h.children, List.length_append, List.length_singleton]
    omega
  fds := h.fds
  forking := h.forking
  inherits := fun j hj => h.inherits j (List.mem_of_mem_erase hj)
  limit := h.limit

/-- the handler collects a child -/
theorem Inv.collect (h : Inv limit os s) (hh : s.handling = true) {pid : ℕ} (hpid : pid ∈ s.zombies) :
    Inv limit os { s with zombies := s.zombies.erase pid, collected := s.collected ++ [pid] } where
  noticed := fun _ => Or.inr hh
  nodup := h.nodup.sublist (List.erase_sublist.append_left _)
  children := by
    have hlen := List.length_erase_of_mem hpid
    have hpos := List.length_pos_of_mem hpid
    simp only [h.children, List.length_append, List.length_singleton]
    omega
  fds := h.fds
  forking := h.forking
  inherits := h.inherits
  limit := h.limit

theorem inv_step {o : Op} (h : Inv limit os s) (ht : step limit s o = some t) : Inv limit (os ++ [o]) t := by
  cases o with
  | accept =>
    simp only [step] at ht
    split_ifs at ht with hc
    obtain rfl := Option.some.inj ht
    exact (h.idle rfl).accept hc.1 hc.2.2.2
  | eintr =>
    simp only [step] at ht
    split_ifs at ht with hc
    obtain rfl := Option.some.inj ht
    exact { h.idle (o := .eintr) rfl with }
  | acceptFails =>
    simp only [step] at ht
    split_ifs at ht with hc
    obtain rfl := Option.some.inj ht
    exact { h.idle (o := .acceptFails) rfl with
      fds := rfl
      forking := nofun }
  | fork r =>
    cases r with
    | none =>
      simp only [step] at ht
      split_ifs at ht with hc
      obtain rfl := Option.some.inj ht
      have hfds := h.fds
      rw [hc.1, if_neg nofun] at hfds
      exact { h.idle (o := .fork none) rfl with
        fds := hfds
        forking := nofun }
    | some pid =>
      simp only [step] at ht
      split_ifs at ht with hc hpid
      obtain rfl := Option.some.inj ht
      exact h.fork hc.1 hpid
  | childCloses pid =>
    simp only [step] at ht
    split_ifs at ht with hc
    obtain rfl := Option.some.inj ht
    exact (h.idle rfl).childCloses hc.1
  | childExits pid =>
    simp only [step] at ht
    split_ifs at ht with hpid
    obtain rfl := Option.some.inj ht
    exact (h.idle rfl).childExits hpid
  | signal =>
    simp only [step] at ht
    split_ifs at ht with hc
    obtain rfl := Option.some.inj ht
    exact { h.idle (o := .signal) rfl with noticed := fun _ => Or.inr rfl }
  | waitpid ret =>
    cases ret with
    | none =>
      simp only [step] at ht
      split_ifs at ht with hh hz
      obtain rfl := Option.some.inj ht
      exact { h.idle (o := .waitpid none) rfl with noticed := fun hne => absurd hz hne }
    | some pid =>
      simp only [step] at ht
      split_ifs at ht with hh hpid
      obtain rfl := Option.some.inj ht
      exact (h.idle rfl).collect hh hpid

theorem inv_run (h : Run.exec (step limit) start os = some s) : Inv limit os s :=
  Run.exec_history (fun _ _ _ _ hs ht => inv_step hs ht) (inv_start limit) h

/-! ## Results -/

/-- **No child is forgotten.** In every run, a child that has ended and has not been collected has the handler running or
the signal pending, although signals are lost when several children end at once; and every child that was started is
running, waiting to be collected, or collected once. -/
theorem forkServer_reaps (h : Run.exec (step limit) start os = some s) :
    (s.zombies ≠ [] → s.pending = true ∨ s.handling = true) ∧ (s.running ++ s.zombies).Nodup ∧
      children os = s.running.length + s.zombies.length + s.collected.length :=
  have hinv := inv_run h
  ⟨hinv.noticed, hinv.nodup, hinv.children⟩

/-- **The sockets of clients leak.** In every run, no process has the socket of a client open any more if and only if
the parent has exited, no child for a later client is running, and the child for this client has ended or has closed it.
So a client that the server is done with waits for the end of its connection as long as the server runs. And since the
parent closes no socket, it accepts at most as many clients as it may have sockets open, however many of them have
left. -/
theorem forkServer_leaks (h : Run.exec (step limit) start os = some s) :
    (∀ k, k < s.accepted → (¬ s.isOpen k ↔ s.pc = .exited ∧ ∀ pid ∈ s.running,
      (s.child pid).client < k ∨ (s.child pid).client = k ∧ (s.child pid).closed = true)) ∧ s.accepted ≤ limit := by
  have hinv := inv_run h
  refine ⟨fun k hk => ?_, hinv.limit⟩
  have hparent : k ∉ s.fds ↔ s.pc = .exited := by
    rw [hinv.fds]
    split_ifs with hpc <;> simp [hpc, hk]
  have hchild : (∀ pid ∈ s.running, k ∉ (s.child pid).fds) ↔ ∀ pid ∈ s.running,
      (s.child pid).client < k ∨ (s.child pid).client = k ∧ (s.child pid).closed = true := by
    refine forall₂_congr fun pid hpid => ?_
    rw [(hinv.inherits pid hpid).2.2, not_or, not_lt, not_and, Bool.not_eq_false]
    constructor
    · rintro ⟨hle, hc⟩
      exact hle.lt_or_eq.imp_right fun heq => ⟨heq, hc heq.symm⟩
    · rintro (hlt | ⟨rfl, hc⟩)
      · exact ⟨hlt.le, fun heq => absurd heq hlt.ne'⟩
      · exact ⟨le_rfl, fun _ => hc⟩
  rw [← hparent, ← hchild, State.isOpen, not_or]
  simp only [not_exists, not_and]

/-- two children end while the handler is not running: one signal, both collected -/
def sampleOps : List Op :=
  [.accept, .fork (some 10), .accept, .fork (some 11), .childCloses 10, .childExits 10, .childExits 11, .signal,
    .waitpid (some 11), .waitpid (some 10), .waitpid none, .eintr, .accept, .fork none]

def sampleRun : Option State := Run.exec (step 3) start sampleOps

theorem sampleRun_isSome : sampleRun.isSome = true := by decide +kernel

theorem forkServer_reaps_sample :
    ((sampleRun.get sampleRun_isSome).zombies ≠ [] → (sampleRun.get sampleRun_isSome).pending = true ∨
      (sampleRun.get sampleRun_isSome).handling = true) ∧
    ((sampleRun.get sampleRun_isSome).running ++ (sampleRun.get sampleRun_isSome).zombies).Nodup ∧
    children sampleOps = (sampleRun.get sampleRun_isSome).running.length +
      (sampleRun.get sampleRun_isSome).zombies.length + (sampleRun.get sampleRun_isSome).collected.length :=
  forkServer_reaps (Option.some_get sampleRun_isSome).symm

/-- all children have been collected, and the first client still has an open socket -/
theorem forkServer_leaks_sample : (sampleRun.get sampleRun_isSome).isOpen 0 := by
  have hleaks := (forkServer_leaks (Option.some_get sampleRun_isSome).symm).1 0 (by decide +kernel)
  by_contra hclosed
  exact absurd (hleaks.1 hclosed).1 (by decide +kernel)

end ForkServer

end WebServer.Lesson33
