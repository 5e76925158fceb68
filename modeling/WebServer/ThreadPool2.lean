/-
The rewritten thread pool (webServer2/threadPool.hpp): the counting semaphore of the first pool is replaced by the
condition variable `m_cvQueueStatus`. `append` is called by any number of threads, `run` is the loop of any number of
workers.

Each statement that touches shared data is one step, and the steps of all threads interleave arbitrarily:
- `append` holds `m_mtxQueueLock` from its first statement to its return (`std::lock_guard`), so over `notify_all`;
- `m_cvQueueStatus.wait()` puts the worker to sleep until a `notify_all` after that moment, or until it wakes by itself
  (`Op.wake`); it is called without the mutex and without a test of the queue.
A request is a pointer, `none` is a null pointer. `m_bThreadStop` is left out: only the destructor sets it.

- `Inv`: beside a request some worker is awake, or an `append` is about to notify.
- `no_lost_wakeup`: so no request waits while all threads sleep, in every run in which workers call `wait()` on an empty
  queue only.
- `lost_wakeup`: a worker that calls `wait()` after the only `append` has notified sleeps beside its request.
-/
import WebServer.Core.Monitor
import WebServer.Core.Run

namespace WebServer.ThreadPool2

open WebServer.Monitor

variable {T τ : Type*}

/-! ## Model -/

inductive Role where
  | appender
  | worker
deriving DecidableEq, Repr

/-- the statement a thread executes next -/
inductive Pc (T : Type*) where
  /-- not in `append` -/
  | idle
  | appendLock (request : Option T)
  /-- the test of the queue's size, and `push_back` -/
  | appendPush (request : Option T)
  | appendNotify
  /-- the destructor of `locker`, at either return -/
  | appendReturn
  /-- the top of the loop of `run`, about to call `wait()` -/
  | runWait
  | blocked
  | runLock
  /-- the test of the queue, `front()` and `pop_front()` -/
  | runPop
  | runUnlock
deriving DecidableEq, Repr

def Pc.inside : Pc T → Bool
  | .appendPush _ | .appendNotify | .appendReturn | .runPop | .runUnlock => true
  | _ => false

def Pc.isBlocked : Pc T → Bool
  | .blocked => true
  | _ => false

def Pc.notifies : Pc T → Bool
  | .appendNotify => true
  | _ => false

/-- whose statement it is -/
def Pc.role : Pc T → Role
  | .idle | .appendLock _ | .appendPush _ | .appendNotify | .appendReturn => .appender
  | .runWait | .blocked | .runLock | .runPop | .runUnlock => .worker

def Role.start : Role → Pc T
  | .appender => .idle
  | .worker => .runWait

theorem Pc.blocked_outside (p : Pc T) (h : p.isBlocked = true) : p.inside = false := by
  cases p <;> first | rfl | cases h

/-- `m_cvQueueStatus` with `m_mtxQueueLock` -/
def cvQueueStatus (T : Type*) : Cond (Pc T) where
  inside := Pc.inside
  blocked := Pc.isBlocked
  notifies := Pc.notifies
  woken := .runLock
  blocked_outside := Pc.blocked_outside
  woken_outside := rfl
  woken_awake := rfl

structure State (T τ : Type*) extends Threads τ (Pc T) where
  listWorkQueue : List (Option T)

def State.init (role : τ → Role) : State T τ := ⟨⟨none, fun t => Role.start (role t)⟩, []⟩

inductive Op (T τ : Type*) where
  /-- the thread calls `append(request)` -/
  | append (t : τ) (request : Option T)
  /-- the thread executes its next statement -/
  | next (t : τ)
  /-- `wait()` returns by itself -/
  | wake (t : τ)

variable [DecidableEq τ]

def next (maxRequestNumber : ℕ) (s : State T τ) (t : τ) : Option (State T τ) :=
  match s.pc t with
  | .idle | .blocked => none
  | .appendLock request => (s.lock t (.appendPush request)).map fun θ => { s with toThreads := θ }
  | .appendPush request =>
    if s.listWorkQueue.length > maxRequestNumber then some { s with toThreads := s.goto t .appendReturn }
    else some { s with toThreads := s.goto t .appendNotify, listWorkQueue := s.listWorkQueue ++ [request] }
  | .appendNotify => some { s with toThreads := (cvQueueStatus T).wake (fun _ => true) (s.goto t .appendReturn) }
  | .appendReturn => some { s with toThreads := s.unlock t .idle }
  | .runWait => some { s with toThreads := s.goto t .blocked }
  | .runLock => (s.lock t .runPop).map fun θ => { s with toThreads := θ }
  | .runPop =>
    match s.listWorkQueue with
    | [] => some { s with toThreads := s.goto t .runUnlock }
    | _ :: listWorkQueue => some { s with toThreads := s.goto t .runUnlock, listWorkQueue := listWorkQueue }
  -- whether the request is null or not: `process` is commented out
  | .runUnlock => some { s with toThreads := s.unlock t .runWait }

def step (maxRequestNumber : ℕ) (s : State T τ) : Op T τ → Option (State T τ)
  | .append t request =>
    match s.pc t with
    | .idle => some { s with toThreads := s.goto t (.appendLock request) }
    | _ => none
  | .next t => next maxRequestNumber s t
  | .wake t =>
    match s.pc t with
    | .blocked => some { s with toThreads := s.goto t .runLock }
    | _ => none

/-! ## Invariant -/

structure Inv (role : τ → Role) (s : State T τ) : Prop where
  roles : ∀ t, (s.pc t).role = role t
  /-- beside a request some worker is awake, or an `append` is about to notify -/
  served : (cvQueueStatus T).Served (fun t => role t = .worker) (s.listWorkQueue ≠ []) s.pc

omit [DecidableEq τ] in
theorem inv_init (role : τ → Role) : Inv role (State.init role : State T τ) where
  roles := fun t => by
    unfold State.init
    dsimp only
    cases role t <;> rfl
  served := fun h => absurd rfl h

theorem Pc.role_blocked (p : Pc T) (h : p.isBlocked = true) : p.role = .worker := by
  cases p <;> first | rfl | cases h

variable {maxRequestNumber : ℕ} {role : τ → Role} {s s' : State T τ} {t : τ} {p : Pc T}

/-- a thread moves on awake, with or without the mutex, and brings no request -/
theorem Inv.update (h : Inv role s) (ht : (s.pc t).notifies = false) (hp : p.isBlocked = false)
    (hrole : p.role = (s.pc t).role) (hpc : s'.pc = Function.update s.pc t p)
    (hq : s'.listWorkQueue ≠ [] → s.listWorkQueue ≠ []) : Inv role s' where
  roles := hpc ▸ roles_update h.roles hrole
  served := hpc ▸ h.served.update ht hp hq

theorem Inv.lock (h : Inv role s) (ht : (s.pc t).notifies = false) (hp : p.isBlocked = false)
    (hrole : p.role = (s.pc t).role) (hs : (s.lock t p).map (fun θ => { s with toThreads := θ }) = some s') :
    Inv role s' := by
  obtain ⟨θ, hl, rfl⟩ := Option.map_eq_some_iff.mp hs
  obtain ⟨-, rfl⟩ := Threads.lock_some hl
  exact h.update ht hp hrole rfl id

/-- the locked section of `append` up to `notify_all` -/
theorem Inv.push (h : Inv role s) {request : Option T} (ht : s.pc t = .appendPush request)
    (hs : (if s.listWorkQueue.length > maxRequestNumber then some { s with toThreads := s.goto t .appendReturn }
      else some { s with toThreads := s.goto t .appendNotify, listWorkQueue := s.listWorkQueue ++ [request] }) =
        some s') : Inv role s' := by
  split_ifs at hs with hfull
  · cases hs
    exact h.update (by rw [ht]; rfl) rfl (by rw [ht]; rfl) rfl id
  · cases hs
    exact ⟨roles_update h.roles (by rw [ht]; rfl), Cond.served_notifies rfl⟩

/-- `notify_all` leaves nobody asleep -/
theorem Inv.notify (hw : ∃ t, role t = .worker) (h : Inv role s) (ht : s.pc t = .appendNotify) :
    Inv role { s with toThreads := (cvQueueStatus T).wake (fun _ => true) (s.goto t .appendReturn) } := by
  refine ⟨?_, Cond.Served.wake hw (fun u hu => ?_) rfl ?_⟩
  · exact (cvQueueStatus T).roles_wake (roles_update h.roles (by rw [ht]; rfl)) Pc.role_blocked
  · exact (h.roles u).symm.trans (Pc.role_blocked _ hu)
  · rw [or_iff_not_imp_right]
    intro hnone u
    exact Bool.eq_false_iff.mpr fun hu => hnone ⟨u, rfl, hu⟩

/-- no worker calls `wait()` while a request is queued -/
def waitsOnEmpty (s : State T τ) : Op T τ → Bool
  | .next t =>
    match s.pc t with
    | .runWait => s.listWorkQueue.isEmpty
    | _ => true
  | _ => true

theorem Inv.next (hw : ∃ t, role t = .worker) (h : Inv role s) (hok : waitsOnEmpty s (.next t) = true)
    (hs : ThreadPool2.next maxRequestNumber s t = some s') : Inv role s' := by
  unfold ThreadPool2.next at hs
  cases ht : s.pc t with
  | idle => rw [ht] at hs; cases hs
  | appendLock request =>
    rw [ht] at hs
    exact h.lock (p := .appendPush request) (by rw [ht]; rfl) rfl (by rw [ht]; rfl) hs
  | appendPush request =>
    rw [ht] at hs
    exact h.push ht hs
  | appendNotify =>
    rw [ht] at hs
    cases hs
    exact h.notify hw ht
  | appendReturn =>
    rw [ht] at hs
    cases hs
    exact h.update (by rw [ht]; rfl) rfl (by rw [ht]; rfl) rfl id
  | runWait =>
    -- the worker goes to sleep: the condition says that it leaves no request behind
    have hempty : s.listWorkQueue = [] := by simpa [waitsOnEmpty, ht] using hok
    rw [ht] at hs
    cases hs
    exact ⟨roles_update h.roles (by rw [ht]; rfl), fun hne => absurd hempty hne⟩
  | blocked => rw [ht] at hs; cases hs
  | runLock =>
    rw [ht] at hs
    exact h.lock (p := .runPop) (by rw [ht]; rfl) rfl (by rw [ht]; rfl) hs
  | runPop =>
    rw [ht] at hs
    dsimp only at hs
    split at hs
    · cases hs
      exact h.update (by rw [ht]; rfl) rfl (by rw [ht]; rfl) rfl id
    · rename_i request rest hq
      cases hs
      exact h.update (by rw [ht]; rfl) rfl (by rw [ht]; rfl) rfl fun _ => hq ▸ List.cons_ne_nil request rest
  | runUnlock =>
    rw [ht] at hs
    cases hs
    exact h.update (by rw [ht]; rfl) rfl (by rw [ht]; rfl) rfl id

theorem Inv.step {op : Op T τ} (hw : ∃ t, role t = .worker) (h : Inv role s) (hok : waitsOnEmpty s op = true)
    (hs : ThreadPool2.step maxRequestNumber s op = some s') : Inv role s' := by
  cases op with
  | append t request =>
    simp only [ThreadPool2.step] at hs
    split at hs
    · rename_i ht
      cases hs
      exact h.update (by rw [ht]; rfl) rfl (by rw [ht]; rfl) rfl id
    · cases hs
  | next t => exact h.next hw hok hs
  | wake t =>
    simp only [ThreadPool2.step] at hs
    split at hs
    · rename_i ht
      cases hs
      exact h.update (by rw [ht]; rfl) rfl (by rw [ht]; rfl) rfl id
    · cases hs

/-! ## Main results -/

/-- a request is queued, every worker sleeps in `wait()` and no `append` is in progress -/
def Stranded (role : τ → Role) (s : State T τ) : Prop :=
  s.listWorkQueue ≠ [] ∧ (∀ t, role t = .worker → s.pc t = .blocked) ∧ ∀ t, role t = .appender → s.pc t = .idle

/-- **No lost wake-up while workers wait on an empty queue only**, for a pool with a worker (the constructor refuses a
pool without). -/
theorem no_lost_wakeup {ops : List (Op T τ)} (hw : ∃ t, role t = .worker)
    (hok : Run.Along (step maxRequestNumber) (fun s op => waitsOnEmpty s op = true) (State.init role) ops)
    (h : Run.exec (step maxRequestNumber) (State.init role) ops = some s) : ¬ Stranded role s := by
  have hinv : Inv role s := Run.exec_inv_along (fun _ _ _ hs hok => hs.step hw hok) (inv_init role) hok h
  rintro ⟨hne, hworkers, happenders⟩
  rcases hinv.served hne with ⟨t, hrole, ht⟩ | ⟨u, hu⟩
  · rw [hworkers t hrole] at ht
    cases ht
  · cases hrole : role u with
    | appender =>
      rw [happenders u hrole] at hu
      cases hu
    | worker =>
      rw [hworkers u hrole] at hu
      cases hu

/-- `true` is a worker, `false` calls `append` -/
def pair (t : Bool) : Role := if t then .worker else .appender

/-- the worker waits before the request comes, takes it and waits again -/
def servedRun : Option (State Unit Bool) :=
  Run.exec (step 10000) (State.init pair)
    [.next true, .append false (some ()), .next false, .next false, .next false, .next false, .next true, .next true,
      .next true, .next true]

theorem servedRun_isSome : servedRun.isSome = true := by decide +kernel

theorem no_lost_wakeup_servedRun :
    (servedRun.get servedRun_isSome).pc true = .blocked ∧ ¬ Stranded pair (servedRun.get servedRun_isSome) :=
  ⟨by decide +kernel,
    no_lost_wakeup ⟨true, rfl⟩ (by decide +kernel) (Option.some_get servedRun_isSome).symm⟩

/-- the request comes before the worker waits for the first time -/
def earlyRun : Option (State Unit Bool) :=
  Run.exec (step 10000) (State.init pair)
    [.append false (some ()), .next false, .next false, .next false, .next false, .next true]

theorem earlyRun_isSome : earlyRun.isSome = true := by decide +kernel

/-- **A lost wake-up.** The notification comes before the worker has called `wait()`. -/
theorem lost_wakeup : ∃ s, earlyRun = some s ∧ Stranded pair s :=
  ⟨earlyRun.get earlyRun_isSome, (Option.some_get earlyRun_isSome).symm, by decide +kernel, by decide +kernel,
    by decide +kernel⟩

end WebServer.ThreadPool2
