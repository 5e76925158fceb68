/-
The thread pool `threadPool<T>` (webServer/threadPool.h) with its queue, its mutex and its counting semaphore
(webServer/locker.cpp): `append`, called by any number of threads, and `run`, the loop of any number of workers.

Atomic steps, interleaved arbitrarily through `step`:
- `append`: the locked section of `append`. A full queue refuses the request, and `append` returns false;
- `post`: `queueStat.post()`, after the lock is released;
- `wait`: `queueStat.wait()` takes a unit of the semaphore;
- `waitEarly`: it returns without one (`sem_wait` interrupted by a signal; `run` ignores the result);
- `run`: the locked section of `run`, up to the call of `process` or the next round of the loop;
- `finish`: `process` returns.

A request is a pointer, `none` is a null pointer. `appended` and `removed` record the requests that `append` accepted
and that `run` took out, in this order. `stop` is left out: it is set only by the destructor, which no run includes.

- `Inv`: accepted requests are the removed ones followed by the queue, and every queued request is covered by a unit of
  the semaphore, by an `append` that has yet to post, or by a worker that took a unit and has not looked yet.
- `handedOut`: the requests that the workers got in a run, in this order; they are those of `removed` that are not null.
- `pool_run`: so no request is lost, repeated or reordered, and no request waits while all threads sleep.
- `queue_bounded_iff`: the queue stays within `maxRequests`, and `append` refuses exactly when it is full, in the runs in
  which `append` is never called on a queue of `maxRequests` requests. `queue_overfull`: a run in which it is.
-/
import WebServer.Core.Run

namespace WebServer.ThreadPool

variable {T ι κ : Type*}

/-! ## Model -/

/-- a thread that calls `append` -/
inductive Appender where
  | idle
  /-- the request is in the queue, `queueStat.post()` is still to come -/
  | pushed
deriving DecidableEq, Repr

/-- a worker thread in `run` -/
inductive Worker (T : Type*) where
  /-- in `queueStat.wait()` -/
  | waiting
  /-- before the locked section; `true` if the wait took a unit of the semaphore -/
  | woken (taken : Bool)
  /-- in `request->process()` -/
  | running (request : T)
deriving DecidableEq, Repr

structure Pool (T ι κ : Type*) where
  workQueue : List (Option T)
  queueStat : ℕ
  appenders : ι → Appender
  workers : κ → Worker T
  appended : List (Option T)
  removed : List (Option T)

def Pool.init : Pool T ι κ := ⟨[], 0, fun _ => .idle, fun _ => .waiting, [], []⟩

/-- the locked section of `append`: its result and the queue after it -/
def append (maxRequests : ℕ) (request : Option T) (workQueue : List (Option T)) : Bool × List (Option T) :=
  if workQueue.length > maxRequests then (false, workQueue) else (true, workQueue ++ [request])

/-- where a worker goes with the request it took: a null pointer is skipped -/
def handOut : Option T → Worker T
  | none => .waiting
  | some request => .running request

inductive Op (T ι κ : Type*) where
  | append (i : ι) (request : Option T)
  | post (i : ι)
  | wait (j : κ)
  | waitEarly (j : κ)
  | run (j : κ)
  | finish (j : κ)

variable [DecidableEq ι] [DecidableEq κ]

def Pool.setAppender (s : Pool T ι κ) (i : ι) (a : Appender) : Pool T ι κ :=
  { s with appenders := Function.update s.appenders i a }

def Pool.setWorker (s : Pool T ι κ) (j : κ) (w : Worker T) : Pool T ι κ :=
  { s with workers := Function.update s.workers j w }

def step (maxRequests : ℕ) (s : Pool T ι κ) : Op T ι κ → Option (Pool T ι κ)
  | .append i request =>
    match s.appenders i with
    | .pushed => none
    | .idle =>
      match append maxRequests request s.workQueue with
      | (false, _) => some s
      | (true, workQueue) =>
        some { s.setAppender i .pushed with workQueue := workQueue, appended := s.appended ++ [request] }
  | .post i =>
    match s.appenders i with
    | .pushed => some { s.setAppender i .idle with queueStat := s.queueStat + 1 }
    | .idle => none
  | .wait j =>
    match s.workers j, s.queueStat with
    | .waiting, n + 1 => some { s.setWorker j (.woken true) with queueStat := n }
    | _, _ => none
  | .waitEarly j =>
    match s.workers j with
    | .waiting => some (s.setWorker j (.woken false))
    | _ => none
  | .run j =>
    match s.workers j with
    | .woken _ =>
      match s.workQueue with
      | [] => some (s.setWorker j .waiting)
      | request :: workQueue =>
        some { s.setWorker j (handOut request) with workQueue := workQueue, removed := s.removed ++ [request] }
    | _ => none
  | .finish j =>
    match s.workers j with
    | .running _ => some (s.setWorker j .waiting)
    | _ => none

/-! ## What one step does -/

theorem step_append {maxRequests : ℕ} {s t : Pool T ι κ} {i : ι} {request : Option T}
    (h : step maxRequests s (.append i request) = some t) :
    s.appenders i = .idle ∧ ((maxRequests < s.workQueue.length ∧ t = s) ∨
      (s.workQueue.length ≤ maxRequests ∧ t = { s.setAppender i .pushed with
        workQueue := s.workQueue ++ [request], appended := s.appended ++ [request] })) := by
  unfold step append at h
  dsimp only at h
  split at h
  · cases h
  · rename_i hi
    refine ⟨hi, ?_⟩
    split_ifs at h with hfull
    · cases h; exact Or.inl ⟨hfull, rfl⟩
    · cases h; exact Or.inr ⟨by omega, rfl⟩

theorem step_post {maxRequests : ℕ} {s t : Pool T ι κ} {i : ι} (h : step maxRequests s (.post i) = some t) :
    s.appenders i = .pushed ∧ t = { s.setAppender i .idle with queueStat := s.queueStat + 1 } := by
  unfold step at h
  dsimp only at h
  split at h
  · rename_i hi
    cases h
    exact ⟨hi, rfl⟩
  · cases h

theorem step_wait {maxRequests : ℕ} {s t : Pool T ι κ} {j : κ} (h : step maxRequests s (.wait j) = some t) :
    s.workers j = .waiting ∧ ∃ n, s.queueStat = n + 1 ∧ t = { s.setWorker j (.woken true) with queueStat := n } := by
  unfold step at h
  dsimp only at h
  split at h
  · rename_i n hj hn
    cases h
    exact ⟨hj, n, hn, rfl⟩
  · cases h

theorem step_waitEarly {maxRequests : ℕ} {s t : Pool T ι κ} {j : κ} (h : step maxRequests s (.waitEarly j) = some t) :
    s.workers j = .waiting ∧ t = s.setWorker j (.woken false) := by
  unfold step at h
  dsimp only at h
  split at h
  · rename_i hj
    cases h
    exact ⟨hj, rfl⟩
  · cases h

theorem step_run {maxRequests : ℕ} {s t : Pool T ι κ} {j : κ} (h : step maxRequests s (.run j) = some t) :
    ∃ taken, s.workers j = .woken taken ∧ ((s.workQueue = [] ∧ t = s.setWorker j .waiting) ∨
      ∃ request rest, s.workQueue = request :: rest ∧ t = { s.setWorker j (handOut request) with
        workQueue := rest, removed := s.removed ++ [request] }) := by
  unfold step at h
  dsimp only at h
  split at h
  · rename_i taken hj
    refine ⟨taken, hj, ?_⟩
    split at h
    · rename_i hq
      cases h
      exact Or.inl ⟨hq, rfl⟩
    · rename_i request rest hq
      cases h
      exact Or.inr ⟨request, rest, hq, rfl⟩
  · cases h

theorem step_finish {maxRequests : ℕ} {s t : Pool T ι κ} {j : κ} (h : step maxRequests s (.finish j) = some t) :
    ∃ request, s.workers j = .running request ∧ t = s.setWorker j .waiting := by
  unfold step at h
  dsimp only at h
  split at h
  · rename_i request hj
    cases h
    exact ⟨request, hj, rfl⟩
  · cases h

/-! ## The requests that workers get -/

def Worker.request? : Worker T → Option T
  | .running request => some request
  | _ => none

/-- the request with which a worker leaves the locked section of `run` -/
def Op.gets (t : Pool T ι κ) : Op T ι κ → Option T
  | .run j => (t.workers j).request?
  | _ => none

/-- the requests that workers got in a run, one after the other -/
def handedOut (maxRequests : ℕ) : Pool T ι κ → List (Op T ι κ) → List T
  | _, [] => []
  | s, op :: ops =>
    match step maxRequests s op with
    | some t => (op.gets t).toList ++ handedOut maxRequests t ops
    | none => []

theorem removed_step {maxRequests : ℕ} {s t : Pool T ι κ} {op : Op T ι κ} (h : step maxRequests s op = some t) :
    t.removed.filterMap id = s.removed.filterMap id ++ (op.gets t).toList := by
  cases op with
  | append i request =>
    obtain ⟨-, ⟨-, rfl⟩ | ⟨-, rfl⟩⟩ := step_append h <;> exact (List.append_nil _).symm
  | post i =>
    obtain ⟨-, rfl⟩ := step_post h
    exact (List.append_nil _).symm
  | wait j =>
    obtain ⟨-, n, -, rfl⟩ := step_wait h
    exact (List.append_nil _).symm
  | waitEarly j =>
    obtain ⟨-, rfl⟩ := step_waitEarly h
    exact (List.append_nil _).symm
  | run j =>
    obtain ⟨taken, -, ⟨-, rfl⟩ | ⟨request, rest, -, rfl⟩⟩ := step_run h
    · simp [Op.gets, Pool.setWorker, Worker.request?]
    · rw [List.filterMap_append]
      cases request <;> simp [Op.gets, Pool.setWorker, handOut, Worker.request?]
  | finish j =>
    obtain ⟨request, -, rfl⟩ := step_finish h
    exact (List.append_nil _).symm

theorem removed_run {maxRequests : ℕ} {s t : Pool T ι κ} {ops : List (Op T ι κ)}
    (h : Run.exec (step maxRequests) s ops = some t) :
    t.removed.filterMap id = s.removed.filterMap id ++ handedOut maxRequests s ops := by
  induction ops generalizing s with
  | nil =>
    cases h
    exact (List.append_nil _).symm
  | cons op ops ih =>
    obtain ⟨u, hu, hrest⟩ := Run.exec_cons h
    rw [ih hrest, removed_step hu, List.append_assoc]
    simp only [handedOut, hu]

/-! ## Counting threads -/

section Counting

variable [Fintype ι] [Fintype κ]

/-- the worker holds a unit of the semaphore for a request it has not taken yet -/
def Worker.hasUnit : Worker T → Bool
  | .woken taken => taken
  | _ => false

/-- appends between the push and the post -/
def appendsInProgress (s : Pool T ι κ) : ℕ := (Finset.univ.filter fun i => s.appenders i = .pushed).card

/-- workers between a successful wait and the pop -/
def unitsTaken (s : Pool T ι κ) : ℕ := (Finset.univ.filter fun j => (s.workers j).hasUnit = true).card

omit [DecidableEq κ] [Fintype κ] in
theorem appendsInProgress_setAppender (s : Pool T ι κ) (i : ι) (a : Appender) :
    appendsInProgress (s.setAppender i a) + (if s.appenders i = .pushed then 1 else 0) =
      appendsInProgress s + if a = .pushed then 1 else 0 := by
  simp only [appendsInProgress, Finset.card_filter]
  exact Run.sum_update s.appenders i a fun x => if x = .pushed then 1 else 0

omit [DecidableEq ι] [Fintype ι] in
theorem unitsTaken_setWorker (s : Pool T ι κ) (j : κ) (w : Worker T) :
    unitsTaken (s.setWorker j w) + (if (s.workers j).hasUnit = true then 1 else 0) =
      unitsTaken s + if w.hasUnit = true then 1 else 0 := by
  simp only [unitsTaken, Finset.card_filter]
  exact Run.sum_update s.workers j w fun x => if x.hasUnit = true then 1 else 0

theorem hasUnit_handOut (request : Option T) : (handOut request).hasUnit = false := by cases request <;> rfl

/-! ## Runs -/

structure Inv (s : Pool T ι κ) : Prop where
  /-- accepted requests are handed out in order, the rest is queued -/
  fifo : s.appended = s.removed ++ s.workQueue
  /-- every queued request will be looked for -/
  covered : s.workQueue.length ≤ s.queueStat + appendsInProgress s + unitsTaken s

omit [DecidableEq ι] [DecidableEq κ] in
theorem inv_init : Inv (Pool.init : Pool T ι κ) := ⟨rfl, Nat.zero_le _⟩

omit [DecidableEq ι] in
/-- a step that only moves a worker which holds no unit -/
theorem Inv.setWorker {s : Pool T ι κ} (h : Inv s) {j : κ} {w : Worker T} (hj : (s.workers j).hasUnit = false) :
    Inv (s.setWorker j w) := by
  have hu := unitsTaken_setWorker s j w
  have hc := h.covered
  rw [hj] at hu
  simp only [Bool.false_eq_true, if_false] at hu
  refine ⟨h.fifo, ?_⟩
  show s.workQueue.length ≤ s.queueStat + appendsInProgress s + unitsTaken (s.setWorker j w)
  omega

theorem Inv.step {maxRequests : ℕ} {s t : Pool T ι κ} {o : Op T ι κ} (h : Inv s)
    (hstep : ThreadPool.step maxRequests s o = some t) : Inv t := by
  have hc := h.covered
  cases o with
  | append i request =>
    obtain ⟨hi, ⟨-, rfl⟩ | ⟨-, rfl⟩⟩ := step_append hstep
    · exact h
    · have ha := appendsInProgress_setAppender s i .pushed
      simp only [hi, reduceCtorEq, if_true, if_false] at ha
      refine ⟨?_, ?_⟩
      · show s.appended ++ [request] = s.removed ++ (s.workQueue ++ [request])
        rw [h.fifo, List.append_assoc]
      · show (s.workQueue ++ [request]).length ≤ s.queueStat + appendsInProgress (s.setAppender i .pushed) + unitsTaken s
        rw [List.length_append, List.length_singleton]
        omega
  | post i =>
    obtain ⟨hi, rfl⟩ := step_post hstep
    have ha := appendsInProgress_setAppender s i .idle
    simp only [hi, reduceCtorEq, if_true, if_false] at ha
    refine ⟨h.fifo, ?_⟩
    show s.workQueue.length ≤ s.queueStat + 1 + appendsInProgress (s.setAppender i .idle) + unitsTaken s
    omega
  | wait j =>
    obtain ⟨hj, n, hn, rfl⟩ := step_wait hstep
    have hu := unitsTaken_setWorker s j (.woken true)
    simp only [hj, Worker.hasUnit, Bool.false_eq_true, if_true, if_false] at hu
    refine ⟨h.fifo, ?_⟩
    show s.workQueue.length ≤ n + appendsInProgress s + unitsTaken (s.setWorker j (.woken true))
    omega
  | waitEarly j =>
    obtain ⟨hj, rfl⟩ := step_waitEarly hstep
    exact h.setWorker (by rw [hj]; rfl)
  | run j =>
    obtain ⟨taken, hj, ⟨hq, rfl⟩ | ⟨request, rest, hq, rfl⟩⟩ := step_run hstep
    · refine ⟨h.fifo, ?_⟩
      show s.workQueue.length ≤ _
      rw [hq]
      exact Nat.zero_le _
    · have hu := unitsTaken_setWorker s j (handOut request)
      rw [hasUnit_handOut] at hu
      have hle : (if (s.workers j).hasUnit = true then 1 else 0) ≤ 1 := by split_ifs <;> omega
      simp only [Bool.false_eq_true, if_false] at hu
      rw [hq, List.length_cons] at hc
      refine ⟨?_, ?_⟩
      · show s.appended = s.removed ++ [request] ++ rest
        rw [h.fifo, hq, List.append_assoc, List.singleton_append]
      · show rest.length ≤ s.queueStat + appendsInProgress s + unitsTaken (s.setWorker j (handOut request))
        omega
  | finish j =>
    obtain ⟨request, hj, rfl⟩ := step_finish hstep
    exact h.setWorker (by rw [hj]; rfl)

omit [DecidableEq ι] [DecidableEq κ] in
/-- a queued request is covered by something that is not asleep -/
theorem Inv.awake {s : Pool T ι κ} (h : Inv s) (hq : s.workQueue ≠ []) (hw : ∀ j, s.workers j = .waiting)
    (ha : ∀ i, s.appenders i = .idle) : 0 < s.queueStat := by
  have hc := h.covered
  have hpos := List.length_pos_iff.2 hq
  have h1 : appendsInProgress s = 0 := by simp [appendsInProgress, ha]
  have h2 : unitsTaken s = 0 := by simp [unitsTaken, hw, Worker.hasUnit]
  omega

/-- **The pool loses, repeats and reorders nothing, and never sleeps over a request.** In every state of every run, with
any number of appending threads and workers: the requests removed from the queue are a prefix of those that `append`
accepted, and the rest is queued; those of them that are not null are what the workers got, in the same order; the queue
is no longer than the semaphore's value, the appends between push and post and the workers between a successful wait and
the pop together; so when a request is queued, not all workers are blocked in `wait` (waiting, with the semaphore at 0)
unless an append is about to post. -/
theorem pool_run {maxRequests : ℕ} {ops : List (Op T ι κ)} {s : Pool T ι κ}
    (h : Run.exec (ThreadPool.step maxRequests) Pool.init ops = some s) :
    s.removed <+: s.appended ∧ s.appended = s.removed ++ s.workQueue ∧
      handedOut maxRequests Pool.init ops = s.removed.filterMap id ∧
      s.workQueue.length ≤ s.queueStat + appendsInProgress s + unitsTaken s ∧
      (s.workQueue ≠ [] → ¬ ((∀ j, s.workers j = .waiting) ∧ s.queueStat = 0 ∧ ∀ i, s.appenders i = .idle)) := by
  have hinv : Inv s := Run.exec_inv (fun _ _ _ hi hs => hi.step hs) inv_init h
  refine ⟨⟨s.workQueue, hinv.fifo.symm⟩, hinv.fifo, (removed_run h).symm, hinv.covered, ?_⟩
  rintro hq ⟨hw, hz, ha⟩
  exact absurd (hinv.awake hq hw ha) (by omega)

end Counting

/-- two appends, a worker that wakes early and takes the first request, another one that waits for its unit -/
def earlyRun : Option (Pool ℕ (Fin 2) (Fin 2)) :=
  Run.exec (ThreadPool.step 3) Pool.init
    [.append 0 (some 7), .waitEarly 0, .append 1 (some 8), .run 0, .post 1, .wait 1]

theorem earlyRun_isSome : earlyRun.isSome = true := by decide

theorem pool_run_earlyRun : (earlyRun.get earlyRun_isSome).removed = [some 7] ∧
    (earlyRun.get earlyRun_isSome).workQueue = [some 8] ∧
    (earlyRun.get earlyRun_isSome).removed <+: (earlyRun.get earlyRun_isSome).appended :=
  ⟨by decide, by decide, (pool_run (Option.some_get earlyRun_isSome).symm).1⟩

/-! ## The size of the queue -/

/-- an `append` that is called on a queue of another size than `maxRequests` -/
def appendsBelow (maxRequests : ℕ) (s : Pool T ι κ) : Op T ι κ → Bool
  | .append _ _ => decide (s.workQueue.length ≠ maxRequests)
  | _ => true

/-- an `append` that returns false exactly on a queue of `maxRequests` requests, and then changes nothing -/
def RefusesFull (maxRequests : ℕ) (s : Pool T ι κ) : Op T ι κ → Prop
  | .append i request =>
    ((append maxRequests request s.workQueue).1 = false ↔ s.workQueue.length = maxRequests) ∧
    ((append maxRequests request s.workQueue).1 = false → step maxRequests s (.append i request) = some s)
  | _ => True

/-- the bound is kept by every step but an `append` on a queue of `maxRequests` requests -/
theorem step_bounded {maxRequests : ℕ} {s t : Pool T ι κ} {op : Op T ι κ} (hle : s.workQueue.length ≤ maxRequests)
    (hstep : step maxRequests s op = some t) :
    t.workQueue.length ≤ maxRequests ↔ appendsBelow maxRequests s op = true := by
  cases op with
  | append i request =>
    obtain ⟨-, ⟨hlt, -⟩ | ⟨-, rfl⟩⟩ := step_append hstep
    · omega
    · simp only [appendsBelow, decide_eq_true_eq, List.length_append, List.length_singleton]
      omega
  | post i =>
    obtain ⟨-, rfl⟩ := step_post hstep
    exact iff_of_true hle rfl
  | wait j =>
    obtain ⟨-, n, -, rfl⟩ := step_wait hstep
    exact iff_of_true hle rfl
  | waitEarly j =>
    obtain ⟨-, rfl⟩ := step_waitEarly hstep
    exact iff_of_true hle rfl
  | run j =>
    obtain ⟨taken, -, ⟨-, rfl⟩ | ⟨request, rest, hq, rfl⟩⟩ := step_run hstep
    · exact iff_of_true hle rfl
    · rw [hq, List.length_cons] at hle
      exact iff_of_true (Nat.le_of_succ_le hle) rfl
  | finish j =>
    obtain ⟨request, -, rfl⟩ := step_finish hstep
    exact iff_of_true hle rfl

omit [DecidableEq ι] [DecidableEq κ] in
theorem append_true {maxRequests : ℕ} {workQueue : List (Option T)} (h : workQueue.length ≤ maxRequests)
    (request : Option T) : (append maxRequests request workQueue).1 = true := by
  unfold append
  rw [if_neg (not_lt.2 h)]

/-- **The bound of the queue.** In every run, with any number of appending threads and workers: the queue never holds more
than `maxRequests` requests if and only if `append` is never called when it holds exactly so many; and that is also when
every `append` returns false exactly on a full queue, without changing the pool. -/
theorem queue_bounded_iff {maxRequests : ℕ} {ops : List (Op T ι κ)} {s : Pool T ι κ}
    (h : Run.exec (ThreadPool.step maxRequests) Pool.init ops = some s) :
    (Run.Throughout (ThreadPool.step maxRequests) (fun u => u.workQueue.length ≤ maxRequests) Pool.init ops ↔
      Run.Along (ThreadPool.step maxRequests) (fun u op => appendsBelow maxRequests u op = true) Pool.init ops) ∧
    (Run.Along (ThreadPool.step maxRequests) (RefusesFull maxRequests) Pool.init ops ↔
      Run.Along (ThreadPool.step maxRequests) (fun u op => appendsBelow maxRequests u op = true) Pool.init ops) := by
  have hinit : (Pool.init : Pool T ι κ).workQueue.length ≤ maxRequests := Nat.zero_le _
  refine ⟨?_, ?_, ?_⟩
  · apply Run.throughout_iff_along (I := fun _ => True)
    · exact fun u op t _ hle hstep => ⟨trivial, step_bounded hle hstep⟩
    · trivial
    · exact hinit
    · exact h
  · apply Run.Along.imp (I := fun _ => True)
    · exact fun _ _ _ _ _ _ => trivial
    · intro u op _ hrefuses
      cases op with
      | append i request =>
        -- on a queue of exactly `maxRequests` requests `append` returns true
        refine decide_eq_true fun hfull => ?_
        have hfalse := hrefuses.1.2 hfull
        rw [append_true hfull.le] at hfalse
        cases hfalse
      | _ => rfl
    · trivial
  · apply Run.Along.imp (I := fun u => u.workQueue.length ≤ maxRequests)
    · exact fun u op t hle hbelow hstep => (step_bounded hle hstep).2 hbelow
    · intro u op hle hbelow
      cases op with
      | append i request =>
        have hne : u.workQueue.length ≠ maxRequests := of_decide_eq_true hbelow
        have htrue := append_true hle request
        refine ⟨iff_of_false (by rw [htrue]; decide) hne, fun hfalse => ?_⟩
        cases htrue.symm.trans hfalse
      | _ => trivial
    · exact hinit

theorem queue_bounded_earlyRun :
    Run.Throughout (ThreadPool.step 3) (fun u : Pool ℕ (Fin 2) (Fin 2) => u.workQueue.length ≤ 3) Pool.init
      [.append 0 (some 7), .waitEarly 0, .append 1 (some 8), .run 0, .post 1, .wait 1] :=
  (queue_bounded_iff (Option.some_get earlyRun_isSome).symm).1.2 (by decide)

/-- two appends on a queue for one request -/
def overfullRun : Option (Pool ℕ (Fin 2) (Fin 2)) :=
  Run.exec (ThreadPool.step 1) Pool.init [.append 0 (some 7), .append 1 (some 8)]

theorem overfullRun_isSome : overfullRun.isSome = true := by decide

/-- **A queue of `maxRequests + 1` requests.** The second `append` finds one request, the maximum, and returns true. -/
theorem queue_overfull : (append 1 (some 8) [some 7]).1 = true ∧
    (overfullRun.get overfullRun_isSome).workQueue = [some 7, some 8] := by
  decide

end WebServer.ThreadPool
