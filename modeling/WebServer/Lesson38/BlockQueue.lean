/-
The blocking queue `blockQueue<T>` (lesson38/blockQueue.cpp): `push` and `take`, called by any number of threads.

Each statement of the two functions is one step, and the steps of all threads interleave arbitrarily:
- a thread is given by the statement it executes next (`Pc`); `pthread_mutex_lock` is executed only if the mutex is free;
- `pthread_cond_wait` releases the mutex and puts the thread to sleep; `pthread_cond_broadcast` wakes every sleeper, and a
  sleeper may also wake by itself (`Op.wake`); a woken thread takes the mutex again before it goes on;
- `q.front()` and `q.pop()` on an empty queue are undefined: the thread is `crashed`.
`pushed` and `taken` record the values in the order in which they enter and leave the queue. Cancellation of a thread is
left out.

- `Inv`: the mutex is held by the thread inside its critical section, the queue is what was pushed and not yet taken, and
  a thread sleeps beside a value only until the `push` that brought it has broadcast.
- `blockQueue_run`: so the values taken are a prefix of those pushed, no thread crashes, and whenever no thread is inside
  its critical section, the queue is empty if some thread sleeps.
-/
import WebServer.Core.Monitor
import WebServer.Core.Run

namespace WebServer.BlockQueue

open WebServer.Monitor

variable {T τ : Type*}

/-! ## Model -/

/-- the statement a thread executes next -/
inductive Pc (T : Type*) where
  | idle
  | pushLock (val : T)
  /-- `q.push(val)` -/
  | pushVal (val : T)
  | pushBroadcast
  | pushUnlock
  | takeLock
  /-- `while(q.empty())` -/
  | takeEmpty
  /-- about to call `pthread_cond_wait` -/
  | takeWait
  | blocked
  /-- woken in `pthread_cond_wait`, the mutex is still to be taken again -/
  | woken
  /-- `tmp = q.front()` -/
  | takeFront
  /-- `q.pop()` -/
  | takePop (tmp : T)
  | takeUnlock (tmp : T)
  | crashed
deriving DecidableEq, Repr

/-- between a `pthread_mutex_lock` and the `pthread_mutex_unlock` or `pthread_cond_wait` after it -/
def Pc.inside : Pc T → Bool
  | .pushVal _ | .pushBroadcast | .pushUnlock => true
  | .takeEmpty | .takeWait | .takeFront | .takePop _ | .takeUnlock _ => true
  | _ => false

def Pc.isBlocked : Pc T → Bool
  | .blocked => true
  | _ => false

def Pc.broadcasts : Pc T → Bool
  | .pushBroadcast => true
  | _ => false

structure State (T τ : Type*) extends Threads τ (Pc T) where
  q : List T
  pushed : List T
  taken : List T

def State.init : State T τ := ⟨⟨none, fun _ => .idle⟩, [], [], []⟩

inductive Op (T τ : Type*) where
  /-- the thread calls `push(val)` -/
  | push (t : τ) (val : T)
  /-- the thread calls `take()` -/
  | take (t : τ)
  /-- the thread executes its next statement -/
  | next (t : τ)
  /-- `pthread_cond_wait` returns by itself -/
  | wake (t : τ)

theorem Pc.blocked_outside (p : Pc T) (h : p.isBlocked = true) : p.inside = false := by
  cases p <;> first | rfl | cases h

/-- `cond` with its mutex -/
def cond (T : Type*) : Cond (Pc T) where
  inside := Pc.inside
  blocked := Pc.isBlocked
  notifies := Pc.broadcasts
  woken := .woken
  blocked_outside := Pc.blocked_outside
  woken_outside := rfl
  woken_awake := rfl

variable [DecidableEq τ]

def next (s : State T τ) (t : τ) : Option (State T τ) :=
  match s.pc t with
  | .idle | .blocked | .crashed => none
  | .pushLock val => (s.lock t (.pushVal val)).map fun θ => { s with toThreads := θ }
  | .pushVal val =>
    some { s with toThreads := s.goto t .pushBroadcast, q := s.q ++ [val], pushed := s.pushed ++ [val] }
  | .pushBroadcast => some { s with toThreads := (cond T).wake (fun _ => true) (s.goto t .pushUnlock) }
  | .pushUnlock => some { s with toThreads := s.unlock t .idle }
  | .takeLock | .woken => (s.lock t .takeEmpty).map fun θ => { s with toThreads := θ }
  | .takeEmpty => some { s with toThreads := s.goto t (if s.q.isEmpty then .takeWait else .takeFront) }
  | .takeWait => some { s with toThreads := s.unlock t .blocked }
  | .takeFront =>
    match s.q with
    | [] => some { s with toThreads := s.goto t .crashed }
    | tmp :: _ => some { s with toThreads := s.goto t (.takePop tmp) }
  | .takePop tmp =>
    match s.q with
    | [] => some { s with toThreads := s.goto t .crashed }
    | _ :: q => some { s with toThreads := s.goto t (.takeUnlock tmp), q := q, taken := s.taken ++ [tmp] }
  | .takeUnlock _ => some { s with toThreads := s.unlock t .idle }

def step (s : State T τ) : Op T τ → Option (State T τ)
  | .push t val =>
    match s.pc t with
    | .idle => some { s with toThreads := s.goto t (.pushLock val) }
    | _ => none
  | .take t =>
    match s.pc t with
    | .idle => some { s with toThreads := s.goto t .takeLock }
    | _ => none
  | .next t => next s t
  | .wake t =>
    match s.pc t with
    | .blocked => some { s with toThreads := s.goto t .woken }
    | _ => none

/-! ## Invariant -/

/-- what a statement presumes about the queue -/
def Fact (q : List T) : Pc T → Prop
  | .takeWait => q = []
  | .takeFront => q ≠ []
  | .takePop tmp => q.head? = some tmp
  | .crashed => False
  | _ => True

omit [DecidableEq τ] in
theorem Fact.outside {q q' : List T} (p : Pc T) (hp : p.inside = false) (h : Fact q p) : Fact q' p := by
  cases p <;> first | exact h | cases hp

structure Inv (s : State T τ) : Prop where
  holds : Holds Pc.inside s.toThreads
  fifo : s.pushed = s.taken ++ s.q
  facts : ∀ t, Fact s.q (s.pc t)
  /-- a thread sleeps beside a value only until the `push` that brought it has broadcast -/
  asleep : ∀ t, (s.pc t).isBlocked = true → s.q = [] ∨ ∃ u, s.pc u = .pushBroadcast

omit [DecidableEq τ] in
theorem inv_init : Inv (State.init : State T τ) where
  holds := holds_start fun _ => rfl
  fifo := rfl
  facts := fun _ => trivial
  asleep := fun _ h => by cases h

/-- a thread that is not about to broadcast moves on awake: who sleeps, slept before -/
theorem Inv.asleep_update {s : State T τ} (h : Inv s) {t : τ} {p : Pc T} (ht : s.pc t ≠ .pushBroadcast)
    (hp : p.isBlocked = false) (u : τ) (hu : (Function.update s.pc t p u).isBlocked = true) :
    s.q = [] ∨ ∃ v, Function.update s.pc t p v = .pushBroadcast := by
  have hslept := ((cond T).blocked_update hp hu).2
  apply (h.asleep u hslept).imp_right
  rintro ⟨v, hv⟩
  have hvt : v ≠ t := by
    rintro rfl
    exact ht hv
  exact ⟨v, by rw [Function.update_of_ne hvt]; exact hv⟩

/-- a thread moves on where it was, inside or outside the critical section -/
theorem Inv.goto {s : State T τ} (h : Inv s) {t : τ} {p : Pc T} (ht : s.pc t ≠ .pushBroadcast)
    (hp : p.isBlocked = false) (hin : p.inside = (s.pc t).inside) (hf : Fact s.q p) :
    Inv { s with toThreads := s.goto t p } where
  holds := h.holds.goto hin
  fifo := h.fifo
  facts := forall_update h.facts hf
  asleep := h.asleep_update ht hp

theorem Inv.lock {s s' : State T τ} (h : Inv s) {t : τ} {p : Pc T} (ht : s.pc t ≠ .pushBroadcast)
    (hp : p.isBlocked = false) (hin : p.inside = true) (hf : Fact s.q p)
    (hs : (s.lock t p).map (fun θ => { s with toThreads := θ }) = some s') : Inv s' := by
  obtain ⟨θ, hl, rfl⟩ := Option.map_eq_some_iff.mp hs
  have hholds := h.holds.lock hin hl
  obtain ⟨-, rfl⟩ := Threads.lock_some hl
  exact ⟨hholds, h.fifo, forall_update h.facts hf, h.asleep_update ht hp⟩

theorem Inv.unlock {s : State T τ} (h : Inv s) {t : τ} (ht : (s.pc t).inside = true) (hb : s.pc t ≠ .pushBroadcast) :
    Inv { s with toThreads := s.unlock t .idle } where
  holds := h.holds.unlock ht rfl
  fifo := h.fifo
  facts := forall_update h.facts trivial
  asleep := h.asleep_update hb rfl

/-- `q.push(val)` -/
theorem Inv.push {s : State T τ} (h : Inv s) {t : τ} {val : T} (ht : s.pc t = .pushVal val) :
    Inv { s with toThreads := s.goto t .pushBroadcast, q := s.q ++ [val], pushed := s.pushed ++ [val] } where
  holds := h.holds.goto (by rw [ht]; rfl)
  fifo := by
    calc s.pushed ++ [val] = (s.taken ++ s.q) ++ [val] := by rw [h.fifo]
      _ = s.taken ++ (s.q ++ [val]) := List.append_assoc ..
  facts := h.holds.write Fact.outside h.facts (by rw [ht]; rfl) trivial
  asleep := fun _ _ => Or.inr ⟨t, Function.update_self ..⟩

/-- `pthread_cond_broadcast` leaves nobody asleep -/
theorem Inv.broadcast {s : State T τ} (h : Inv s) {t : τ} (ht : s.pc t = .pushBroadcast) :
    Inv { s with toThreads := (cond T).wake (fun _ => true) (s.goto t .pushUnlock) } where
  holds := Holds.wake (cond T) (h.holds.goto (by rw [ht]; rfl)) _
  fifo := h.fifo
  facts := (cond T).forall_wake (forall_update h.facts trivial) trivial
  asleep := fun u hu => by
    have hall := (@Cond.blocked_wake _ _ (cond T) (s.goto t .pushUnlock) (fun _ => true) u hu).2
    cases hall

/-- `pthread_cond_wait` is called only on an empty queue -/
theorem Inv.wait {s : State T τ} (h : Inv s) {t : τ} (ht : s.pc t = .takeWait) :
    Inv { s with toThreads := s.unlock t .blocked } where
  holds := h.holds.unlock (by rw [ht]; rfl) rfl
  fifo := h.fifo
  facts := forall_update h.facts trivial
  asleep := fun _ _ => by
    have hempty := h.facts t
    rw [ht] at hempty
    exact Or.inl hempty

omit [DecidableEq τ] in
/-- nobody sleeps while a thread takes a value: the mutex is not with a `push` that has yet to broadcast -/
theorem Inv.nobody_asleep {s : State T τ} (h : Inv s) {t : τ} (ht : (s.pc t).inside = true)
    (hb : s.pc t ≠ .pushBroadcast) (hq : s.q ≠ []) (u : τ) : (s.pc u).isBlocked = false := by
  rw [Bool.eq_false_iff]
  intro hu
  rcases h.asleep u hu with h0 | ⟨v, hv⟩
  · exact hq h0
  · have hvt : v = t := h.holds.unique (by rw [hv]; rfl) ht
    exact hb (hvt ▸ hv)

/-- `q.pop()` removes the value that `q.front()` gave -/
theorem Inv.pop {s : State T τ} (h : Inv s) {t : τ} {tmp x : T} {q : List T} (ht : s.pc t = .takePop tmp)
    (hq : s.q = x :: q) :
    Inv { s with toThreads := s.goto t (.takeUnlock tmp), q := q, taken := s.taken ++ [tmp] } where
  holds := h.holds.goto (by rw [ht]; rfl)
  fifo := by
    have hhead := h.facts t
    rw [ht, hq] at hhead
    calc s.pushed = s.taken ++ (x :: q) := by rw [h.fifo, hq]
      _ = s.taken ++ (tmp :: q) := by rw [Option.some.inj hhead]
      _ = (s.taken ++ [tmp]) ++ q := by rw [List.append_assoc]; rfl
  facts := h.holds.write Fact.outside h.facts (by rw [ht]; rfl) trivial
  asleep := fun u hu => by
    have hne : s.q ≠ [] := by rw [hq]; exact List.cons_ne_nil x q
    have hawake := h.nobody_asleep (by rw [ht]; rfl) (by simp [ht]) hne
    have hnobody : (Function.update s.pc t (.takeUnlock tmp) u).isBlocked = false :=
      forall_update (P := fun p : Pc T => p.isBlocked = false) hawake rfl u
    cases hnobody.symm.trans hu

theorem Inv.next {s s' : State T τ} {t : τ} (h : Inv s) (hs : BlockQueue.next s t = some s') : Inv s' := by
  have hfact := h.facts t
  unfold BlockQueue.next at hs
  split at hs
  · cases hs
  · cases hs
  · cases hs
  · rename_i val ht
    exact h.lock (p := .pushVal val) (by simp [ht]) rfl rfl trivial hs
  · rename_i val ht
    cases hs
    exact h.push ht
  · rename_i ht
    cases hs
    exact h.broadcast ht
  · rename_i ht
    cases hs
    exact h.unlock (by rw [ht]; rfl) (by simp [ht])
  · rename_i ht
    exact h.lock (p := .takeEmpty) (by simp [ht]) rfl rfl trivial hs
  · rename_i ht
    exact h.lock (p := .takeEmpty) (by simp [ht]) rfl rfl trivial hs
  · rename_i ht
    cases hs
    have hb : s.pc t ≠ .pushBroadcast := by simp [ht]
    -- the test of the loop decides which of the two is true of the queue
    split_ifs with hq
    · exact h.goto hb rfl (by rw [ht]; rfl) (List.isEmpty_iff.mp hq)
    · exact h.goto hb rfl (by rw [ht]; rfl) (fun h0 => hq (List.isEmpty_iff.mpr h0))
  · rename_i ht
    cases hs
    exact h.wait ht
  · rename_i ht
    rw [ht] at hfact
    split at hs
    · rename_i hq
      exact absurd hq hfact
    · rename_i tmp q hq
      cases hs
      exact h.goto (by simp [ht]) rfl (by rw [ht]; rfl) (by rw [hq]; rfl)
  · rename_i tmp ht
    rw [ht] at hfact
    split at hs
    · rename_i hq
      rw [hq] at hfact
      cases hfact
    · rename_i x q hq
      cases hs
      exact h.pop ht hq
  · rename_i tmp ht
    cases hs
    exact h.unlock (by rw [ht]; rfl) (by simp [ht])

/-- **Every step keeps the invariant.** -/
theorem Inv.step {s s' : State T τ} {op : Op T τ} (h : Inv s) (hs : BlockQueue.step s op = some s') : Inv s' := by
  cases op with
  | push t val =>
    simp only [BlockQueue.step] at hs
    split at hs
    · rename_i ht
      cases hs
      exact h.goto (by simp [ht]) rfl (by rw [ht]; rfl) trivial
    · cases hs
  | take t =>
    simp only [BlockQueue.step] at hs
    split at hs
    · rename_i ht
      cases hs
      exact h.goto (by simp [ht]) rfl (by rw [ht]; rfl) trivial
    · cases hs
  | next t => exact h.next hs
  | wake t =>
    simp only [BlockQueue.step] at hs
    split at hs
    · rename_i ht
      cases hs
      exact h.goto (by simp [ht]) rfl (by rw [ht]; rfl) trivial
    · cases hs

theorem run_inv {s : State T τ} {ops : List (Op T τ)} (h : Run.exec step State.init ops = some s) : Inv s :=
  Run.exec_inv (fun _ _ _ hs => hs.step) inv_init h

/-! ## Main result -/

/-- **The blocking queue.** In every state of every run: the values taken are a prefix of the values pushed and the queue
is the rest; no `q.front()` or `q.pop()` is executed on an empty queue; and beside a sleeping thread the queue is empty,
except inside the critical section of a `push` that has yet to broadcast. -/
theorem blockQueue_run {s : State T τ} {ops : List (Op T τ)} (h : Run.exec step State.init ops = some s) :
    s.pushed = s.taken ++ s.q ∧
    (∀ t, s.pc t ≠ .crashed) ∧
    (∀ t, s.pc t = .takeFront ∨ (∃ tmp, s.pc t = .takePop tmp) → s.q ≠ []) ∧
    (∀ t, s.pc t = .blocked → s.q = [] ∨ ∃ u, s.mutex = some u ∧ s.pc u = .pushBroadcast) ∧
    (s.mutex = none → ∀ t, s.pc t = .blocked → s.q = []) := by
  have hinv := run_inv h
  have hasleep : ∀ t, s.pc t = .blocked → s.q = [] ∨ ∃ u, s.mutex = some u ∧ s.pc u = .pushBroadcast := by
    intro t ht
    apply (hinv.asleep t (by rw [ht]; rfl)).imp_right
    rintro ⟨u, hu⟩
    exact ⟨u, (hinv.holds u).mp (by rw [hu]; rfl), hu⟩
  refine ⟨hinv.fifo, fun t ht => ?_, fun t ht => ?_, hasleep, fun hm t ht => ?_⟩
  · have hfact := hinv.facts t
    rw [ht] at hfact
    exact hfact
  · have hfact := hinv.facts t
    rcases ht with ht | ⟨tmp, ht⟩
    · rw [ht] at hfact
      exact hfact
    · rw [ht] at hfact
      intro h0
      rw [h0] at hfact
      cases hfact
  · apply (hasleep t ht).resolve_right
    rintro ⟨u, hu, -⟩
    rw [hm] at hu
    cases hu

/-- the consumer comes first and sleeps; the producer then pushes two values and is about to broadcast the second -/
def sleeperOps : List (Op ℕ Bool) :=
  [.take true, .next true, .next true, .next true, .push false 7, .next false, .next false, .next false, .next false,
    .next true, .next true, .next true, .next true, .next true, .take true, .next true, .next true, .next true,
    .push false 9, .next false, .next false]

def sleeperRun : Option (State ℕ Bool) := Run.exec step State.init sleeperOps

theorem sleeperRun_isSome : sleeperRun.isSome = true := by decide +kernel

theorem blockQueue_sleeperRun :
    (sleeperRun.get sleeperRun_isSome).taken = [7] ∧
    (sleeperRun.get sleeperRun_isSome).pushed = [7, 9] ∧
    (sleeperRun.get sleeperRun_isSome).pc true = .blocked ∧
    (sleeperRun.get sleeperRun_isSome).q = [9] ∧
    (sleeperRun.get sleeperRun_isSome).pushed =
      (sleeperRun.get sleeperRun_isSome).taken ++ (sleeperRun.get sleeperRun_isSome).q :=
  ⟨by decide +kernel, by decide +kernel, by decide +kernel, by decide +kernel,
    (blockQueue_run (Option.some_get sleeperRun_isSome).symm).1⟩

end WebServer.BlockQueue
