/-
The blocking queue when threads are cancelled, as `main` of lesson38/blockQueue.cpp does with the consumers.

`pthread_cancel` only asks. A thread ends at its next cancellation point: outside the queue (`usleep`, `printf`), or in
`pthread_cond_wait`, which takes the mutex again before the thread ends. No cleanup handler gives the mutex back. A thread
that has been asked may still go on to its next cancellation point, as may one that is woken before it notices.

- `simulates`: a run with cancellations is a run of the queue in which threads stop, so all that holds of the queue holds.
- `Held.step`: a thread that has ended with the mutex keeps it.
- `cancel_run`: no value is lost or taken twice; a thread that was cancelled inside `take` ends with the mutex, and from then
  on nothing is pushed or taken and no other thread can end inside `take`.
-/
import WebServer.Lesson38.BlockQueue

namespace WebServer.BlockQueue

open WebServer.Monitor

variable {T τ : Type*}

/-! ## Model -/

structure Cancelling (T τ : Type*) extends State T τ where
  /-- `pthread_cancel` was called for the thread -/
  asked : τ → Bool
  ended : τ → Bool

def Cancelling.init : Cancelling T τ := ⟨State.init, fun _ => false, fun _ => false⟩

def Op.thread : Op T τ → τ
  | .push t _ | .take t | .next t | .wake t => t

inductive CancelOp (T τ : Type*) where
  | queue (op : Op T τ)
  | cancel (t : τ)
  /-- the thread reaches a cancellation point -/
  | ends (t : τ)

variable [DecidableEq τ]

/-- the end of a thread that has been asked, at a cancellation point -/
def State.ends (s : State T τ) (t : τ) : Option (State T τ) :=
  match s.pc t with
  -- `usleep` or `printf`, or the entry of `pthread_cond_wait`
  | .idle | .takeWait => some s
  -- inside `pthread_cond_wait`
  | .blocked | .woken => (s.lock t .takeEmpty).map fun θ => { s with toThreads := θ }
  | _ => none

def cancelStep (s : Cancelling T τ) : CancelOp T τ → Option (Cancelling T τ)
  | .queue op =>
    if s.ended op.thread then none
    else (step s.toState op).map fun s' => { s with toState := s' }
  | .cancel t => some { s with asked := Function.update s.asked t true }
  | .ends t =>
    if s.asked t && !s.ended t then
      (s.toState.ends t).map fun s' => { s with toState := s', ended := Function.update s.ended t true }
    else none

/-! ## The queue behind it -/

variable {s s' : Cancelling T τ}

/-- the end of a thread, as steps of the queue -/
theorem ends_simulates {s s' : State T τ} {t : τ} (h : s.ends t = some s') : ∃ ops, Run.exec step s ops = some s' := by
  unfold State.ends at h
  split at h
  · cases h
    exact ⟨[], rfl⟩
  · cases h
    exact ⟨[], rfl⟩
  · rename_i ht
    obtain ⟨θ, hl, rfl⟩ := Option.map_eq_some_iff.mp h
    obtain ⟨hm, rfl⟩ := Threads.lock_some hl
    refine ⟨[.wake t, .next t], ?_⟩
    simp [Run.exec, step, next, ht, Threads.goto, Threads.lock, hm]
  · rename_i ht
    refine ⟨[.next t], ?_⟩
    simp only [Run.exec, step, next, ht, h]
  · cases h

/-- **A step with cancellations is a run of the queue.** -/
theorem simulates {op : CancelOp T τ} (h : cancelStep s op = some s') :
    ∃ ops, Run.exec step s.toState ops = some s'.toState := by
  cases op with
  | queue op =>
    simp only [cancelStep] at h
    split_ifs at h
    obtain ⟨q, hq, rfl⟩ := Option.map_eq_some_iff.mp h
    exact ⟨[op], by simp only [Run.exec, hq]⟩
  | cancel t =>
    cases h
    exact ⟨[], rfl⟩
  | ends t =>
    simp only [cancelStep] at h
    split_ifs at h
    obtain ⟨q, hq, rfl⟩ := Option.map_eq_some_iff.mp h
    exact ends_simulates hq

theorem run_queue_inv {ops : List (CancelOp T τ)} (h : Run.exec cancelStep Cancelling.init ops = some s) :
    Inv s.toState := by
  obtain ⟨queueOps, hrun⟩ := Run.exec_simulates Cancelling.toState (fun _ _ _ hs => simulates hs) h
  exact run_inv hrun

/-! ## Threads that have ended -/

/-- a thread is moved by others only when it sleeps -/
theorem step_pc {s s' : State T τ} {op : Op T τ} {t : τ} (h : step s op = some s') (hne : t ≠ op.thread)
    (ht : s.pc t ≠ .blocked) : s'.pc t = s.pc t := by
  have hupdate : ∀ p, Function.update s.pc op.thread p t = s.pc t := fun p => Function.update_of_ne hne p s.pc
  cases op with
  | push u val | take u | wake u =>
    simp only [step] at h
    split at h
    · cases h
      exact hupdate _
    · cases h
  | next u =>
    simp only [step, next] at h
    cases hu : s.pc u with
    | idle | blocked | crashed =>
      rw [hu] at h
      cases h
    | pushLock | takeLock | woken =>
      rw [hu] at h
      obtain ⟨θ, hl, rfl⟩ := Option.map_eq_some_iff.mp h
      obtain ⟨-, rfl⟩ := Threads.lock_some hl
      exact hupdate _
    | pushBroadcast =>
      rw [hu] at h
      cases h
      rcases (cond T).wake_cases (fun _ => true) (s.goto u .pushUnlock) t with ⟨-, -, hblocked⟩ | hsame
      · exfalso
        have hpc : (s.goto u .pushUnlock).pc t = s.pc t := hupdate _
        rw [hpc] at hblocked
        cases htpc : s.pc t <;> rw [htpc] at hblocked <;> first | exact ht htpc | cases hblocked
      · exact hsame.trans (hupdate _)
    | takeFront | takePop =>
      rw [hu] at h
      dsimp only at h
      split at h <;> cases h <;> exact hupdate _
    | pushVal | pushUnlock | takeEmpty | takeWait | takeUnlock =>
      rw [hu] at h
      cases h
      exact hupdate _

/-- a thread that has ended stands outside the queue, or in `take` with the mutex -/
def Stopped (s : Cancelling T τ) : Prop := ∀ t, s.ended t = true → s.pc t = .idle ∨ (s.pc t).inside = true

/-- the end of a thread: it stops, and no other thread moves -/
theorem ends_pc {s s' : State T τ} {t : τ} (h : s.ends t = some s') :
    (s'.pc t = .idle ∨ (s'.pc t).inside = true) ∧ ∀ u, u ≠ t → s'.pc u = s.pc u := by
  unfold State.ends at h
  split at h
  · rename_i ht
    cases h
    exact ⟨Or.inl ht, fun _ _ => rfl⟩
  · rename_i ht
    cases h
    exact ⟨Or.inr (by rw [ht]; rfl), fun _ _ => rfl⟩
  · obtain ⟨θ, hl, rfl⟩ := Option.map_eq_some_iff.mp h
    obtain ⟨-, rfl⟩ := Threads.lock_some hl
    exact ⟨Or.inr (by simp [Pc.inside]), fun u hu => Function.update_of_ne hu _ _⟩
  · obtain ⟨θ, hl, rfl⟩ := Option.map_eq_some_iff.mp h
    obtain ⟨-, rfl⟩ := Threads.lock_some hl
    exact ⟨Or.inr (by simp [Pc.inside]), fun u hu => Function.update_of_ne hu _ _⟩
  · cases h

theorem Stopped.step {op : CancelOp T τ} (hs : Stopped s) (h : cancelStep s op = some s') : Stopped s' := by
  cases op with
  | queue op =>
    simp only [cancelStep] at h
    split_ifs at h with hended
    obtain ⟨q, hq, rfl⟩ := Option.map_eq_some_iff.mp h
    intro t ht
    have hne : t ≠ op.thread := by
      rintro rfl
      exact hended ht
    have hawake : s.pc t ≠ .blocked := by
      intro hblocked
      rcases hs t ht with hidle | hinside
      · cases hblocked.symm.trans hidle
      · rw [hblocked] at hinside
        cases hinside
    rw [step_pc hq hne hawake]
    exact hs t ht
  | cancel t =>
    cases h
    exact hs
  | ends t =>
    simp only [cancelStep] at h
    split_ifs at h
    obtain ⟨q, hq, rfl⟩ := Option.map_eq_some_iff.mp h
    obtain ⟨hown, hothers⟩ := ends_pc hq
    intro u hu
    by_cases hut : u = t
    · rw [hut]
      exact hown
    · have hbefore : s.ended u = true := by simpa [Function.update_of_ne hut] using hu
      dsimp only
      rw [hothers u hut]
      exact hs u hbefore

/-- a thread has ended with the mutex, and this is all there is in the queue -/
structure Held (t : τ) (q pushed taken : List T) (s : Cancelling T τ) : Prop where
  ended : s.ended t = true
  mutex : s.mutex = some t
  q : s.q = q
  pushed : s.pushed = pushed
  taken : s.taken = taken

/-- while a thread outside `op` has the mutex, an operation changes nothing but where its own thread stands -/
theorem step_frozen {s s' : State T τ} {op : Op T τ} {t : τ} (hinv : Inv s) (hm : s.mutex = some t)
    (hne : op.thread ≠ t) (h : step s op = some s') :
    s'.mutex = some t ∧ s'.q = s.q ∧ s'.pushed = s.pushed ∧ s'.taken = s.taken := by
  cases op with
  | push u val | take u | wake u =>
    simp only [step] at h
    split at h
    · cases h
      exact ⟨hm, rfl, rfl, rfl⟩
    · cases h
  | next u =>
    have hout : (s.pc u).inside = false := hinv.holds.others ((hinv.holds t).mpr hm) hne
    simp only [step, next] at h
    cases hu : s.pc u <;> rw [hu] at h hout <;> first | (cases hout; done) | simp [Threads.lock, hm] at h

variable {t : τ} {q pushed taken : List T}

/-- **A thread that has ended with the mutex keeps it.** -/
theorem Held.step {op : CancelOp T τ} (hinv : Inv s.toState) (hheld : Held t q pushed taken s)
    (h : cancelStep s op = some s') : Held t q pushed taken s' := by
  cases op with
  | queue op =>
    simp only [cancelStep] at h
    split_ifs at h with hended
    obtain ⟨r, hr, rfl⟩ := Option.map_eq_some_iff.mp h
    have hne : op.thread ≠ t := by
      rintro rfl
      exact hended hheld.ended
    obtain ⟨hmutex, hq, hpushed, htaken⟩ := step_frozen hinv hheld.mutex hne hr
    exact ⟨hheld.ended, hmutex, hq.trans hheld.q, hpushed.trans hheld.pushed, htaken.trans hheld.taken⟩
  | cancel u =>
    cases h
    exact ⟨hheld.ended, hheld.mutex, hheld.q, hheld.pushed, hheld.taken⟩
  | ends u =>
    simp only [cancelStep] at h
    split_ifs at h with hasked
    obtain ⟨r, hr, rfl⟩ := Option.map_eq_some_iff.mp h
    have hne : t ≠ u := by
      rintro rfl
      simp [hheld.ended] at hasked
    have hr' : r = s.toState := by
      unfold State.ends at hr
      split at hr
      · exact (Option.some.inj hr).symm
      · exact (Option.some.inj hr).symm
      · simp [Threads.lock, hheld.mutex] at hr
      · simp [Threads.lock, hheld.mutex] at hr
      · cases hr
    subst hr'
    refine ⟨?_, hheld.mutex, hheld.q, hheld.pushed, hheld.taken⟩
    exact (Function.update_of_ne hne _ _).trans hheld.ended

/-! ## Main result -/

theorem run_stopped {ops : List (CancelOp T τ)} (h : Run.exec cancelStep Cancelling.init ops = some s) : Stopped s :=
  Run.exec_inv (fun _ _ _ hs => hs.step) (fun _ ht => by cases ht) h

omit [DecidableEq τ] in
/-- a thread that has ended inside `take` has the mutex -/
theorem ended_mutex (hinv : Inv s.toState) (hstopped : Stopped s) (ht : s.ended t = true) :
    s.pc t = .idle ∨ s.mutex = some t :=
  (hstopped t ht).imp_right (hinv.holds t).mp

/-- **Cancelling threads of the queue.** In every run in which any threads are cancelled at any time: the values taken are a
prefix of those pushed and the queue is the rest, and no thread crashes. A thread that has ended is outside the queue or
has the mutex. If it has the mutex, then in every continuation it keeps it, nothing is pushed or taken any more, and every
other thread that ends is outside the queue: of all threads that are cancelled while they wait in `take`, one at most ever
ends. -/
theorem cancel_run {ops : List (CancelOp T τ)} (h : Run.exec cancelStep Cancelling.init ops = some s) :
    (s.pushed = s.taken ++ s.q ∧ ∀ t, s.pc t ≠ .crashed) ∧
    (∀ t, s.ended t = true → s.pc t = .idle ∨ s.mutex = some t) ∧
    ∀ t, s.ended t = true → s.mutex = some t → ∀ more s', Run.exec cancelStep s more = some s' →
      Held t s.q s.pushed s.taken s' ∧ ∀ u, u ≠ t → s'.ended u = true → s'.pc u = .idle := by
  have hinv := run_queue_inv h
  refine ⟨⟨hinv.fifo, fun t ht => ?_⟩, fun t ht => ended_mutex hinv (run_stopped h) ht, ?_⟩
  · have hfact := hinv.facts t
    rw [ht] at hfact
    exact hfact
  · intro t ht hm more s' hmore
    have hall : Run.exec cancelStep Cancelling.init (ops ++ more) = some s' := by
      rw [Run.exec_append h, hmore]
    obtain ⟨-, hheld⟩ : Inv s'.toState ∧ Held t s.q s.pushed s.taken s' :=
      Run.exec_inv (I := fun s' => Inv s'.toState ∧ Held t s.q s.pushed s.taken s')
        (fun _ _ _ hs hstep => by
          obtain ⟨queueOps, hqueue⟩ := simulates hstep
          exact ⟨Run.exec_inv (fun _ _ _ hi => hi.step) hs.1 hqueue, hs.2.step hs.1 hstep⟩)
        ⟨hinv, ⟨ht, hm, rfl, rfl, rfl⟩⟩ hmore
    refine ⟨hheld, fun u hu hended => ?_⟩
    rcases ended_mutex (run_queue_inv hall) (run_stopped hall) hended with hidle | hmutex
    · exact hidle
    · exact absurd (Option.some.inj (hmutex.symm.trans hheld.mutex)) hu

/-- two consumers sleep and are cancelled; the first one ends -/
def cancelOps : List (CancelOp ℕ Bool) :=
  ([.take true, .next true, .next true, .next true, .take false, .next false, .next false, .next false].map .queue) ++
    [.cancel true, .cancel false, .ends true]

def cancelRun : Option (Cancelling ℕ Bool) := Run.exec cancelStep Cancelling.init cancelOps

theorem cancelRun_isSome : cancelRun.isSome = true := by decide +kernel

/-- the second one is woken, and cannot go on -/
def stuckRun : Option (Cancelling ℕ Bool) :=
  Run.exec cancelStep (cancelRun.get cancelRun_isSome) [.queue (.wake false)]

theorem stuckRun_isSome : stuckRun.isSome = true := by decide +kernel

theorem cancel_run_stuckRun : Held true [] [] [] (stuckRun.get stuckRun_isSome) :=
  ((cancel_run (Option.some_get cancelRun_isSome).symm).2.2 true (by decide +kernel) (by decide +kernel) _ _
    (Option.some_get stuckRun_isSome).symm).1

end WebServer.BlockQueue
