/-
Threads that share data behind a mutex, with a condition variable. A thread is given by the statement it executes next,
`pc t`; a program says which of its statements stand inside the critical section.

- `Holds`: the mutex is held by the one thread that is inside its critical section. One lemma for each way a thread
  moves: `goto` (stays inside or outside), `lock`, `unlock`, and `wake` for a notification.
- `Holds.someone`: threads that block only at the mutex never block all at once.
- `Holds.write`: what a statement inside the critical section presumes about the shared data is still true when its
  thread executes it, because no other thread is inside when the data changes.
- `Cond.wake`: a notification moves sleeping threads to the statement that takes the mutex again.
- `Cond.Served`: beside waiting work some thread that serves it is awake, or a notification is about to come. `update`
  for a thread that moves on awake, `wake` for the notification.
-/
import Mathlib.Tactic

namespace WebServer.Monitor

variable {τ π δ : Type*}

structure Threads (τ π : Type*) where
  mutex : Option τ
  pc : τ → π

namespace Threads

variable [DecidableEq τ]

def goto (θ : Threads τ π) (t : τ) (p : π) : Threads τ π := { θ with pc := Function.update θ.pc t p }

/-- take the mutex and go on at `p`; not enabled while another thread has it -/
def lock (θ : Threads τ π) (t : τ) (p : π) : Option (Threads τ π) :=
  match θ.mutex with
  | none => some ⟨some t, Function.update θ.pc t p⟩
  | some _ => none

def unlock (θ : Threads τ π) (t : τ) (p : π) : Threads τ π := ⟨none, Function.update θ.pc t p⟩

theorem lock_some {θ θ' : Threads τ π} {t : τ} {p : π} (h : θ.lock t p = some θ') :
    θ.mutex = none ∧ θ' = ⟨some t, Function.update θ.pc t p⟩ := by
  unfold lock at h
  split at h
  · rename_i hm
    exact ⟨hm, (Option.some.inj h).symm⟩
  · cases h

end Threads

/-! ## The mutex -/

/-- the mutex is held by the one thread inside its critical section, if there is one -/
def Holds (inside : π → Bool) (θ : Threads τ π) : Prop :=
  ∀ t, inside (θ.pc t) = true ↔ θ.mutex = some t

section Mutex

variable {inside : π → Bool} {θ θ' : Threads τ π} {t u : τ} {p : π}

theorem holds_start {pc : τ → π} (h : ∀ t, inside (pc t) = false) : Holds inside ⟨none, pc⟩ := by
  intro t
  simp [h t]

theorem Holds.unique (h : Holds inside θ) (ht : inside (θ.pc t) = true) (hu : inside (θ.pc u) = true) : t = u :=
  Option.some.inj (((h t).mp ht).symm.trans ((h u).mp hu))

theorem Holds.outside (h : Holds inside θ) (hm : θ.mutex = none) (t : τ) : inside (θ.pc t) = false := by
  rw [Bool.eq_false_iff]
  intro ht
  cases hm.symm.trans ((h t).mp ht)

theorem Holds.others (h : Holds inside θ) (ht : inside (θ.pc t) = true) (hne : u ≠ t) :
    inside (θ.pc u) = false := by
  rw [Bool.eq_false_iff]
  intro hu
  exact hne (h.unique hu ht)

/-- no deadlock: if nothing blocks inside the critical section, and nobody blocks while the mutex is free, then somebody
can go on -/
theorem Holds.someone [Nonempty τ] {can : τ → Prop} (h : Holds inside θ) (hin : ∀ t, inside (θ.pc t) = true → can t)
    (hfree : θ.mutex = none → ∀ t, can t) : ∃ t, can t := by
  cases hm : θ.mutex with
  | none => exact ⟨Classical.arbitrary τ, hfree hm _⟩
  | some t => exact ⟨t, hin t ((h t).mpr hm)⟩

variable [DecidableEq τ]

/-- what is true of all threads, when one of them moves -/
theorem forall_update {pc : τ → π} {P : π → Prop} (h : ∀ u, P (pc u)) (hp : P p) (u : τ) :
    P (Function.update pc t p u) :=
  (Function.forall_update_iff pc fun _ q => P q).mpr ⟨hp, fun u _ => h u⟩ u

/-- a thread goes on with a statement of its own program -/
theorem roles_update {ρ : Type*} {role : π → ρ} {roles : τ → ρ} {pc : τ → π} (h : ∀ u, role (pc u) = roles u)
    (hp : role p = role (pc t)) (u : τ) : role (Function.update pc t p u) = roles u :=
  (Function.forall_update_iff pc fun u q => role q = roles u).mpr ⟨hp.trans (h t), fun u _ => h u⟩ u

theorem Holds.goto (h : Holds inside θ) (hp : inside p = inside (θ.pc t)) : Holds inside (θ.goto t p) :=
  (Function.forall_update_iff θ.pc fun u q => inside q = true ↔ θ.mutex = some u).mpr ⟨hp ▸ h t, fun u _ => h u⟩

theorem Holds.lock (h : Holds inside θ) (hp : inside p = true) (hl : θ.lock t p = some θ') : Holds inside θ' := by
  obtain ⟨hm, rfl⟩ := Threads.lock_some hl
  apply (Function.forall_update_iff θ.pc fun u q => inside q = true ↔ some t = some u).mpr
  refine ⟨by simp [hp], fun u hu => ?_⟩
  simp [h.outside hm u, hu.symm]

theorem Holds.unlock (h : Holds inside θ) (ht : inside (θ.pc t) = true) (hp : inside p = false) :
    Holds inside (θ.unlock t p) := by
  apply (Function.forall_update_iff θ.pc fun u q => inside q = true ↔ (none : Option τ) = some u).mpr
  refine ⟨by simp [hp], fun u hu => ?_⟩
  simp [h.others ht hu]

/-- **A thread inside its critical section changes the shared data.** Facts that concern only the threads inside are
kept, because there is no other thread inside. -/
theorem Holds.write {Fact : δ → π → Prop} {d d' : δ} (h : Holds inside θ)
    (hout : ∀ p, inside p = false → Fact d p → Fact d' p) (hf : ∀ u, Fact d (θ.pc u)) (ht : inside (θ.pc t) = true)
    (hp : Fact d' p) (u : τ) : Fact d' (Function.update θ.pc t p u) := by
  apply (Function.forall_update_iff θ.pc fun _ q => Fact d' q).mpr
  exact ⟨hp, fun u hu => hout _ (h.others ht hu) (hf u)⟩

end Mutex

/-! ## The condition variable -/

/-- where the statements of a program stand with respect to the mutex and the condition variable -/
structure Cond (π : Type*) where
  inside : π → Bool
  /-- asleep, not notified -/
  blocked : π → Bool
  /-- about to notify -/
  notifies : π → Bool
  /-- the statement at which a notified thread goes on -/
  woken : π
  blocked_outside : ∀ p, blocked p = true → inside p = false
  woken_outside : inside woken = false
  woken_awake : blocked woken = false

variable (C : Cond π) {θ : Threads τ π} {W : τ → Bool} {t : τ}

/-- the threads of `W` that sleep on the condition variable are woken -/
def Cond.wake (W : τ → Bool) (θ : Threads τ π) : Threads τ π :=
  { θ with pc := fun t => if W t && C.blocked (θ.pc t) then C.woken else θ.pc t }

/-- a woken thread is at `woken`, any other where it was -/
theorem Cond.wake_cases (W : τ → Bool) (θ : Threads τ π) (t : τ) :
    ((C.wake W θ).pc t = C.woken ∧ W t = true ∧ C.blocked (θ.pc t) = true) ∨ (C.wake W θ).pc t = θ.pc t := by
  unfold Cond.wake
  dsimp only
  split_ifs with h
  · exact Or.inl ⟨rfl, Bool.and_eq_true_iff.mp h⟩
  · exact Or.inr rfl

/-- who sleeps after a thread has moved on awake slept before -/
theorem Cond.blocked_update [DecidableEq τ] {pc : τ → π} {p : π} {u : τ} (hp : C.blocked p = false)
    (hu : C.blocked (Function.update pc t p u) = true) : u ≠ t ∧ C.blocked (pc u) = true := by
  have hne : u ≠ t := by
    rintro rfl
    rw [Function.update_self, hp] at hu
    cases hu
  rw [Function.update_of_ne hne] at hu
  exact ⟨hne, hu⟩

/-- who is still asleep was asleep and has not been notified -/
theorem Cond.blocked_wake (h : C.blocked ((C.wake W θ).pc t) = true) : C.blocked (θ.pc t) = true ∧ W t = false := by
  unfold Cond.wake at h
  dsimp only at h
  split_ifs at h with hw
  · cases C.woken_awake.symm.trans h
  · exact ⟨h, by simpa [h] using hw⟩

theorem Cond.inside_wake (W : τ → Bool) (θ : Threads τ π) (t : τ) :
    C.inside ((C.wake W θ).pc t) = C.inside (θ.pc t) := by
  rcases C.wake_cases W θ t with ⟨h, -, hb⟩ | h
  · rw [h, C.woken_outside, C.blocked_outside _ hb]
  · rw [h]

theorem Holds.wake (h : Holds C.inside θ) (W : τ → Bool) : Holds C.inside (C.wake W θ) := by
  intro t
  rw [C.inside_wake]
  exact h t

theorem Cond.forall_wake {P : π → Prop} (h : ∀ u, P (θ.pc u)) (hw : P C.woken) (u : τ) : P ((C.wake W θ).pc u) := by
  rcases C.wake_cases W θ u with ⟨h', -⟩ | h'
  · exact h' ▸ hw
  · exact h' ▸ h u

/-- a sleeper wakes up in its own program -/
theorem Cond.roles_wake {ρ : Type*} {role : π → ρ} {roles : τ → ρ} (h : ∀ u, role (θ.pc u) = roles u)
    (hb : ∀ p, C.blocked p = true → role p = role C.woken) (u : τ) : role ((C.wake W θ).pc u) = roles u := by
  rcases C.wake_cases W θ u with ⟨hwoken, -, hu⟩ | hsame
  · rw [hwoken, ← hb _ hu]
    exact h u
  · rw [hsame]
    exact h u

/-! ## Work beside sleeping threads -/

/-- beside waiting work some thread that serves it is awake, or a notification is about to come -/
def Cond.Served (server : τ → Prop) (work : Prop) (pc : τ → π) : Prop :=
  work → (∃ t, server t ∧ C.blocked (pc t) = false) ∨ ∃ u, C.notifies (pc u) = true

variable {C} {server : τ → Prop} {work work' : Prop}

/-- a thread that is not about to notify moves on awake, and brings no work -/
theorem Cond.Served.update [DecidableEq τ] {pc : τ → π} {p : π} (h : C.Served server work pc)
    (ht : C.notifies (pc t) = false) (hp : C.blocked p = false) (hw : work' → work) :
    C.Served server work' (Function.update pc t p) := by
  intro hwork
  rcases h (hw hwork) with ⟨c, hserver, hc⟩ | ⟨u, hu⟩
  · left
    refine ⟨c, hserver, Bool.eq_false_iff.mpr fun hb => ?_⟩
    cases hc.symm.trans (C.blocked_update hp hb).2
  · right
    have hut : u ≠ t := by
      rintro rfl
      cases ht.symm.trans hu
    exact ⟨u, by rw [Function.update_of_ne hut]; exact hu⟩

theorem Cond.served_notifies [DecidableEq τ] {pc : τ → π} {p : π} (hp : C.notifies p = true) :
    C.Served server work (Function.update pc t p) :=
  fun _ => Or.inr ⟨t, by rw [Function.update_self]; exact hp⟩

/-- **A notification that wakes somebody, if anybody sleeps**, leaves a server awake. -/
theorem Cond.Served.wake [DecidableEq τ] {p : π} (hs : ∃ c, server c)
    (hserver : ∀ u, C.blocked (θ.pc u) = true → server u) (hp : C.blocked p = false)
    (hW : (∀ u, C.blocked (θ.pc u) = false) ∨ ∃ u, W u = true ∧ C.blocked (θ.pc u) = true) :
    C.Served server work (C.wake W (θ.goto t p)).pc := by
  intro _
  left
  obtain ⟨c, hc⟩ := hs
  by_cases hasleep : C.blocked ((C.wake W (θ.goto t p)).pc c) = true
  · -- `c` slept before, so the notification has woken another one
    have hslept : C.blocked (θ.pc c) = true := (C.blocked_update hp (C.blocked_wake hasleep).1).2
    rcases hW with hnobody | ⟨u, hWu, hu⟩
    · cases (hnobody c).symm.trans hslept
    · refine ⟨u, hserver u hu, Bool.eq_false_iff.mpr fun hb => ?_⟩
      cases (C.blocked_wake hb).2.symm.trans hWu
  · exact ⟨c, hc, Bool.eq_false_iff.mpr hasleep⟩

end WebServer.Monitor
