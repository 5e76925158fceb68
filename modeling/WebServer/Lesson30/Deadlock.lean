/-
Threads that need two mutexes (lesson30/deadlock1.c and its version in lesson30/example): `workA` locks `mutex1` and then
`mutex2`, `workB` locks them the other way round.

Each call on a mutex and each line printed is one step; the steps of any number of threads of both kinds interleave
arbitrarily. The source creates one thread of each kind. The time of `sleep` between the two locks is left out: it only
makes one of the interleavings likely.

- `Crossed`: a thread of each kind has its first mutex and waits for its second.
- `Crossed.step`: this never ends.
- `advance`: as long as it has not come to this, some thread can take a step after which it has still not.
- `deadlock_iff`: so the threads can still come to their end if and only if they have not crossed.
-/
import WebServer.Core.Run

namespace WebServer.Lesson30.Deadlock

variable {τ : Type*}

/-! ## Model -/

inductive Mutex where
  | mutex1
  | mutex2
deriving DecidableEq, Repr

/-- the two thread functions -/
inductive Work where
  | workA
  | workB
deriving DecidableEq, Repr

def Work.first : Work → Mutex
  | .workA => .mutex1
  | .workB => .mutex2

def Work.second : Work → Mutex
  | .workA => .mutex2
  | .workB => .mutex1

/-- the statement a thread executes next -/
inductive Pc where
  | lockFirst
  | lockSecond
  | print
  | unlockSecond
  | unlockFirst
  | done
deriving DecidableEq, Repr

structure State (τ : Type*) where
  owner : Mutex → Option τ
  pc : τ → Pc

def State.init : State τ := ⟨fun _ => none, fun _ => .lockFirst⟩

variable [DecidableEq τ]

/-- not enabled while a thread has the mutex -/
def State.lock (s : State τ) (t : τ) (m : Mutex) (p : Pc) : Option (State τ) :=
  match s.owner m with
  | none => some ⟨Function.update s.owner m (some t), Function.update s.pc t p⟩
  | some _ => none

def State.unlock (s : State τ) (t : τ) (m : Mutex) (p : Pc) : State τ :=
  ⟨Function.update s.owner m none, Function.update s.pc t p⟩

/-- the next statement of a thread -/
def step (work : τ → Work) (s : State τ) (t : τ) : Option (State τ) :=
  match s.pc t with
  | .lockFirst => s.lock t (work t).first .lockSecond
  | .lockSecond => s.lock t (work t).second .print
  | .print => some { s with pc := Function.update s.pc t .unlockSecond }
  | .unlockSecond => some (s.unlock t (work t).second .unlockFirst)
  | .unlockFirst => some (s.unlock t (work t).first .done)
  | .done => none

/-! ## Who has which mutex -/

theorem Work.cases_mutex (w : Work) (m : Mutex) : m = w.first ∨ m = w.second := by
  cases w <;> cases m <;> decide

theorem Work.second_ne_first (w : Work) : w.second ≠ w.first := by
  cases w <;> decide

/-- the mutexes that a thread has locked and not unlocked yet -/
def holds (w : Work) : Pc → Mutex → Bool
  | .lockSecond, m | .unlockFirst, m => m == w.first
  | .print, _ | .unlockSecond, _ => true
  | .lockFirst, _ | .done, _ => false

def Inv (work : τ → Work) (s : State τ) : Prop :=
  ∀ t m, holds (work t) (s.pc t) m = true ↔ s.owner m = some t

variable {work : τ → Work} {s s' : State τ} {t u : τ} {m : Mutex} {p : Pc}

omit [DecidableEq τ] in
theorem inv_init (work : τ → Work) : Inv work (State.init : State τ) := by
  intro t m
  simp [State.init, holds]

theorem lock_some (h : s.lock t m p = some s') :
    s.owner m = none ∧ s' = ⟨Function.update s.owner m (some t), Function.update s.pc t p⟩ := by
  unfold State.lock at h
  split at h
  · rename_i hfree
    exact ⟨hfree, (Option.some.inj h).symm⟩
  · cases h

/-- a thread moves on; the mutexes of all others stay with them -/
theorem Inv.update {owner : Mutex → Option τ} (h : Inv work s) (ht : ∀ m, holds (work t) p m = true ↔ owner m = some t)
    (hothers : ∀ u m, u ≠ t → (owner m = some u ↔ s.owner m = some u)) :
    Inv work ⟨owner, Function.update s.pc t p⟩ := by
  intro u m
  dsimp only
  by_cases hu : u = t
  · subst hu
    rw [Function.update_self]
    exact ht m
  · rw [Function.update_of_ne hu, hothers u m hu]
    exact h u m

theorem Inv.lock (h : Inv work s) (hm : holds (work t) p m = true)
    (hkeeps : ∀ m', m' ≠ m → holds (work t) p m' = holds (work t) (s.pc t) m') (hl : s.lock t m p = some s') :
    Inv work s' := by
  obtain ⟨hfree, rfl⟩ := lock_some hl
  refine h.update (fun m' => ?_) (fun u m' hu => ?_)
  · by_cases hm' : m' = m
    · simp [hm', hm]
    · rw [Function.update_of_ne hm', hkeeps m' hm']
      exact h t m'
  · by_cases hm' : m' = m
    · simp [hm', hfree, hu.symm]
    · rw [Function.update_of_ne hm']

theorem Inv.unlock (h : Inv work s) (hhas : holds (work t) (s.pc t) m = true) (hm : holds (work t) p m = false)
    (hkeeps : ∀ m', m' ≠ m → holds (work t) p m' = holds (work t) (s.pc t) m') : Inv work (s.unlock t m p) := by
  have howner : s.owner m = some t := (h t m).mp hhas
  refine h.update (fun m' => ?_) (fun u m' hu => ?_)
  · by_cases hm' : m' = m
    · simp [hm', hm]
    · rw [Function.update_of_ne hm', hkeeps m' hm']
      exact h t m'
  · by_cases hm' : m' = m
    · simp [hm', howner, hu.symm]
    · rw [Function.update_of_ne hm']

/-- **Every step keeps the invariant.** -/
theorem Inv.step (h : Inv work s) (hs : Deadlock.step work s t = some s') : Inv work s' := by
  have hother := fun m' (hm' : m' ≠ (work t).second) => ((work t).cases_mutex m').resolve_right hm'
  unfold Deadlock.step at hs
  cases ht : s.pc t with
  | lockFirst =>
    rw [ht] at hs
    refine h.lock (by simp [holds]) (fun m' hm' => ?_) hs
    simp [holds, ht, hm']
  | lockSecond =>
    rw [ht] at hs
    refine h.lock rfl (fun m' hm' => ?_) hs
    simp [holds, ht, hother m' hm']
  | print =>
    rw [ht] at hs
    cases hs
    refine h.update (fun m' => ?_) (fun u m' _ => Iff.rfl)
    rw [← h t m', ht]
    rfl
  | unlockSecond =>
    rw [ht] at hs
    cases hs
    refine h.unlock (by rw [ht]; rfl) (by simp [holds, (work t).second_ne_first]) (fun m' hm' => ?_)
    simp [holds, ht, hother m' hm']
  | unlockFirst =>
    rw [ht] at hs
    cases hs
    refine h.unlock (by simp [holds, ht]) rfl (fun m' hm' => ?_)
    simp [holds, ht, hm']
  | done =>
    rw [ht] at hs
    cases hs

theorem run_inv {ops : List τ} (h : Run.exec (Deadlock.step work) State.init ops = some s) : Inv work s :=
  Run.exec_inv (fun _ _ _ hs => hs.step) (inv_init work) h

/-! ## The threads cross -/

/-- a thread of each kind has its first mutex and waits for its second -/
def Crossed (work : τ → Work) (s : State τ) : Prop :=
  ∃ a b, work a = .workA ∧ work b = .workB ∧ s.pc a = .lockSecond ∧ s.pc b = .lockSecond

/-- a thread that waits for the mutex of another one takes no step -/
theorem Inv.blocked (h : Inv work s) (ht : s.pc t = .lockSecond) (hu : s.pc u = .lockSecond)
    (hm : (work t).second = (work u).first) : Deadlock.step work s t = none := by
  have howner : s.owner (work t).second = some u := (h u _).mp (by simp [holds, hu, hm])
  simp [Deadlock.step, ht, State.lock, howner]

/-- the statements a thread still has to execute -/
def Pc.rest : Pc → ℕ
  | .lockFirst => 5
  | .lockSecond => 4
  | .print => 3
  | .unlockSecond => 2
  | .unlockFirst => 1
  | .done => 0

/-- a step takes one thread on by one statement -/
theorem pc_step (hs : Deadlock.step work s t = some s') :
    ∃ p, s'.pc = Function.update s.pc t p ∧ p.rest + 1 = (s.pc t).rest := by
  unfold Deadlock.step at hs
  cases ht : s.pc t with
  | lockFirst | lockSecond =>
    rw [ht] at hs
    exact ⟨_, by rw [(lock_some hs).2], rfl⟩
  | print | unlockSecond | unlockFirst =>
    rw [ht] at hs
    cases hs
    exact ⟨_, rfl, rfl⟩
  | done =>
    rw [ht] at hs
    cases hs

/-- **Threads that have crossed stay so.** -/
theorem Crossed.step (hinv : Inv work s) (h : Crossed work s) (hs : Deadlock.step work s t = some s') :
    Crossed work s' := by
  obtain ⟨a, b, hwa, hwb, ha, hb⟩ := h
  have hta : a ≠ t := by
    rintro rfl
    rw [hinv.blocked ha hb (by rw [hwa, hwb]; rfl)] at hs
    cases hs
  have htb : b ≠ t := by
    rintro rfl
    rw [hinv.blocked hb ha (by rw [hwa, hwb]; rfl)] at hs
    cases hs
  obtain ⟨p, hp, -⟩ := pc_step hs
  refine ⟨a, b, hwa, hwb, ?_, ?_⟩
  · rw [hp, Function.update_of_ne hta, ha]
  · rw [hp, Function.update_of_ne htb, hb]

omit [DecidableEq τ] in
theorem crossed_of_waits (ht : s.pc t = .lockSecond) (hu : s.pc u = .lockSecond)
    (hm : (work t).second = (work u).first) : Crossed work s := by
  cases hwt : work t <;> cases hwu : work u <;> rw [hwt, hwu] at hm
  · cases hm
  · exact ⟨t, u, hwt, hwu, ht, hu⟩
  · exact ⟨u, t, hwu, hwt, hu, ht⟩
  · cases hm

/-- a thread that goes on, but not to its second lock, crosses nobody -/
theorem not_crossed_update {owner : Mutex → Option τ} (h : ¬ Crossed work s) (hp : p ≠ .lockSecond) :
    ¬ Crossed work ⟨owner, Function.update s.pc t p⟩ := by
  rintro ⟨a, b, hwa, hwb, ha, hb⟩
  have hpc : ∀ u, Function.update s.pc t p u = .lockSecond → s.pc u = .lockSecond := by
    intro u hu
    by_cases hut : u = t
    · rw [hut, Function.update_self] at hu
      exact absurd hu hp
    · rwa [Function.update_of_ne hut] at hu
  exact h ⟨a, b, hwa, hwb, hpc a ha, hpc b hb⟩

/-! ## Who can go on -/

/-- who stands between its second lock and its end goes on -/
theorem advance_inside (h : ¬ Crossed work s) (ht : s.pc t = .print ∨ s.pc t = .unlockSecond ∨ s.pc t = .unlockFirst) :
    ∃ s', Deadlock.step work s t = some s' ∧ ¬ Crossed work s' := by
  unfold Deadlock.step
  rcases ht with ht | ht | ht <;> rw [ht]
  · exact ⟨_, rfl, not_crossed_update h nofun⟩
  · exact ⟨_, rfl, not_crossed_update h nofun⟩
  · exact ⟨_, rfl, not_crossed_update h nofun⟩

omit [DecidableEq τ] in
/-- while nobody is inside, who has a mutex waits for its second one -/
theorem Inv.owner_waits (h : Inv work s)
    (hinside : ∀ t, ¬ (s.pc t = .print ∨ s.pc t = .unlockSecond ∨ s.pc t = .unlockFirst)) (hm : s.owner m = some u) :
    s.pc u = .lockSecond ∧ m = (work u).first := by
  have hhas := (h u m).mpr hm
  have hnot := hinside u
  cases hu : s.pc u <;> simp_all [holds]

/-- **As long as the threads have not crossed and not all are done, one of them can take a step after which they have
still not crossed.** -/
theorem advance (hinv : Inv work s) (h : ¬ Crossed work s) (hdone : ∃ t, s.pc t ≠ .done) :
    ∃ t s', Deadlock.step work s t = some s' ∧ ¬ Crossed work s' := by
  by_cases hinside : ∃ t, s.pc t = .print ∨ s.pc t = .unlockSecond ∨ s.pc t = .unlockFirst
  · obtain ⟨t, ht⟩ := hinside
    exact ⟨t, advance_inside h ht⟩
  have howner := fun {m u} (hm : s.owner m = some u) => hinv.owner_waits (not_exists.mp hinside) hm
  by_cases hsecond : ∃ t, s.pc t = .lockSecond
  · -- the second mutex of `t` is free, because its owner would wait for the mutex of `t`
    obtain ⟨t, ht⟩ := hsecond
    have hfree : s.owner (work t).second = none := by
      cases hm : s.owner (work t).second with
      | none => rfl
      | some u => exact absurd (crossed_of_waits ht (howner hm).1 (howner hm).2) h
    have hstep : Deadlock.step work s t =
        some ⟨Function.update s.owner (work t).second (some t), Function.update s.pc t .print⟩ := by
      simp only [Deadlock.step, ht, State.lock, hfree]
    exact ⟨t, _, hstep, not_crossed_update h nofun⟩
  · -- nobody has a mutex, and whoever takes one is the only one
    obtain ⟨t, ht⟩ := hdone
    have hfirst : s.pc t = .lockFirst := by
      have h1 := not_exists.mp hinside t
      have h2 := not_exists.mp hsecond t
      cases hpc : s.pc t <;> simp_all
    have hfree : s.owner (work t).first = none := by
      cases hm : s.owner (work t).first with
      | none => rfl
      | some u => exact absurd ⟨u, (howner hm).1⟩ hsecond
    have hstep : Deadlock.step work s t =
        some ⟨Function.update s.owner (work t).first (some t), Function.update s.pc t .lockSecond⟩ := by
      simp only [Deadlock.step, hfirst, State.lock, hfree]
    refine ⟨t, _, hstep, ?_⟩
    rintro ⟨a, b, hwa, hwb, ha, hb⟩
    have honly : ∀ u, Function.update s.pc t .lockSecond u = .lockSecond → u = t := by
      intro u hu
      by_contra hne
      rw [Function.update_of_ne hne] at hu
      exact hsecond ⟨u, hu⟩
    rw [honly a ha] at hwa
    rw [honly b hb, hwa] at hwb
    cases hwb

/-! ## Main result -/

/-- a thread executes each of its statements at most once -/
theorem count_le {ops : List τ} (h : Run.exec (Deadlock.step work) State.init ops = some s) (t : τ) : ops.count t ≤ 5 := by
  have hstep : ∀ s u s', True → Deadlock.step work s u = some s' →
      True ∧ (s'.pc t).rest + (if u = t then 1 else 0) ≤ (s.pc t).rest := by
    intro s u s' _ hs
    obtain ⟨p, hp, hrest⟩ := pc_step hs
    refine ⟨trivial, ?_⟩
    rw [hp]
    by_cases hut : u = t
    · subst hut
      rw [Function.update_self, if_pos rfl, hrest]
    · rw [Function.update_of_ne (Ne.symm hut), if_neg hut, Nat.add_zero]
  exact (Nat.le_add_right _ _).trans (Run.exec_count_le hstep trivial h)

variable [Fintype τ]

def State.rest (s : State τ) : ℕ := ∑ t, (s.pc t).rest

theorem rest_step (hs : Deadlock.step work s t = some s') : s'.rest + 1 = s.rest := by
  obtain ⟨p, hp, hrest⟩ := pc_step hs
  have hsum := Run.sum_update s.pc t p Pc.rest
  unfold State.rest
  rw [hp]
  omega

/-- threads that have not crossed can come to their end; by induction on the statements still to be executed -/
theorem can_finish (hinv : Inv work s) (h : ¬ Crossed work s) :
    ∃ more s', Run.exec (Deadlock.step work) s more = some s' ∧ ∀ t, s'.pc t = .done := by
  induction hn : s.rest generalizing s with
  | zero =>
    refine ⟨[], s, rfl, fun t => ?_⟩
    have hzero : (s.pc t).rest = 0 := (Finset.sum_eq_zero_iff.mp hn) t (Finset.mem_univ t)
    cases hpc : s.pc t <;> rw [hpc] at hzero <;> first | rfl | cases hzero
  | succ n ih =>
    have hbusy : ∃ t, s.pc t ≠ .done := by
      by_contra hall
      have hrest : s.rest = 0 := Finset.sum_eq_zero fun t _ => by
        rw [not_not.mp (not_exists.mp hall t)]
        rfl
      omega
    obtain ⟨t, s₁, hstep, h₁⟩ := advance hinv h hbusy
    have hless := rest_step hstep
    obtain ⟨more, s₂, hrun, hdone⟩ := ih (hinv.step hstep) h₁ (by omega)
    exact ⟨t :: more, s₂, by simp only [Run.exec, hstep, hrun], hdone⟩

/-- **When the threads with two mutexes come to their end.** For any number of threads of both kinds and every
interleaving: each thread takes at most five steps; the threads can still all come to their end if and only if no two of
them have crossed; and when none of them can take a step, all are done or two have crossed. In particular threads that
lock in the same order always come to their end. -/
theorem deadlock_iff {ops : List τ} (h : Run.exec (Deadlock.step work) State.init ops = some s) :
    (∀ t, ops.count t ≤ 5) ∧
    ((∃ more s', Run.exec (Deadlock.step work) s more = some s' ∧ ∀ t, s'.pc t = .done) ↔ ¬ Crossed work s) ∧
    ((∀ t, Deadlock.step work s t = none) → (∀ t, s.pc t = .done) ∨ Crossed work s) := by
  have hinv := run_inv h
  refine ⟨count_le h, ⟨?_, can_finish hinv⟩, fun hstuck => ?_⟩
  · rintro ⟨more, s', hrun, hdone⟩ hcrossed
    obtain ⟨-, a, b, -, -, ha, -⟩ := Run.exec_inv (I := fun s => Inv work s ∧ Crossed work s)
      (fun _ _ _ hs hstep => ⟨hs.1.step hstep, hs.2.step hs.1 hstep⟩) ⟨hinv, hcrossed⟩ hrun
    cases ha.symm.trans (hdone a)
  · by_contra hnot
    rw [not_or] at hnot
    obtain ⟨more, s', hrun, hdone⟩ := can_finish hinv hnot.2
    cases more with
    | nil =>
      cases hrun
      exact hnot.1 hdone
    | cons t more =>
      obtain ⟨s₁, hstep, -⟩ := Run.exec_cons hrun
      rw [hstuck t] at hstep
      cases hstep

/-- the two threads of the source -/
def twoWorks : Bool → Work
  | true => .workA
  | false => .workB

/-- both have locked their first mutex -/
def crossRun : Option (State Bool) := Run.exec (Deadlock.step twoWorks) State.init [true, false]

theorem crossRun_isSome : crossRun.isSome = true := by decide +kernel

theorem deadlock_iff_crossRun : ¬ ∃ more s',
    Run.exec (Deadlock.step twoWorks) (crossRun.get crossRun_isSome) more = some s' ∧ ∀ t, s'.pc t = .done := by
  have hcrossed : Crossed twoWorks (crossRun.get crossRun_isSome) :=
    ⟨true, false, rfl, rfl, by decide +kernel, by decide +kernel⟩
  exact fun hfinish => (deadlock_iff (Option.some_get crossRun_isSome).symm).2.1.mp hfinish hcrossed

end WebServer.Lesson30.Deadlock
