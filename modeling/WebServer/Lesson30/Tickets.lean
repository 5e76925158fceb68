/-
The programs that sell tickets in several threads under one mutex (lesson30/mutex.c, lesson30/deadlock.c and the versions
of both in lesson30/example).

The four programs share their loop. They differ in where the loop ends, at `while (tickets > 0)` or at a `break` inside
the critical section, and in whether the mutex is locked once or twice (`Variant`). Each access to shared data is one
step, and the steps of any number of threads interleave arbitrarily; `tickets--` is a load and a store. The mutex is a
normal one: a second `pthread_mutex_lock` of its owner blocks. `mutex.c` reads `tickets` outside the critical section,
which is modelled as an atomic read. The times of `usleep` are left out.

- `tickets_sold`: if the mutex is locked once, the tickets N, N - 1, …, 1 are sold in this order and each exactly once,
  in every interleaving; the threads come to an end, and when they do all tickets are sold.
- `deadlock_sells_nothing`: if it is locked twice, no ticket is ever sold; after at most two steps of each thread one
  thread waits for itself and all others wait for it.
-/
import WebServer.Core.Monitor
import WebServer.Core.Run

namespace WebServer.Lesson30.Tickets

open WebServer.Monitor

variable {τ : Type*}

/-! ## Model -/

/-- what distinguishes the programs -/
structure Variant where
  /-- `while (tickets > 0)`; otherwise `while (1)`, with a `break` where no ticket is left -/
  tests : Bool
  /-- the mutex is locked a second time -/
  twice : Bool
deriving DecidableEq, Repr

/-- lesson30/mutex.c -/
def mutexC : Variant := ⟨true, false⟩

/-- lesson30/deadlock.c, with one `unlock` for two locks -/
def deadlockC : Variant := ⟨true, true⟩

/-- lesson30/example/mutex.c -/
def exampleMutexC : Variant := ⟨false, false⟩

/-- lesson30/example/deadlock.c, with two unlocks after a sale and one before `break` -/
def exampleDeadlockC : Variant := ⟨false, true⟩

/-- the statement a thread executes next -/
inductive Pc where
  /-- the condition of `while` -/
  | loop
  | lock
  /-- the second `pthread_mutex_lock` -/
  | relock
  /-- `if (tickets > 0)` -/
  | check
  | load
  /-- prints `value` and stores `value - 1` -/
  | store (value : ℤ)
  /-- the first of two unlocks -/
  | unlockFirst
  /-- the last unlock, before the next round or the end of the loop -/
  | unlock (leaves : Bool)
  | ended
deriving DecidableEq, Repr

/-- between lock and unlock -/
def Pc.inside : Pc → Bool
  | .loop | .lock | .ended => false
  | _ => true

structure State (τ : Type*) extends Threads τ Pc where
  tickets : ℤ
  /-- the numbers printed so far -/
  sold : List ℤ

/-- the threads are created; N is 1000 in the source -/
def State.init (N : ℕ) : State τ := ⟨⟨none, fun _ => .loop⟩, N, []⟩

variable [DecidableEq τ]

/-- the next statement of a thread -/
def step (v : Variant) (s : State τ) (t : τ) : Option (State τ) :=
  match s.pc t with
  | .loop =>
    if v.tests = true ∧ s.tickets ≤ 0 then some { s with toThreads := s.goto t .ended }
    else some { s with toThreads := s.goto t .lock }
  | .lock => (s.lock t (if v.twice then .relock else .check)).map fun θ => { s with toThreads := θ }
  | .relock => (s.lock t .check).map fun θ => { s with toThreads := θ }
  | .check =>
    if 0 < s.tickets then some { s with toThreads := s.goto t .load }
    else some { s with toThreads := s.goto t (.unlock (!v.tests)) }
  | .load => some { s with toThreads := s.goto t (.store s.tickets) }
  | .store value =>
    some { s with
      toThreads := s.goto t (if v.twice && !v.tests then .unlockFirst else .unlock false)
      tickets := value - 1
      sold := s.sold ++ [value] }
  | .unlockFirst => some { s with toThreads := s.unlock t (.unlock false) }
  | .unlock leaves => some { s with toThreads := s.unlock t (if leaves then .ended else .loop) }
  | .ended => none

/-! ## Invariant -/

/-- what a statement presumes about the tickets. Behind the second lock there is no statement that is ever reached. -/
def Fact (v : Variant) (tickets : ℤ) : Pc → Prop
  | .loop | .lock => True
  | .relock => v.twice = true
  | .check => v.twice = false
  | .load => v.twice = false ∧ 0 < tickets
  | .store value => v.twice = false ∧ 0 < tickets ∧ value = tickets
  | .unlockFirst => False
  | .unlock leaves => v.twice = false ∧ (leaves = true → tickets ≤ 0)
  | .ended => tickets ≤ 0

/-- outside the critical section a statement presumes nothing that a sale could spoil -/
theorem Fact.outside {v : Variant} {tickets : ℤ} (p : Pc) (hp : p.inside = false) (h : Fact v tickets p) :
    Fact v (tickets - 1) p := by
  cases p with
  | loop | lock => trivial
  | ended =>
    simp only [Fact] at h ⊢
    omega
  | _ => cases hp

/-- the numbers from N downwards -/
def countdown (N k : ℕ) : List ℤ := (List.range k).map fun i => (N : ℤ) - i

theorem countdown_succ (N k : ℕ) : countdown N (k + 1) = countdown N k ++ [(N : ℤ) - k] := by
  simp [countdown, List.range_succ]

structure Inv (v : Variant) (N : ℕ) (s : State τ) : Prop where
  holds : Holds Pc.inside s.toThreads
  facts : ∀ t, Fact v s.tickets (s.pc t)
  left : s.tickets + s.sold.length = N
  nonneg : 0 ≤ s.tickets
  sold : s.sold = countdown N s.sold.length
  unsold : v.twice = true → s.sold = []

variable {v : Variant} {N : ℕ} {s s' : State τ} {t : τ} {p : Pc}

omit [DecidableEq τ] in
theorem inv_init (v : Variant) (N : ℕ) : Inv v N (State.init N : State τ) where
  holds := holds_start fun _ => rfl
  facts := fun _ => trivial
  left := by simp [State.init]
  nonneg := Int.natCast_nonneg N
  sold := rfl
  unsold := fun _ => rfl

/-- a statement that leaves mutex and tickets alone -/
theorem Inv.goto (h : Inv v N s) (hin : p.inside = (s.pc t).inside) (hf : Fact v s.tickets p) :
    Inv v N { s with toThreads := s.goto t p } where
  holds := h.holds.goto hin
  facts := forall_update h.facts hf
  left := h.left
  nonneg := h.nonneg
  sold := h.sold
  unsold := h.unsold

theorem Inv.lock (h : Inv v N s) (hin : p.inside = true) (hf : Fact v s.tickets p)
    (hs : (s.lock t p).map (fun θ => { s with toThreads := θ }) = some s') : Inv v N s' := by
  obtain ⟨θ, hl, rfl⟩ := Option.map_eq_some_iff.mp hs
  have hholds := h.holds.lock hin hl
  obtain ⟨-, rfl⟩ := Threads.lock_some hl
  exact ⟨hholds, forall_update h.facts hf, h.left, h.nonneg, h.sold, h.unsold⟩

theorem Inv.unlock (h : Inv v N s) (ht : (s.pc t).inside = true) (hin : p.inside = false) (hf : Fact v s.tickets p) :
    Inv v N { s with toThreads := s.unlock t p } where
  holds := h.holds.unlock ht hin
  facts := forall_update h.facts hf
  left := h.left
  nonneg := h.nonneg
  sold := h.sold
  unsold := h.unsold

/-- a sale: the ticket sold is the one with the number of those that are left -/
theorem Inv.store {value : ℤ} (h : Inv v N s) (ht : s.pc t = .store value) :
    Inv v N { s with toThreads := s.goto t (.unlock false), tickets := value - 1, sold := s.sold ++ [value] } := by
  obtain ⟨htwice, hpos, rfl⟩ : v.twice = false ∧ 0 < s.tickets ∧ value = s.tickets := by
    simpa [ht, Fact] using h.facts t
  have hin : (s.pc t).inside = true := by rw [ht]; rfl
  have hleft := h.left
  refine ⟨h.holds.goto hin.symm, ?_, ?_, ?_, ?_, fun h2 => ?_⟩
  · exact h.holds.write Fact.outside h.facts hin ⟨htwice, nofun⟩
  · simp only [List.length_append, List.length_cons, List.length_nil]
    push_cast
    omega
  · show 0 ≤ s.tickets - 1
    omega
  · have hnumber : s.tickets = (N : ℤ) - s.sold.length := by omega
    calc s.sold ++ [s.tickets]
        = countdown N s.sold.length ++ [(N : ℤ) - s.sold.length] := by rw [← h.sold, ← hnumber]
      _ = countdown N (s.sold ++ [s.tickets]).length := by rw [← countdown_succ, List.length_append]; rfl
  · cases htwice.symm.trans h2

/-- the owner of the mutex waits for itself -/
theorem Inv.relock_blocks (h : Inv v N s) (ht : s.pc t = .relock) (p : Pc) : s.lock t p = none := by
  have hm : s.mutex = some t := (h.holds t).mp (by rw [ht]; rfl)
  simp [Threads.lock, hm]

/-- **Every step keeps the invariant.** -/
theorem Inv.step (h : Inv v N s) (hs : Tickets.step v s t = some s') : Inv v N s' := by
  have hf := h.facts t
  unfold Tickets.step at hs
  cases ht : s.pc t with
  | loop =>
    rw [ht] at hs
    dsimp only at hs
    split_ifs at hs with hend
    · cases hs
      exact h.goto (by rw [ht]; rfl) hend.2
    · cases hs
      exact h.goto (by rw [ht]; rfl) trivial
  | lock =>
    rw [ht] at hs
    cases htwice : v.twice with
    | true =>
      rw [htwice] at hs
      exact h.lock (p := .relock) rfl htwice hs
    | false =>
      rw [htwice] at hs
      exact h.lock (p := .check) rfl htwice hs
  | relock =>
    rw [ht] at hs
    dsimp only at hs
    rw [h.relock_blocks ht] at hs
    cases hs
  | check =>
    rw [ht] at hs hf
    dsimp only at hs
    split_ifs at hs with hpos
    · cases hs
      exact h.goto (by rw [ht]; rfl) ⟨hf, hpos⟩
    · cases hs
      exact h.goto (by rw [ht]; rfl) ⟨hf, fun _ => not_lt.mp hpos⟩
  | load =>
    rw [ht] at hs hf
    cases hs
    exact h.goto (by rw [ht]; rfl) ⟨hf.1, hf.2, rfl⟩
  | store value =>
    rw [ht] at hs hf
    simp only [hf.1, Bool.false_and, Bool.false_eq_true, if_false] at hs
    cases hs
    exact h.store ht
  | unlockFirst =>
    rw [ht] at hf
    exact hf.elim
  | unlock leaves =>
    rw [ht] at hs hf
    cases hs
    cases leaves with
    | true => exact h.unlock (by rw [ht]; rfl) rfl (hf.2 rfl)
    | false => exact h.unlock (by rw [ht]; rfl) rfl trivial
  | ended =>
    rw [ht] at hs
    cases hs

theorem run_inv {ops : List τ} (h : Run.exec (Tickets.step v) (State.init N) ops = some s) : Inv v N s :=
  Run.exec_inv (fun _ _ _ hs => hs.step) (inv_init v N) h

/-! ## The threads come to an end -/

/-- an upper bound for the steps to the next sale, or to the end of the thread -/
def stage (v : Variant) (tickets : ℤ) : Pc → ℕ
  | .loop => if v.tests = true ∧ tickets ≤ 0 then 1 else 8
  | .lock => 7
  | .relock => 6
  | .check => 5
  | .load => 4
  | .store _ => 3
  | .unlockFirst => 10
  | .unlock true => 1
  | .unlock false => if v.tests = true ∧ tickets ≤ 0 then 2 else 9
  | .ended => 0

/-- where the condition of `while` looks at the tickets, a sale can only bring the end nearer -/
theorem ite_sale (v : Variant) {tickets tickets' : ℤ} {near far : ℕ} (hfar : near ≤ far) (h : tickets' ≤ tickets) :
    (if v.tests = true ∧ tickets' ≤ 0 then near else far) ≤ if v.tests = true ∧ tickets ≤ 0 then near else far := by
  split_ifs with hnow hbefore hbefore
  · exact le_rfl
  · exact hfar
  · exact absurd ⟨hbefore.1, h.trans hbefore.2⟩ hnow
  · exact le_rfl

/-- a sale brings no thread further from its end -/
theorem stage_sale (v : Variant) {tickets tickets' : ℤ} (h : tickets' ≤ tickets) (p : Pc) :
    stage v tickets' p ≤ stage v tickets p := by
  cases p with
  | loop => exact ite_sale v (by decide) h
  | unlock leaves =>
    cases leaves with
    | false => exact ite_sale v (by decide) h
    | true => exact le_rfl
  | _ => exact le_rfl

variable [Fintype τ]

def work (v : Variant) (s : State τ) : ℕ := 8 * s.tickets.toNat + ∑ t, stage v s.tickets (s.pc t)

/-- a thread moves on without a sale -/
theorem work_update {s s' : State τ} (htickets : s'.tickets = s.tickets) (hpc : s'.pc = Function.update s.pc t p)
    (hp : stage v s.tickets p < stage v s.tickets (s.pc t)) : work v s' < work v s := by
  have hsum := Run.sum_update s.pc t p (stage v s.tickets)
  unfold work
  rw [htickets, hpc]
  omega

theorem work_lock (hp : stage v s.tickets p < stage v s.tickets (s.pc t))
    (hs : (s.lock t p).map (fun θ => { s with toThreads := θ }) = some s') : work v s' < work v s := by
  obtain ⟨θ, hl, rfl⟩ := Option.map_eq_some_iff.mp hs
  obtain ⟨-, rfl⟩ := Threads.lock_some hl
  exact work_update rfl rfl hp

theorem work_store {value : ℤ} (h : Inv v N s) (ht : s.pc t = .store value) :
    work v { s with toThreads := s.goto t (.unlock false), tickets := value - 1, sold := s.sold ++ [value] } <
      work v s := by
  obtain ⟨-, hpos, rfl⟩ : v.twice = false ∧ 0 < s.tickets ∧ value = s.tickets := by simpa [ht, Fact] using h.facts t
  have hothers : ∑ u, stage v (s.tickets - 1) (s.pc u) ≤ ∑ u, stage v s.tickets (s.pc u) :=
    Finset.sum_le_sum fun u _ => stage_sale v (by omega) (s.pc u)
  have hsum := Run.sum_update s.pc t (.unlock false) (stage v (s.tickets - 1))
  have hseller : stage v (s.tickets - 1) (s.pc t) = 3 := by rw [ht]; rfl
  have hunlock : stage v (s.tickets - 1) (.unlock false) ≤ 9 := by
    simp only [stage]
    split_ifs <;> omega
  unfold work Threads.goto
  dsimp only
  omega

/-- **Every step brings the program nearer to its end.** -/
theorem work_step (h : Inv v N s) (hs : Tickets.step v s t = some s') : work v s' < work v s := by
  have hf := h.facts t
  unfold Tickets.step at hs
  cases ht : s.pc t with
  | loop =>
    rw [ht] at hs
    dsimp only at hs
    split_ifs at hs with hend
    · cases hs
      exact work_update rfl rfl (by simp [ht, stage, hend])
    · cases hs
      exact work_update rfl rfl (by simp [ht, stage, hend])
  | lock =>
    rw [ht] at hs
    refine work_lock ?_ hs
    cases htwice : v.twice <;> simp [ht, stage]
  | relock =>
    rw [ht] at hs
    exact work_lock (by simp [ht, stage]) hs
  | check =>
    rw [ht] at hs
    dsimp only at hs
    split_ifs at hs with hpos
    · cases hs
      exact work_update rfl rfl (by simp [ht, stage])
    · cases hs
      refine work_update rfl rfl ?_
      cases htests : v.tests <;> simp [ht, stage, htests, not_lt.mp hpos]
  | load =>
    rw [ht] at hs
    cases hs
    exact work_update rfl rfl (by simp [ht, stage])
  | store value =>
    rw [ht] at hs hf
    simp only [hf.1, Bool.false_and, Bool.false_eq_true, if_false] at hs
    cases hs
    exact work_store h ht
  | unlockFirst =>
    rw [ht] at hf
    exact hf.elim
  | unlock leaves =>
    rw [ht] at hs
    cases hs
    refine work_update rfl rfl ?_
    rw [ht]
    cases leaves with
    | true => simp [stage]
    | false =>
      simp only [stage, Bool.false_eq_true, if_false]
      split_ifs <;> decide
  | ended =>
    rw [ht] at hs
    cases hs

omit [DecidableEq τ] in
theorem work_init (v : Variant) (N : ℕ) : work v (State.init N : State τ) ≤ 8 * N + 8 * Fintype.card τ := by
  have hloop : stage v N .loop ≤ 8 := by
    simp only [stage]
    split_ifs <;> decide
  have hthreads : ∑ _t : τ, stage v N .loop ≤ 8 * Fintype.card τ := by
    rw [Finset.sum_const, Finset.card_univ, smul_eq_mul, Nat.mul_comm]
    exact Nat.mul_le_mul_right _ hloop
  exact Nat.add_le_add_left hthreads (8 * N)

/-- a run is at most as long as it has brought the program forward -/
theorem run_length {ops : List τ} (h : Run.exec (Tickets.step v) (State.init N) ops = some s) :
    ops.length + work v s ≤ 8 * N + 8 * Fintype.card τ := by
  refine (Run.exec_history (I := fun done s => Inv v N s ∧ done.length + work v s ≤ 8 * N + 8 * Fintype.card τ)
    ?_ ⟨inv_init v N, ?_⟩ h).2
  · intro done s t s' ⟨hinv, hlength⟩ hs
    have hless := work_step hinv hs
    refine ⟨hinv.step hs, ?_⟩
    rw [List.length_append, List.length_singleton]
    omega
  · rw [List.length_nil, Nat.zero_add]
    exact work_init v N

/-! ## Who can go on -/

omit [Fintype τ] in
/-- a thread blocks only at the mutex, and only while another step has it locked -/
theorem step_isSome (v : Variant) {s : State τ} {t : τ} (hend : s.pc t ≠ .ended)
    (hlock : s.pc t = .lock ∨ s.pc t = .relock → s.mutex = none) : (Tickets.step v s t).isSome = true := by
  unfold Tickets.step
  cases ht : s.pc t with
  | loop | check =>
    dsimp only
    split_ifs <;> rfl
  | lock => simp [Threads.lock, hlock (Or.inl ht)]
  | relock => simp [Threads.lock, hlock (Or.inr ht)]
  | ended => exact absurd ht hend
  | _ => rfl

omit [Fintype τ] in
/-- where all threads stand when none can go on: at their end, or at the mutex that somebody holds -/
theorem stuck_cases (hstuck : ∀ t, Tickets.step v s t = none) (t : τ) :
    s.pc t = .ended ∨ ((s.pc t = .lock ∨ s.pc t = .relock) ∧ ∃ u, s.mutex = some u) := by
  by_cases hend : s.pc t = .ended
  · exact Or.inl hend
  · right
    by_contra hfree
    have hsome := step_isSome v hend fun hat => by
      by_contra hm
      exact hfree ⟨hat, Option.ne_none_iff_exists'.mp hm⟩
    rw [hstuck t] at hsome
    cases hsome

/-! ## Main results -/

/-- **Every ticket is sold exactly once.** In `mutex.c` and in the version of the examples, for any number of threads, any
number of tickets and any interleaving: the numbers printed are N, N - 1, … in this order, as many as tickets are gone;
the threads take at most 8 (N + the number of threads) steps together; and when none of them can go on all have left
their loop and all tickets are sold. -/
theorem tickets_sold [Nonempty τ] {ops : List τ} (hv : v = mutexC ∨ v = exampleMutexC)
    (h : Run.exec (Tickets.step v) (State.init N) ops = some s) :
    s.sold = countdown N s.sold.length ∧ s.tickets + s.sold.length = N ∧ 0 ≤ s.tickets ∧
    ops.length ≤ 8 * (N + Fintype.card τ) ∧
    ((∀ t, Tickets.step v s t = none) → (∀ t, s.pc t = .ended) ∧ s.sold = countdown N N) := by
  have hinv := run_inv h
  have hlength := run_length h
  refine ⟨hinv.sold, hinv.left, hinv.nonneg, by omega, fun hstuck => ?_⟩
  have htwice : v.twice = false := by rcases hv with rfl | rfl <;> rfl
  have hended : ∀ t, s.pc t = .ended := by
    intro t
    rcases stuck_cases hstuck t with hend | ⟨-, u, hm⟩
    · exact hend
    · -- the owner of the mutex stands between lock and unlock, where nothing blocks
      exfalso
      have hu := (hinv.holds u).mpr hm
      rcases stuck_cases hstuck u with hend | ⟨hat | hat, -⟩
      · rw [hend] at hu
        cases hu
      · rw [hat] at hu
        cases hu
      · have hf := hinv.facts u
        rw [hat] at hf
        cases htwice.symm.trans hf
  obtain ⟨t⟩ : Nonempty τ := inferInstance
  have hnone : s.tickets ≤ 0 := by
    have hf := hinv.facts t
    rw [hended t] at hf
    exact hf
  have hall : s.sold.length = N := by
    have := hinv.left
    have := hinv.nonneg
    omega
  exact ⟨hended, hall ▸ hinv.sold⟩

/-- two threads sell two tickets; the first one looks for a third in vain -/
def sellOps : List Bool := [true, true, true, true, true, true, false, false, false, true, false, false, false, true, true,
  true, true, false]

def sellRun : Option (State Bool) := Run.exec (Tickets.step mutexC) (State.init 2) sellOps

theorem sellRun_isSome : sellRun.isSome = true := by decide +kernel

theorem tickets_sold_two : (∀ t, (sellRun.get sellRun_isSome).pc t = .ended) ∧
    (sellRun.get sellRun_isSome).sold = [2, 1] := by
  have hstuck : ∀ t, Tickets.step mutexC (sellRun.get sellRun_isSome) t = none := by
    intro t
    have hend : (sellRun.get sellRun_isSome).pc t = .ended := by
      cases t <;> decide +kernel
    simp [Tickets.step, hend]
  exact (tickets_sold (Or.inl rfl) (Option.some_get sellRun_isSome).symm).2.2.2.2 hstuck

omit [DecidableEq τ] [Fintype τ] in
/-- where a thread can stand if the mutex is locked twice -/
theorem Inv.twice_cases (h : Inv v N s) (htwice : v.twice = true) (hpos : 0 < s.tickets) (t : τ) :
    s.pc t = .loop ∨ s.pc t = .lock ∨ s.pc t = .relock := by
  have hf := h.facts t
  cases ht : s.pc t <;> simp_all [Fact]
  omega

omit [DecidableEq τ] [Fintype τ] in
theorem Inv.tickets_twice (h : Inv v N s) (htwice : v.twice = true) : s.tickets = N := by
  simpa [h.unsold htwice] using h.left

/-- the steps of a thread up to its second lock -/
def Pc.toRelock : Pc → ℕ
  | .loop => 2
  | .lock => 1
  | _ => 0

omit [Fintype τ] in
/-- a thread that locks twice comes to its second lock, and no further -/
theorem Inv.twice_step (h : Inv v N s) (htwice : v.twice = true) (hpos : 0 < s.tickets) {u : τ}
    (hs : Tickets.step v s u = some s') (t : τ) :
    (s'.pc t).toRelock + (if u = t then 1 else 0) ≤ (s.pc t).toRelock := by
  have hmoves : ∀ p, s'.pc = Function.update s.pc u p → p.toRelock + 1 ≤ (s.pc u).toRelock →
      (s'.pc t).toRelock + (if u = t then 1 else 0) ≤ (s.pc t).toRelock := by
    intro p hpc hle
    rw [hpc]
    by_cases hut : u = t
    · subst hut
      rw [Function.update_self, if_pos rfl]
      exact hle
    · rw [Function.update_of_ne (Ne.symm hut), if_neg hut, Nat.add_zero]
  unfold Tickets.step at hs
  rcases h.twice_cases htwice hpos u with hu | hu | hu <;> rw [hu] at hs
  · rw [if_neg fun hend => absurd hend.2 (not_le.mpr hpos)] at hs
    cases hs
    exact hmoves .lock rfl (by rw [hu]; rfl)
  · obtain ⟨θ, hl, rfl⟩ := Option.map_eq_some_iff.mp hs
    obtain ⟨-, rfl⟩ := Threads.lock_some hl
    exact hmoves .relock (by rw [if_pos htwice]) (by rw [hu]; rfl)
  · -- the mutex is its own
    obtain ⟨θ, hl, -⟩ := Option.map_eq_some_iff.mp hs
    have hown := (h.holds u).mp (by rw [hu]; rfl)
    cases hown.symm.trans (Threads.lock_some hl).1

omit [Fintype τ] in
/-- **The programs that lock twice sell nothing.** In `deadlock.c` and in the version of the examples, for any threads and
any interleaving, as long as there are tickets at the start: no ticket is sold, no thread ends, and each thread takes at
most two steps; when none can go on, one thread holds the mutex and waits for it, and all others wait for it too. -/
theorem deadlock_sells_nothing [Nonempty τ] {ops : List τ} (hv : v = deadlockC ∨ v = exampleDeadlockC) (hN : 0 < N)
    (h : Run.exec (Tickets.step v) (State.init N) ops = some s) :
    s.sold = [] ∧ s.tickets = N ∧ (∀ t, s.pc t ≠ .ended) ∧ (∀ t, ops.count t ≤ 2) ∧
    ((∀ t, Tickets.step v s t = none) →
      ∃ t, s.mutex = some t ∧ s.pc t = .relock ∧ ∀ u, u ≠ t → s.pc u = .lock) := by
  have hinv := run_inv h
  have htwice : v.twice = true := by rcases hv with rfl | rfl <;> rfl
  have htickets := hinv.tickets_twice htwice
  have hcases := hinv.twice_cases htwice (by omega)
  refine ⟨hinv.unsold htwice, htickets, fun t hend => ?_, ?_, fun hstuck => ?_⟩
  · rcases hcases t with ht | ht | ht <;> cases hend.symm.trans ht
  · intro t
    have hstep : ∀ s u s', Inv v N s → Tickets.step v s u = some s' → Inv v N s' ∧
        (s'.pc t).toRelock + (if u = t then 1 else 0) ≤ (s.pc t).toRelock := fun s u s' hs hst =>
      ⟨hs.step hst, hs.twice_step htwice (hs.tickets_twice htwice ▸ by omega) hst t⟩
    exact (Nat.le_add_right _ _).trans (Run.exec_count_le hstep (inv_init v N) h)
  · obtain ⟨t₀⟩ : Nonempty τ := inferInstance
    have hheld : ∃ t, s.mutex = some t := by
      rcases stuck_cases hstuck t₀ with hend | ⟨-, hheld⟩
      · rcases hcases t₀ with ht | ht | ht <;> cases hend.symm.trans ht
      · exact hheld
    obtain ⟨t, hm⟩ := hheld
    have ht := (hinv.holds t).mpr hm
    have hrelock : s.pc t = .relock := by
      rcases hcases t with hat | hat | hat
      · rw [hat] at ht
        cases ht
      · rw [hat] at ht
        cases ht
      · exact hat
    refine ⟨t, hm, hrelock, fun u hu => ?_⟩
    have hout := hinv.holds.others ht hu
    rcases stuck_cases hstuck u with hend | ⟨hat | hat, -⟩
    · rcases hcases u with hu' | hu' | hu' <;> cases hend.symm.trans hu'
    · exact hat
    · rw [hat] at hout
      cases hout

/-- both threads enter their loop, and the first one takes the mutex -/
def deadlockRun : Option (State Bool) := Run.exec (Tickets.step deadlockC) (State.init 1000) [true, false, true]

theorem deadlockRun_isSome : deadlockRun.isSome = true := by decide +kernel

theorem deadlock_sells_nothing_two : (deadlockRun.get deadlockRun_isSome).sold = [] ∧
    ∃ t, (deadlockRun.get deadlockRun_isSome).mutex = some t ∧ (deadlockRun.get deadlockRun_isSome).pc t = .relock ∧
      ∀ u, u ≠ t → (deadlockRun.get deadlockRun_isSome).pc u = .lock := by
  obtain ⟨hsold, -, -, -, hstuck⟩ := deadlock_sells_nothing (N := 1000) (Or.inl rfl) (by decide)
    (Option.some_get deadlockRun_isSome).symm
  refine ⟨hsold, hstuck fun t => ?_⟩
  have hm : (deadlockRun.get deadlockRun_isSome).mutex = some true := by decide +kernel
  have hpc : (deadlockRun.get deadlockRun_isSome).pc t = if t then .relock else .lock := by
    cases t <;> decide +kernel
  cases t <;> simp [Tickets.step, hpc, Threads.lock, hm]

end WebServer.Lesson30.Tickets
