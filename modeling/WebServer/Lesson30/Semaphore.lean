/-
The producer-consumer program with semaphores (lesson30/semaphore.c): `psem` counts free places, `csem` counts nodes,
and a mutex protects the list.

Each statement of `producer` and `customer` that touches shared data is one step, and the steps of any number of threads
interleave arbitrarily. `sem_wait` is executed only if the semaphore is positive, `pthread_mutex_lock` only if the mutex
is free. Both semaphores change outside the mutex. A `customer` that finds a null `head` is `crashed`. Printing and
sleeping are left out.

- `Counts`: a place is free, or claimed by a thread between its two semaphore operations, or holds a node; a node is
  announced by `csem`, or by a producer about to post, or taken on by a customer that has yet to remove it.
- `semaphore_run`: so the list never has more than N nodes, a customer never finds it empty, and no node is lost or
  removed twice.
-/
import WebServer.Core.Monitor
import WebServer.Core.Run
import WebServer.Lesson30.Nodes

namespace WebServer.Lesson30.Semaphore

open WebServer.Monitor

variable {τ : Type*}

/-! ## Model -/

/-- the statement a thread executes next -/
inductive Pc where
  /-- `sem_wait(&psem)` -/
  | producerWait
  | producerLock
  /-- `newnode->next = head` -/
  | producerLink
  /-- `head = newnode` -/
  | producerStore (next : List Node)
  | producerUnlock
  /-- `sem_post(&csem)` -/
  | producerPost
  /-- `sem_wait(&csem)` -/
  | customerWait
  | customerLock
  /-- `tmp = head` -/
  | customerHead
  /-- `head = head->next` and `free(tmp)` -/
  | customerUnlink (tmp : Option Node)
  | customerUnlock
  /-- `sem_post(&psem)` -/
  | customerPost
  | crashed
deriving DecidableEq, Repr

def Pc.inside : Pc → Bool
  | .producerLink | .producerStore _ | .producerUnlock => true
  | .customerHead | .customerUnlink _ | .customerUnlock => true
  | _ => false

/-- the first statement of the loop -/
def Role.start : Role → Pc
  | .producer => .producerWait
  | .customer => .customerWait

structure State (τ : Type*) extends Threads τ Pc where
  psem : ℕ
  csem : ℕ
  nodes : Nodes

/-- `main`, with `sem_init(&psem, 0, N)` and any number of threads of the two kinds -/
def State.init (N : ℕ) (role : τ → Role) : State τ := ⟨⟨none, fun t => Role.start (role t)⟩, N, 0, Nodes.empty⟩

/-- the next statement of a thread; `rand` is the value of `rand()` if it is called -/
structure Op (τ : Type*) where
  thread : τ
  rand : ℕ

variable [DecidableEq τ]

def step (s : State τ) : Op τ → Option (State τ)
  | ⟨t, rand⟩ =>
    match s.pc t with
    | .producerWait =>
      match s.psem with
      | 0 => none
      | n + 1 => some { s with toThreads := s.goto t .producerLock, psem := n }
    | .producerLock => (s.lock t .producerLink).map fun θ => { s with toThreads := θ }
    | .producerLink => some { s with toThreads := s.goto t (.producerStore s.nodes.head) }
    | .producerStore next =>
      some { s with toThreads := s.goto t .producerUnlock, nodes := s.nodes.insert next rand }
    | .producerUnlock => some { s with toThreads := s.unlock t .producerPost }
    | .producerPost => some { s with toThreads := s.goto t .producerWait, csem := s.csem + 1 }
    | .customerWait =>
      match s.csem with
      | 0 => none
      | n + 1 => some { s with toThreads := s.goto t .customerLock, csem := n }
    | .customerLock => (s.lock t .customerHead).map fun θ => { s with toThreads := θ }
    | .customerHead => some { s with toThreads := s.goto t (.customerUnlink s.nodes.head.head?) }
    | .customerUnlink tmp =>
      match s.nodes.unlink tmp with
      | some nodes => some { s with toThreads := s.goto t .customerUnlock, nodes := nodes }
      | none => some { s with toThreads := s.goto t .crashed }
    | .customerUnlock => some { s with toThreads := s.unlock t .customerPost }
    | .customerPost => some { s with toThreads := s.goto t .customerWait, psem := s.psem + 1 }
    | .crashed => none

/-! ## Counting -/

/-- places that a thread has claimed: between `sem_wait(&psem)` and the insertion, or between the removal and
`sem_post(&psem)` -/
def Pc.claims : Pc → ℕ
  | .producerLock | .producerLink | .producerStore _ | .customerUnlock | .customerPost => 1
  | _ => 0

/-- nodes that a thread answers for: between the insertion and `sem_post(&csem)`, or between `sem_wait(&csem)` and the
removal -/
def Pc.covers : Pc → ℕ
  | .producerUnlock | .producerPost | .customerLock | .customerHead | .customerUnlink _ => 1
  | _ => 0

structure Counts [Fintype τ] (N psem csem length : ℕ) (pc : τ → Pc) : Prop where
  places : psem + ∑ t, (pc t).claims + length = N
  stock : csem + ∑ t, (pc t).covers = length

section Counting

variable [Fintype τ] {N psem csem length psem' csem' length' : ℕ} {pc : τ → Pc} {t : τ} {p : Pc}

/-- **The balance of a step.** What a thread gives up on its way to `p` is what the semaphores and the list gain. -/
theorem Counts.update (h : Counts N psem csem length pc)
    (hplaces : psem' + p.claims + length' = psem + (pc t).claims + length)
    (hstock : csem' + p.covers + length = csem + (pc t).covers + length') :
    Counts N psem' csem' length' (Function.update pc t p) := by
  have hclaims := Run.sum_update pc t p Pc.claims
  have hcovers := Run.sum_update pc t p Pc.covers
  have h1 := h.places
  have h2 := h.stock
  constructor <;> omega

omit [DecidableEq τ] in
theorem Counts.length_le (h : Counts N psem csem length pc) : length ≤ N := by
  calc length ≤ psem + ∑ t, (pc t).claims + length := Nat.le_add_left ..
    _ = N := h.places

omit [DecidableEq τ] in
/-- a customer that has passed `sem_wait(&csem)` answers for a node of the list -/
theorem Counts.length_pos (h : Counts N psem csem length pc) (ht : (pc t).covers = 1) : 0 < length := by
  calc 0 < (pc t).covers := ht ▸ Nat.one_pos
    _ ≤ ∑ u, (pc u).covers := Finset.single_le_sum (f := fun u => (pc u).covers) (fun _ _ => Nat.zero_le _)
        (Finset.mem_univ t)
    _ ≤ csem + ∑ u, (pc u).covers := Nat.le_add_left ..
    _ = length := h.stock

end Counting

/-! ## Invariant -/

/-- what a statement presumes about the list -/
def Fact (nodes : Nodes) : Pc → Prop
  | .producerStore next => next = nodes.head
  | .customerUnlink tmp => tmp = nodes.head.head?
  | .crashed => False
  | _ => True

theorem Fact.outside {nodes nodes' : Nodes} (p : Pc) (hp : p.inside = false) (h : Fact nodes p) : Fact nodes' p := by
  cases p <;> first | exact h | cases hp

structure Inv [Fintype τ] (N : ℕ) (s : State τ) : Prop where
  holds : Holds Pc.inside s.toThreads
  facts : ∀ t, Fact s.nodes (s.pc t)
  conserved : Conserved s.nodes
  counts : Counts N s.psem s.csem s.nodes.head.length s.pc

variable [Fintype τ]

omit [DecidableEq τ] in
theorem inv_init (N : ℕ) (role : τ → Role) : Inv N (State.init N role) where
  holds := holds_start fun t => by cases role t <;> rfl
  facts := fun t => by
    unfold State.init
    dsimp only
    cases role t <;> trivial
  conserved := conserved_empty
  counts := by
    have hclaims : ∀ t, (Role.start (role t)).claims = 0 := fun t => by cases role t <;> rfl
    have hcovers : ∀ t, (Role.start (role t)).covers = 0 := fun t => by cases role t <;> rfl
    constructor <;> simp [State.init, hclaims, hcovers, Nodes.empty]

/-- a statement outside the critical section: only the semaphores change -/
theorem Inv.outside {N psem csem : ℕ} {s : State τ} (h : Inv N s) {t : τ} {p : Pc} (hin : p.inside = (s.pc t).inside)
    (hf : Fact s.nodes p) (hplaces : psem + p.claims = s.psem + (s.pc t).claims)
    (hstock : csem + p.covers = s.csem + (s.pc t).covers) :
    Inv N { s with toThreads := s.goto t p, psem := psem, csem := csem } where
  holds := h.holds.goto hin
  facts := forall_update h.facts hf
  conserved := h.conserved
  counts := h.counts.update (by rw [hplaces]) (by rw [hstock])

theorem Inv.lock {N : ℕ} {s s' : State τ} (h : Inv N s) {t : τ} {p : Pc} (hin : p.inside = true) (hf : Fact s.nodes p)
    (hclaims : p.claims = (s.pc t).claims) (hcovers : p.covers = (s.pc t).covers)
    (hs : (s.lock t p).map (fun θ => { s with toThreads := θ }) = some s') : Inv N s' := by
  obtain ⟨θ, hl, rfl⟩ := Option.map_eq_some_iff.mp hs
  have hholds := h.holds.lock hin hl
  obtain ⟨-, rfl⟩ := Threads.lock_some hl
  exact ⟨hholds, forall_update h.facts hf, h.conserved, h.counts.update (by rw [hclaims]) (by rw [hcovers])⟩

theorem Inv.unlock {N : ℕ} {s : State τ} (h : Inv N s) {t : τ} {p : Pc} (ht : (s.pc t).inside = true)
    (hin : p.inside = false) (hf : Fact s.nodes p) (hclaims : p.claims = (s.pc t).claims)
    (hcovers : p.covers = (s.pc t).covers) : Inv N { s with toThreads := s.unlock t p } where
  holds := h.holds.unlock ht hin
  facts := forall_update h.facts hf
  conserved := h.conserved
  counts := h.counts.update (by rw [hclaims]) (by rw [hcovers])

/-- the insertion at `head` -/
theorem Inv.insert {N : ℕ} {s : State τ} (h : Inv N s) {t : τ} {next : List Node} (ht : s.pc t = .producerStore next)
    (rand : ℕ) : Inv N { s with toThreads := s.goto t .producerUnlock, nodes := s.nodes.insert next rand } := by
  have hnext : next = s.nodes.head := by simpa [ht, Fact] using h.facts t
  subst hnext
  refine ⟨h.holds.goto (by rw [ht]; rfl), ?_, h.conserved.insert rand, h.counts.update ?_ ?_⟩
  · exact h.holds.write Fact.outside h.facts (by rw [ht]; rfl) trivial
  · rw [ht]
    simp [Pc.claims, Nodes.insert]
    omega
  · rw [ht]
    simp [Pc.covers, Nodes.insert]
    omega

/-- the removal of `head`: the customer answers for a node, so there is one -/
theorem Inv.unlink {N : ℕ} {s s' : State τ} (h : Inv N s) {t : τ} {tmp : Option Node} (ht : s.pc t = .customerUnlink tmp)
    (hs : (match s.nodes.unlink tmp with
      | some nodes => some { s with toThreads := s.goto t .customerUnlock, nodes := nodes }
      | none => some { s with toThreads := s.goto t .crashed }) = some s') : Inv N s' := by
  have htmp : tmp = s.nodes.head.head? := by simpa [ht, Fact] using h.facts t
  subst htmp
  have hpos : 0 < s.nodes.head.length := h.counts.length_pos (by rw [ht]; rfl)
  obtain ⟨nodes, hn⟩ := Nodes.unlink_isSome (List.ne_nil_of_length_pos hpos)
  have hlen := Nodes.unlink_length hn
  rw [hn] at hs
  cases hs
  refine ⟨h.holds.goto (by rw [ht]; rfl), ?_, h.conserved.unlink hn, h.counts.update ?_ ?_⟩
  · exact h.holds.write Fact.outside h.facts (by rw [ht]; rfl) trivial
  · rw [ht, ← hlen]
    simp only [Pc.claims]
    omega
  · rw [ht, ← hlen]
    simp only [Pc.covers]
    omega

/-- **Every step keeps the invariant.** -/
theorem Inv.step {N : ℕ} {s s' : State τ} {op : Op τ} (h : Inv N s) (hs : Semaphore.step s op = some s') : Inv N s' := by
  obtain ⟨t, rand⟩ := op
  unfold Semaphore.step at hs
  dsimp only at hs
  cases ht : s.pc t with
  | producerWait =>
    rw [ht] at hs
    dsimp only at hs
    split at hs
    · cases hs
    · rename_i n hn
      cases hs
      exact h.outside (by rw [ht]; rfl) trivial (by rw [ht, hn]; rfl) (by rw [ht]; rfl)
  | producerLock =>
    rw [ht] at hs
    exact h.lock (p := .producerLink) rfl trivial (by rw [ht]; rfl) (by rw [ht]; rfl) hs
  | producerLink =>
    rw [ht] at hs
    cases hs
    exact h.outside (by rw [ht]; rfl) rfl (by rw [ht]; rfl) (by rw [ht]; rfl)
  | producerStore next =>
    rw [ht] at hs
    cases hs
    exact h.insert ht rand
  | producerUnlock =>
    rw [ht] at hs
    cases hs
    exact h.unlock (by rw [ht]; rfl) rfl trivial (by rw [ht]; rfl) (by rw [ht]; rfl)
  | producerPost =>
    rw [ht] at hs
    cases hs
    exact h.outside (by rw [ht]; rfl) trivial (by rw [ht]; rfl) (by rw [ht]; rfl)
  | customerWait =>
    rw [ht] at hs
    dsimp only at hs
    split at hs
    · cases hs
    · rename_i n hn
      cases hs
      exact h.outside (by rw [ht]; rfl) trivial (by rw [ht]; rfl) (by rw [ht, hn]; rfl)
  | customerLock =>
    rw [ht] at hs
    exact h.lock (p := .customerHead) rfl trivial (by rw [ht]; rfl) (by rw [ht]; rfl) hs
  | customerHead =>
    rw [ht] at hs
    cases hs
    exact h.outside (by rw [ht]; rfl) rfl (by rw [ht]; rfl) (by rw [ht]; rfl)
  | customerUnlink tmp =>
    rw [ht] at hs
    exact h.unlink ht hs
  | customerUnlock =>
    rw [ht] at hs
    cases hs
    exact h.unlock (by rw [ht]; rfl) rfl trivial (by rw [ht]; rfl) (by rw [ht]; rfl)
  | customerPost =>
    rw [ht] at hs
    cases hs
    exact h.outside (by rw [ht]; rfl) trivial (by rw [ht]; rfl) (by rw [ht]; rfl)
  | crashed =>
    rw [ht] at hs
    cases hs

theorem run_inv {N : ℕ} {role : τ → Role} {s : State τ} {ops : List (Op τ)}
    (h : Run.exec step (State.init N role) ops = some s) : Inv N s :=
  Run.exec_inv (fun _ _ _ hs => hs.step) (inv_init N role) h

/-! ## Main result -/

/-- **The program with semaphores.** In every state of every run, for any threads and any initial value of `psem`: the
list has at most N nodes; a customer that has passed `sem_wait(&csem)` and has not removed its node yet finds `head`
not null, and none ever crashes; the nodes produced are those removed and those in the list, each exactly once. -/
theorem semaphore_run {N : ℕ} {role : τ → Role} {s : State τ} {ops : List (Op τ)}
    (h : Run.exec step (State.init N role) ops = some s) :
    s.nodes.head.length ≤ N ∧
    (∀ t, s.pc t = .customerLock ∨ s.pc t = .customerHead ∨ (∃ tmp, s.pc t = .customerUnlink tmp) →
      s.nodes.head ≠ []) ∧
    (∀ t, s.pc t ≠ .crashed) ∧
    (s.nodes.removed ++ s.nodes.head).Perm s.nodes.produced ∧ s.nodes.produced.Nodup := by
  have hinv := run_inv h
  refine ⟨hinv.counts.length_le, fun t ht => ?_, fun t ht => ?_, hinv.conserved.perm, hinv.conserved.nodup⟩
  · apply List.ne_nil_of_length_pos
    apply hinv.counts.length_pos (t := t)
    rcases ht with ht | ht | ⟨tmp, ht⟩ <;> rw [ht] <;> rfl
  · have hfact := hinv.facts t
    rw [ht] at hfact
    exact hfact

/-- one place: the producer fills it, the customer has passed `sem_wait(&csem)` and is inside its critical section -/
def handoverRun : Option (State Bool) :=
  Run.exec step (State.init 1 fun t => if t then .producer else .customer)
    [⟨true, 300⟩, ⟨true, 300⟩, ⟨true, 300⟩, ⟨true, 300⟩, ⟨true, 300⟩, ⟨true, 300⟩, ⟨false, 0⟩, ⟨false, 0⟩]

theorem handoverRun_isSome : handoverRun.isSome = true := by decide +kernel

theorem semaphore_handoverRun :
    (handoverRun.get handoverRun_isSome).pc false = .customerHead ∧
    (handoverRun.get handoverRun_isSome).nodes.head = [⟨0, 44⟩] ∧
    (handoverRun.get handoverRun_isSome).nodes.head.length ≤ 1 :=
  ⟨by decide +kernel, by decide +kernel, (semaphore_run (Option.some_get handoverRun_isSome).symm).1⟩

end WebServer.Lesson30.Semaphore
