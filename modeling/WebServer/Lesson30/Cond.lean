/-
The producer-consumer program with a condition variable (lesson30/cond.c): a mutex protects the list, a producer signals
`cond` once per node, and a customer that finds the list empty waits, with an `if` and not a `while` around the wait.

Each statement of `producer` and `customer` that touches shared data is one step, and the steps of any number of threads
interleave arbitrarily:
- `pthread_cond_wait` releases the mutex and puts the customer to sleep; a woken customer takes the mutex again, releases
  it and starts its loop from the top;
- `pthread_cond_signal` wakes some set of sleepers, not empty if anybody sleeps (`Op.signal`); a sleeper may also wake by
  itself (`Op.wake`).
A customer that takes `head->next` of a null `head` is `crashed`. Printing and sleeping are left out.

- `Inv`: beside a node some customer is awake, or the producer of the node is about to signal.
- `cond_run`: so whenever no thread is inside its critical section and the list is not empty, some customer is awake; no
  node is lost or removed twice.
- `insertedRun_blocked`: between the insertion and the signal all customers may sleep beside a node.
-/
import WebServer.Core.Monitor
import WebServer.Core.Run
import WebServer.Lesson30.Nodes

namespace WebServer.Lesson30.CondVar

open WebServer.Monitor

variable {τ : Type*}

/-! ## Model -/

/-- the statement a thread executes next -/
inductive Pc where
  | producerLock
  /-- `newnode->next = head` -/
  | producerLink
  /-- `head = newnode` -/
  | producerStore (next : List Node)
  | producerSignal
  | producerUnlock
  | customerLock
  /-- `if(head != NULL)` -/
  | customerTest
  /-- `tmp = head` -/
  | customerHead
  /-- `head = head->next` and `free(tmp)` -/
  | customerUnlink (tmp : Option Node)
  /-- about to call `pthread_cond_wait` -/
  | customerWait
  | blocked
  /-- woken in `pthread_cond_wait`, the mutex is still to be taken again -/
  | woken
  | customerUnlock
  | crashed
deriving DecidableEq, Repr

def Pc.inside : Pc → Bool
  | .producerLink | .producerStore _ | .producerSignal | .producerUnlock => true
  | .customerTest | .customerHead | .customerUnlink _ | .customerWait | .customerUnlock => true
  | _ => false

def Pc.isBlocked : Pc → Bool
  | .blocked => true
  | _ => false

def Pc.signals : Pc → Bool
  | .producerSignal => true
  | _ => false

/-- whose statement it is -/
def Pc.role : Pc → Role
  | .producerLock | .producerLink | .producerStore _ | .producerSignal | .producerUnlock => .producer
  | _ => .customer

theorem Pc.signals_eq (p : Pc) (h : p.signals = true) : p = .producerSignal := by
  cases p <;> first | rfl | cases h

theorem Pc.role_blocked (p : Pc) (h : p.isBlocked = true) : p.role = .customer := by
  cases p <;> first | rfl | cases h

/-- the first statement of the loop -/
def Role.start : Role → Pc
  | .producer => .producerLock
  | .customer => .customerLock

theorem Pc.blocked_outside (p : Pc) (h : p.isBlocked = true) : p.inside = false := by
  cases p <;> first | rfl | cases h

/-- `cond` with its mutex -/
def cond : Cond Pc where
  inside := Pc.inside
  blocked := Pc.isBlocked
  notifies := Pc.signals
  woken := .woken
  blocked_outside := Pc.blocked_outside
  woken_outside := rfl
  woken_awake := rfl

structure State (τ : Type*) extends Threads τ Pc where
  nodes : Nodes

/-- `main`, with any number of threads of the two kinds -/
def State.init (role : τ → Role) : State τ := ⟨⟨none, fun t => Role.start (role t)⟩, Nodes.empty⟩

inductive Op (τ : Type*) where
  /-- the thread executes its next statement; `rand` is the value of `rand()` if it is called -/
  | next (t : τ) (rand : ℕ)
  /-- the thread executes `pthread_cond_signal`, which wakes the sleepers among `W` -/
  | signal (t : τ) (W : τ → Bool)
  /-- `pthread_cond_wait` returns by itself -/
  | wake (t : τ)

variable [DecidableEq τ]

def next (s : State τ) (t : τ) (rand : ℕ) : Option (State τ) :=
  match s.pc t with
  | .producerLock => (s.lock t .producerLink).map fun θ => { s with toThreads := θ }
  | .producerLink => some { s with toThreads := s.goto t (.producerStore s.nodes.head) }
  | .producerStore next =>
    some { s with toThreads := s.goto t .producerSignal, nodes := s.nodes.insert next rand }
  | .producerUnlock => some { s with toThreads := s.unlock t .producerLock }
  | .customerLock => (s.lock t .customerTest).map fun θ => { s with toThreads := θ }
  | .customerTest =>
    some { s with toThreads := s.goto t (if s.nodes.head.isEmpty then .customerWait else .customerHead) }
  | .customerHead => some { s with toThreads := s.goto t (.customerUnlink s.nodes.head.head?) }
  | .customerUnlink tmp =>
    match s.nodes.unlink tmp with
    | some nodes => some { s with toThreads := s.goto t .customerUnlock, nodes := nodes }
    | none => some { s with toThreads := s.goto t .crashed }
  | .customerWait => some { s with toThreads := s.unlock t .blocked }
  | .woken => (s.lock t .customerUnlock).map fun θ => { s with toThreads := θ }
  | .customerUnlock => some { s with toThreads := s.unlock t .customerLock }
  | .producerSignal | .blocked | .crashed => none

/-- `pthread_cond_signal` wakes at least one sleeper if there is one -/
def wakesSome [Fintype τ] (W : τ → Bool) (pc : τ → Pc) : Bool :=
  decide ((∀ u, (pc u).isBlocked = false) ∨ ∃ u, W u = true ∧ (pc u).isBlocked = true)

def step [Fintype τ] (s : State τ) : Op τ → Option (State τ)
  | .next t rand => next s t rand
  | .signal t W =>
    match s.pc t with
    | .producerSignal =>
      if wakesSome W s.pc then some { s with toThreads := cond.wake W (s.goto t .producerUnlock) } else none
    | _ => none
  | .wake t =>
    match s.pc t with
    | .blocked => some { s with toThreads := s.goto t .woken }
    | _ => none

/-! ## Invariant -/

/-- what a statement presumes about the list -/
def Fact (nodes : Nodes) : Pc → Prop
  | .producerStore next => next = nodes.head
  | .customerHead => nodes.head ≠ []
  | .customerUnlink tmp => nodes.head ≠ [] ∧ tmp = nodes.head.head?
  | .customerWait => nodes.head = []
  | .crashed => False
  | _ => True

theorem Fact.outside {nodes nodes' : Nodes} (p : Pc) (hp : p.inside = false) (h : Fact nodes p) : Fact nodes' p := by
  cases p <;> first | exact h | cases hp

structure Inv (role : τ → Role) (s : State τ) : Prop where
  holds : Holds Pc.inside s.toThreads
  roles : ∀ t, (s.pc t).role = role t
  facts : ∀ t, Fact s.nodes (s.pc t)
  conserved : Conserved s.nodes
  /-- beside a node some customer is awake, or the producer of the node is about to signal -/
  served : cond.Served (fun t => role t = .customer) (s.nodes.head ≠ []) s.pc

omit [DecidableEq τ] in
theorem inv_init (role : τ → Role) : Inv role (State.init role) where
  holds := holds_start fun t => by cases role t <;> rfl
  roles := fun t => by
    unfold State.init
    dsimp only
    cases role t <;> rfl
  facts := fun t => by
    unfold State.init
    dsimp only
    cases role t <;> trivial
  conserved := conserved_empty
  served := fun h => absurd rfl h

variable {role : τ → Role} {s s' : State τ} {t : τ} {p : Pc}

/-- a thread moves on where it was, inside or outside the critical section -/
theorem Inv.goto (h : Inv role s) (ht : (s.pc t).signals = false) (hp : p.isBlocked = false)
    (hin : p.inside = (s.pc t).inside) (hrole : p.role = (s.pc t).role) (hf : Fact s.nodes p) :
    Inv role { s with toThreads := s.goto t p } where
  holds := h.holds.goto hin
  roles := roles_update h.roles hrole
  facts := forall_update h.facts hf
  conserved := h.conserved
  served := h.served.update ht hp id

theorem Inv.lock (h : Inv role s) (ht : (s.pc t).signals = false) (hp : p.isBlocked = false) (hin : p.inside = true)
    (hrole : p.role = (s.pc t).role) (hf : Fact s.nodes p)
    (hs : (s.lock t p).map (fun θ => { s with toThreads := θ }) = some s') : Inv role s' := by
  obtain ⟨θ, hl, rfl⟩ := Option.map_eq_some_iff.mp hs
  have hholds := h.holds.lock hin hl
  obtain ⟨-, rfl⟩ := Threads.lock_some hl
  exact ⟨hholds, roles_update h.roles hrole, forall_update h.facts hf, h.conserved, h.served.update ht hp id⟩

theorem Inv.unlock (h : Inv role s) (ht : (s.pc t).inside = true) (hsig : (s.pc t).signals = false)
    (hp : p.isBlocked = false) (hin : p.inside = false) (hrole : p.role = (s.pc t).role) (hf : Fact s.nodes p) :
    Inv role { s with toThreads := s.unlock t p } where
  holds := h.holds.unlock ht hin
  roles := roles_update h.roles hrole
  facts := forall_update h.facts hf
  conserved := h.conserved
  served := h.served.update hsig hp id

/-- the insertion at `head`: the signal is the producer's next statement -/
theorem Inv.insert (h : Inv role s) {next : List Node} (ht : s.pc t = .producerStore next) (rand : ℕ) :
    Inv role { s with toThreads := s.goto t .producerSignal, nodes := s.nodes.insert next rand } := by
  have hnext : next = s.nodes.head := by simpa [ht, Fact] using h.facts t
  subst hnext
  exact {
    holds := h.holds.goto (by rw [ht]; rfl)
    roles := roles_update h.roles (by rw [ht]; rfl)
    facts := h.holds.write Fact.outside h.facts (by rw [ht]; rfl) trivial
    conserved := h.conserved.insert rand
    served := Cond.served_notifies rfl }

/-- the removal of `head`, which the customer has found not null -/
theorem Inv.unlink (h : Inv role s) {tmp : Option Node} (ht : s.pc t = .customerUnlink tmp)
    (hs : (match s.nodes.unlink tmp with
      | some nodes => some { s with toThreads := s.goto t .customerUnlock, nodes := nodes }
      | none => some { s with toThreads := s.goto t .crashed }) = some s') : Inv role s' := by
  obtain ⟨hne, htmp⟩ : s.nodes.head ≠ [] ∧ tmp = s.nodes.head.head? := by simpa [ht, Fact] using h.facts t
  subst htmp
  obtain ⟨nodes, hn⟩ := Nodes.unlink_isSome hne
  rw [hn] at hs
  cases hs
  exact {
    holds := h.holds.goto (by rw [ht]; rfl)
    roles := roles_update h.roles (by rw [ht]; rfl)
    facts := h.holds.write Fact.outside h.facts (by rw [ht]; rfl) trivial
    conserved := h.conserved.unlink hn
    served := h.served.update (by rw [ht]; rfl) rfl fun _ => hne }

/-- a customer goes to sleep only beside an empty list -/
theorem Inv.wait (h : Inv role s) (ht : s.pc t = .customerWait) :
    Inv role { s with toThreads := s.unlock t .blocked } where
  holds := h.holds.unlock (by rw [ht]; rfl) rfl
  roles := roles_update h.roles (by rw [ht]; rfl)
  facts := forall_update h.facts trivial
  conserved := h.conserved
  served := fun hne => by
    have hempty := h.facts t
    rw [ht] at hempty
    exact absurd hempty hne

theorem Inv.next {rand : ℕ} (h : Inv role s) (hs : CondVar.next s t rand = some s') : Inv role s' := by
  unfold CondVar.next at hs
  cases ht : s.pc t with
  | producerLock =>
    rw [ht] at hs
    exact h.lock (p := .producerLink) (by rw [ht]; rfl) rfl rfl (by rw [ht]; rfl) trivial hs
  | producerLink =>
    rw [ht] at hs
    cases hs
    exact h.goto (by rw [ht]; rfl) rfl (by rw [ht]; rfl) (by rw [ht]; rfl) rfl
  | producerStore next =>
    rw [ht] at hs
    cases hs
    exact h.insert ht rand
  | producerUnlock =>
    rw [ht] at hs
    cases hs
    exact h.unlock (by rw [ht]; rfl) (by rw [ht]; rfl) rfl rfl (by rw [ht]; rfl) trivial
  | customerLock =>
    rw [ht] at hs
    exact h.lock (p := .customerTest) (by rw [ht]; rfl) rfl rfl (by rw [ht]; rfl) trivial hs
  | customerTest =>
    rw [ht] at hs
    cases hs
    split_ifs with hempty
    · exact h.goto (by rw [ht]; rfl) rfl (by rw [ht]; rfl) (by rw [ht]; rfl) (List.isEmpty_iff.mp hempty)
    · exact h.goto (by rw [ht]; rfl) rfl (by rw [ht]; rfl) (by rw [ht]; rfl) fun h0 => hempty (List.isEmpty_iff.mpr h0)
  | customerHead =>
    have hne := h.facts t
    rw [ht] at hs hne
    cases hs
    exact h.goto (by rw [ht]; rfl) rfl (by rw [ht]; rfl) (by rw [ht]; rfl) ⟨hne, rfl⟩
  | customerUnlink tmp =>
    rw [ht] at hs
    exact h.unlink ht hs
  | customerWait =>
    rw [ht] at hs
    cases hs
    exact h.wait ht
  | woken =>
    rw [ht] at hs
    exact h.lock (p := .customerUnlock) (by rw [ht]; rfl) rfl rfl (by rw [ht]; rfl) trivial hs
  | customerUnlock =>
    rw [ht] at hs
    cases hs
    exact h.unlock (by rw [ht]; rfl) (by rw [ht]; rfl) rfl rfl (by rw [ht]; rfl) trivial
  | producerSignal => rw [ht] at hs; cases hs
  | blocked => rw [ht] at hs; cases hs
  | crashed => rw [ht] at hs; cases hs

/-- **Every step keeps the invariant**, if there is a customer at all. -/
theorem Inv.step [Fintype τ] {op : Op τ} (hc : ∃ c, role c = .customer) (h : Inv role s)
    (hs : CondVar.step s op = some s') : Inv role s' := by
  cases op with
  | next t rand => exact h.next hs
  | signal t W =>
    simp only [CondVar.step] at hs
    split at hs
    · rename_i ht
      split_ifs at hs with hW
      cases hs
      have hsleeper : ∀ u, (s.pc u).isBlocked = true → role u = .customer :=
        fun u hu => (h.roles u).symm.trans (Pc.role_blocked _ hu)
      exact {
        holds := Holds.wake cond (h.holds.goto (by rw [ht]; rfl)) W
        roles := cond.roles_wake (roles_update h.roles (by rw [ht]; rfl)) Pc.role_blocked
        facts := cond.forall_wake (forall_update h.facts trivial) trivial
        conserved := h.conserved
        served := Cond.Served.wake hc hsleeper rfl (of_decide_eq_true hW) }
    · cases hs
  | wake t =>
    simp only [CondVar.step] at hs
    split at hs
    · rename_i ht
      cases hs
      exact h.goto (by rw [ht]; rfl) rfl (by rw [ht]; rfl) (by rw [ht]; rfl) trivial
    · cases hs

theorem run_inv [Fintype τ] {ops : List (Op τ)} (hc : ∃ c, role c = .customer)
    (h : Run.exec step (State.init role) ops = some s) : Inv role s :=
  Run.exec_inv (fun _ _ _ hs => hs.step hc) (inv_init role) h

/-! ## Main result -/

/-- **The program with a condition variable.** In every state of every run with at least one customer: if the list is not
empty, some customer is awake, except inside the critical section of a producer whose next statement is the signal for
its node; so some customer is awake whenever the mutex is free. No customer finds a null `head` in its removal, and the
nodes produced are those removed and those in the list, each exactly once. -/
theorem cond_run [Fintype τ] {ops : List (Op τ)} (hc : ∃ c, role c = .customer)
    (h : Run.exec step (State.init role) ops = some s) :
    (s.mutex = none → s.nodes.head ≠ [] → ∃ t, role t = .customer ∧ s.pc t ≠ .blocked) ∧
    (s.nodes.head ≠ [] → (∃ t, role t = .customer ∧ s.pc t ≠ .blocked) ∨
      ∃ u, s.mutex = some u ∧ s.pc u = .producerSignal) ∧
    (∀ t, s.pc t ≠ .crashed) ∧
    (s.nodes.removed ++ s.nodes.head).Perm s.nodes.produced ∧ s.nodes.produced.Nodup := by
  have hinv := run_inv hc h
  have hserved : s.nodes.head ≠ [] → (∃ t, role t = .customer ∧ s.pc t ≠ .blocked) ∨
      ∃ u, s.mutex = some u ∧ s.pc u = .producerSignal := by
    intro hne
    rcases hinv.served hne with ⟨t, hrole, ht⟩ | ⟨u, hu⟩
    · refine Or.inl ⟨t, hrole, fun hb => ?_⟩
      rw [hb] at ht
      cases ht
    · have hsig := Pc.signals_eq _ hu
      exact Or.inr ⟨u, (hinv.holds u).mp (by rw [hsig]; rfl), hsig⟩
  refine ⟨fun hm hne => ?_, hserved, fun t ht => ?_, hinv.conserved.perm, hinv.conserved.nodup⟩
  · apply (hserved hne).resolve_right
    rintro ⟨u, hu, -⟩
    cases hm.symm.trans hu
  · have hfact := hinv.facts t
    rw [ht] at hfact
    exact hfact

/-- `true` is a producer, `false` a customer -/
def pair (t : Bool) : Role := if t then .producer else .customer

/-- the customer sleeps beside the empty list; the producer then inserts a node, signals and leaves -/
def signalRun : Option (State Bool) :=
  Run.exec step (State.init pair)
    [.next false 0, .next false 0, .next false 0, .next true 300, .next true 300, .next true 300,
      .signal true fun _ => true, .next true 300]

theorem signalRun_isSome : signalRun.isSome = true := by decide +kernel

theorem cond_signalRun :
    (signalRun.get signalRun_isSome).mutex = none ∧
    (signalRun.get signalRun_isSome).nodes.head = [⟨0, 44⟩] ∧
    ∃ t, pair t = .customer ∧ (signalRun.get signalRun_isSome).pc t ≠ .blocked :=
  ⟨by decide +kernel, by decide +kernel,
    (cond_run ⟨false, rfl⟩ (Option.some_get signalRun_isSome).symm).1 (by decide +kernel) (by decide +kernel)⟩

/-- the same, with the producer between `head = newnode` and `pthread_cond_signal` -/
def insertedRun : Option (State Bool) :=
  Run.exec step (State.init pair)
    [.next false 0, .next false 0, .next false 0, .next true 300, .next true 300, .next true 300]

theorem insertedRun_isSome : insertedRun.isSome = true := by decide +kernel

/-- **A node and no customer awake.** The only customer sleeps, and the producer has not signalled yet. -/
theorem insertedRun_blocked :
    (insertedRun.get insertedRun_isSome).nodes.head ≠ [] ∧
    ∀ t, pair t = .customer → (insertedRun.get insertedRun_isSome).pc t = .blocked := by
  decide +kernel

end WebServer.Lesson30.CondVar
