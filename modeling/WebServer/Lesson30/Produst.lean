/-
The producer-consumer program with a mutex only (lesson30/produst.c): a `customer` that finds the list empty unlocks and
tries again.

Each statement that touches shared data is one step, and the steps of any number of producers and customers interleave
arbitrarily. A null pointer that is followed makes its thread `crashed`. Printing and sleeping are left out.

- `Stacked`: the list holds the nodes from the newest to the oldest.
- `produst_run`: no node is lost or removed twice, no null pointer is followed, a customer always gets the newest node in
  the list, and some thread can always go on.
-/
import WebServer.Core.Monitor
import WebServer.Core.Run
import WebServer.Lesson30.Nodes

namespace WebServer.Lesson30.Produst

open WebServer.Monitor

variable {τ : Type*}

/-! ## Model -/

/-- the statement a thread executes next -/
inductive Pc where
  | producerLock
  /-- `newnode->next = head` -/
  | producerLink
  /-- `head = newnode` -/
  | producerStore (next : List Node)
  | producerUnlock
  | customerLock
  /-- `if (head != NULL)` -/
  | customerCheck
  /-- `tmp = head` -/
  | customerHead
  /-- `head = head->next` and `free(tmp)` -/
  | customerUnlink (tmp : Option Node)
  | customerUnlock
  | crashed
deriving DecidableEq, Repr

def Pc.inside : Pc → Bool
  | .producerLink | .producerStore _ | .producerUnlock => true
  | .customerCheck | .customerHead | .customerUnlink _ | .customerUnlock => true
  | _ => false

/-- the first statement of the loop -/
def start : Role → Pc
  | .producer => .producerLock
  | .customer => .customerLock

structure State (τ : Type*) extends Threads τ Pc where
  nodes : Nodes

/-- `main`, with any number of threads of the two kinds -/
def State.init (role : τ → Role) : State τ := ⟨⟨none, fun t => start (role t)⟩, Nodes.empty⟩

/-- the next statement of a thread; `rand` is the value of `rand()` if it is called -/
structure Op (τ : Type*) where
  thread : τ
  rand : ℕ

variable [DecidableEq τ]

def step (s : State τ) : Op τ → Option (State τ)
  | ⟨t, rand⟩ =>
    match s.pc t with
    | .producerLock => (s.lock t .producerLink).map fun θ => { s with toThreads := θ }
    | .producerLink => some { s with toThreads := s.goto t (.producerStore s.nodes.head) }
    | .producerStore next => some { toThreads := s.goto t .producerUnlock, nodes := s.nodes.insert next rand }
    | .producerUnlock => some { s with toThreads := s.unlock t .producerLock }
    | .customerLock => (s.lock t .customerCheck).map fun θ => { s with toThreads := θ }
    | .customerCheck =>
      match s.nodes.head with
      | [] => some { s with toThreads := s.goto t .customerUnlock }
      | _ :: _ => some { s with toThreads := s.goto t .customerHead }
    | .customerHead => some { s with toThreads := s.goto t (.customerUnlink s.nodes.head.head?) }
    | .customerUnlink tmp =>
      match s.nodes.unlink tmp with
      | some nodes => some { toThreads := s.goto t .customerUnlock, nodes := nodes }
      | none => some { s with toThreads := s.goto t .crashed }
    | .customerUnlock => some { s with toThreads := s.unlock t .customerLock }
    | .crashed => none

/-! ## The order of the list -/

/-- the list holds the nodes from the newest to the oldest -/
structure Stacked (n : Nodes) : Prop where
  newest_first : n.head.Pairwise fun a b => b.serial < a.serial
  serials_lt : ∀ node ∈ n.head, node.serial < n.produced.length

theorem stacked_empty : Stacked Nodes.empty := ⟨List.Pairwise.nil, by simp [Nodes.empty]⟩

theorem Stacked.insert {n : Nodes} (h : Stacked n) (rand : ℕ) : Stacked (n.insert n.head rand) where
  newest_first := List.pairwise_cons.mpr ⟨h.serials_lt, h.newest_first⟩
  serials_lt := by
    intro node hnode
    have hlength : (n.insert n.head rand).produced.length = n.produced.length + 1 := by simp [Nodes.insert]
    rw [hlength]
    rcases List.mem_cons.mp hnode with rfl | hold
    · exact Nat.lt_succ_self _
    · exact (h.serials_lt node hold).trans (Nat.lt_succ_self _)

theorem Stacked.unlink {n n' : Nodes} {tmp : Option Node} (h : Stacked n) (hn : n.unlink tmp = some n') :
    Stacked n' := by
  unfold Nodes.unlink at hn
  split at hn
  · rename_i node rest tmp' hhead
    cases hn
    have hall := h.newest_first
    rw [hhead] at hall
    refine ⟨(List.pairwise_cons.mp hall).2, fun other hother => h.serials_lt other ?_⟩
    rw [hhead]
    exact List.mem_cons_of_mem node hother
  · cases hn

/-! ## Invariant -/

/-- what a statement presumes about the list -/
def Fact (nodes : Nodes) : Pc → Prop
  | .producerStore next => next = nodes.head
  | .customerHead => nodes.head ≠ []
  | .customerUnlink tmp => nodes.head ≠ [] ∧ tmp = nodes.head.head?
  | .crashed => False
  | _ => True

theorem Fact.outside {nodes nodes' : Nodes} (p : Pc) (hp : p.inside = false) (h : Fact nodes p) : Fact nodes' p := by
  cases p <;> first | exact h | cases hp

structure Inv (s : State τ) : Prop where
  holds : Holds Pc.inside s.toThreads
  facts : ∀ t, Fact s.nodes (s.pc t)
  conserved : Conserved s.nodes
  stacked : Stacked s.nodes

variable {s s' : State τ} {t : τ} {p : Pc} {nodes : Nodes}

omit [DecidableEq τ] in
theorem inv_init (role : τ → Role) : Inv (State.init role) where
  holds := holds_start fun t => by cases role t <;> rfl
  facts := fun t => by
    unfold State.init
    dsimp only
    cases role t <;> trivial
  conserved := conserved_empty
  stacked := stacked_empty

/-- a statement that leaves mutex and list alone -/
theorem Inv.goto (h : Inv s) (hin : p.inside = (s.pc t).inside) (hf : Fact s.nodes p) :
    Inv { s with toThreads := s.goto t p } :=
  ⟨h.holds.goto hin, forall_update h.facts hf, h.conserved, h.stacked⟩

theorem Inv.lock (h : Inv s) (hin : p.inside = true) (hf : Fact s.nodes p)
    (hs : (s.lock t p).map (fun θ => { s with toThreads := θ }) = some s') : Inv s' := by
  obtain ⟨θ, hl, rfl⟩ := Option.map_eq_some_iff.mp hs
  have hholds := h.holds.lock hin hl
  obtain ⟨-, rfl⟩ := Threads.lock_some hl
  exact ⟨hholds, forall_update h.facts hf, h.conserved, h.stacked⟩

theorem Inv.unlock (h : Inv s) (ht : (s.pc t).inside = true) (hin : p.inside = false) (hf : Fact s.nodes p) :
    Inv { s with toThreads := s.unlock t p } :=
  ⟨h.holds.unlock ht hin, forall_update h.facts hf, h.conserved, h.stacked⟩

/-- a statement that changes the list -/
theorem Inv.write (h : Inv s) (ht : (s.pc t).inside = true) (hin : p.inside = true) (hf : Fact nodes p)
    (hconserved : Conserved nodes) (hstacked : Stacked nodes) : Inv ⟨s.goto t p, nodes⟩ :=
  ⟨h.holds.goto (hin.trans ht.symm), h.holds.write Fact.outside h.facts ht hf, hconserved, hstacked⟩

/-- the removal of `head`, which the test has found not null -/
theorem Inv.unlink {tmp : Option Node} (h : Inv s) (ht : s.pc t = .customerUnlink tmp) :
    ∃ nodes, s.nodes.unlink tmp = some nodes ∧ Inv ⟨s.goto t .customerUnlock, nodes⟩ := by
  obtain ⟨hhead, rfl⟩ : s.nodes.head ≠ [] ∧ tmp = s.nodes.head.head? := by simpa [ht, Fact] using h.facts t
  obtain ⟨nodes, hn⟩ := Nodes.unlink_isSome hhead
  exact ⟨nodes, hn, h.write (by rw [ht]; rfl) rfl trivial (h.conserved.unlink hn) (h.stacked.unlink hn)⟩

/-- **Every step keeps the invariant.** -/
theorem Inv.step {op : Op τ} (h : Inv s) (hs : Produst.step s op = some s') : Inv s' := by
  obtain ⟨t, rand⟩ := op
  have hf := h.facts t
  unfold Produst.step at hs
  dsimp only at hs
  cases ht : s.pc t with
  | producerLock =>
    rw [ht] at hs
    exact h.lock (p := .producerLink) rfl trivial hs
  | producerLink =>
    rw [ht] at hs
    cases hs
    exact h.goto (by rw [ht]; rfl) rfl
  | producerStore next =>
    rw [ht] at hs hf
    obtain rfl : next = s.nodes.head := hf
    cases hs
    exact h.write (by rw [ht]; rfl) rfl trivial (h.conserved.insert rand) (h.stacked.insert rand)
  | producerUnlock =>
    rw [ht] at hs
    cases hs
    exact h.unlock (by rw [ht]; rfl) rfl trivial
  | customerLock =>
    rw [ht] at hs
    exact h.lock (p := .customerCheck) rfl trivial hs
  | customerCheck =>
    rw [ht] at hs
    dsimp only at hs
    split at hs
    · cases hs
      exact h.goto (by rw [ht]; rfl) trivial
    · rename_i node rest hhead
      cases hs
      exact h.goto (by rw [ht]; rfl) (by simp [Fact, hhead])
  | customerHead =>
    rw [ht] at hs hf
    cases hs
    exact h.goto (by rw [ht]; rfl) ⟨hf, rfl⟩
  | customerUnlink tmp =>
    obtain ⟨nodes, hn, hinv⟩ := h.unlink ht
    rw [ht] at hs
    dsimp only at hs
    rw [hn] at hs
    cases hs
    exact hinv
  | customerUnlock =>
    rw [ht] at hs
    cases hs
    exact h.unlock (by rw [ht]; rfl) rfl trivial
  | crashed =>
    rw [ht] at hs
    cases hs

theorem run_inv {role : τ → Role} {ops : List (Op τ)} (h : Run.exec Produst.step (State.init role) ops = some s) :
    Inv s :=
  Run.exec_inv (fun _ _ _ hs => hs.step) (inv_init role) h

/-- a thread that has not crashed blocks only where it takes the mutex -/
theorem step_isSome (rand : ℕ) (hcrashed : s.pc t ≠ .crashed)
    (hlock : s.pc t = .producerLock ∨ s.pc t = .customerLock → s.mutex = none) :
    (Produst.step s ⟨t, rand⟩).isSome = true := by
  unfold Produst.step
  dsimp only
  cases ht : s.pc t with
  | producerLock => simp [Threads.lock, hlock (Or.inl ht)]
  | customerLock => simp [Threads.lock, hlock (Or.inr ht)]
  | customerCheck =>
    dsimp only
    split <;> rfl
  | customerUnlink tmp =>
    dsimp only
    split <;> rfl
  | crashed => exact absurd ht hcrashed
  | _ => rfl

/-! ## Main result -/

/-- **The program with a mutex only.** In every state of every run, for any producers and customers: the nodes produced are
those removed and those in the list, each exactly once; the list is ordered from the newest to the oldest node, so that a
node is only removed when all later ones are gone; no thread follows a null pointer; and some thread can go on. -/
theorem produst_run [Nonempty τ] {role : τ → Role} {ops : List (Op τ)}
    (h : Run.exec Produst.step (State.init role) ops = some s) :
    (s.nodes.removed ++ s.nodes.head).Perm s.nodes.produced ∧ s.nodes.produced.Nodup ∧
    (s.nodes.head.Pairwise fun a b => b.serial < a.serial) ∧ (∀ t, s.pc t ≠ .crashed) ∧
    ∃ t, ∀ rand, (Produst.step s ⟨t, rand⟩).isSome = true := by
  have hinv := run_inv h
  have hsafe : ∀ t, s.pc t ≠ .crashed := by
    intro t ht
    have hf := hinv.facts t
    rw [ht] at hf
    exact hf
  refine ⟨hinv.conserved.perm, hinv.conserved.nodup, hinv.stacked.newest_first, hsafe, ?_⟩
  apply hinv.holds.someone
  · intro t ht rand
    refine step_isSome rand (hsafe t) fun hat => ?_
    rcases hat with hat | hat <;> rw [hat] at ht <;> cases ht
  · intro hm t rand
    exact step_isSome rand (hsafe t) fun _ => hm

/-- two nodes are produced, the customer has removed the second one -/
def stackRun : Option (State Bool) :=
  Run.exec Produst.step (State.init fun t => if t then .producer else .customer)
    ([true, true, true, true, true, true, true, true, false, false, false, false, false].map fun t => ⟨t, 300⟩)

theorem stackRun_isSome : stackRun.isSome = true := by decide +kernel

theorem produst_run_two :
    ((stackRun.get stackRun_isSome).nodes.removed ++ (stackRun.get stackRun_isSome).nodes.head).Perm
      (stackRun.get stackRun_isSome).nodes.produced ∧
    (stackRun.get stackRun_isSome).nodes.removed = [⟨1, 44⟩] :=
  ⟨(produst_run (Option.some_get stackRun_isSome).symm).1, by decide +kernel⟩

end WebServer.Lesson30.Produst
