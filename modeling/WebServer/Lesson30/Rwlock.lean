/-
Writers and readers of one counter behind a read-write lock (lesson30/rwlock.c and its version in lesson30/example).

Each access to `num` is one step, `num++` is a load and a store, and the steps of any number of writers and readers
interleave arbitrarily. The printed lines are recorded in their order. An increment beyond the largest `int` is undefined
and ends the run. The identifiers of the threads in the lines and the times of `usleep` are left out.

- `counter`: what the lines should look like. A write shows the next number, a read shows the last number written.
- `Inv`: the lines so far are a run of the counter; only a writer between its store and its line is ahead of them.
- `rwlock_refines`: in every interleaving the lines are a run of the counter, and some thread can go on.
-/
import WebServer.Core.Monitor
import WebServer.Core.RwLock

namespace WebServer.Lesson30.Rwlock

open WebServer.RwLock

variable {τ : Type*}

/-! ## Model -/

inductive Line where
  /-- `++write, … num : n` -/
  | write (n : ℤ)
  /-- `===read, … num : n` -/
  | read (n : ℤ)
deriving DecidableEq, Repr

/-- the statement a thread executes next -/
inductive Pc where
  /-- `pthread_rwlock_wrlock` -/
  | writeLock
  | writeLoad
  /-- stores `value + 1` -/
  | writeStore (value : ℤ)
  | writePrint
  | writeUnlock
  /-- `pthread_rwlock_rdlock` -/
  | readLock
  | readPrint
  | readUnlock
deriving DecidableEq, Repr

def Pc.reads : Pc → Bool
  | .readPrint | .readUnlock => true
  | _ => false

def Pc.writes : Pc → Bool
  | .writeLoad | .writeStore _ | .writePrint | .writeUnlock => true
  | _ => false

theorem Pc.not_reads {p : Pc} (hp : p.writes = true) : p.reads = false := by
  cases p <;> first | rfl | cases hp

def sections : Sections Pc where
  reads := Pc.reads
  writes := Pc.writes
  not_both := fun p hp => by cases p <;> first | rfl | cases hp

/-- the two kinds of threads that `main` creates -/
inductive Role where
  | writer
  | reader
deriving DecidableEq, Repr

/-- the first statement of the loop -/
def Role.start : Role → Pc
  | .writer => .writeLock
  | .reader => .readLock

structure State (τ : Type*) extends Threads τ Pc where
  num : ℤ
  lines : List Line

/-- `main`, with any number of threads of the two kinds -/
def State.init (role : τ → Role) : State τ := ⟨⟨none, 0, fun t => (role t).start⟩, 1, []⟩

variable [DecidableEq τ]

/-- the next statement of a thread -/
def step (s : State τ) (t : τ) : Option (State τ) :=
  match s.pc t with
  | .writeLock => (s.wrlock t .writeLoad).map fun θ => { s with toThreads := θ }
  | .writeLoad => some { s with toThreads := s.goto t (.writeStore s.num) }
  | .writeStore value =>
    if value + 1 < 2 ^ 31 then some { s with toThreads := s.goto t .writePrint, num := value + 1 } else none
  | .writePrint => some { s with toThreads := s.goto t .writeUnlock, lines := s.lines ++ [.write s.num] }
  | .writeUnlock => some { s with toThreads := s.unlock t .writeLock }
  | .readLock => (s.rdlock t .readPrint).map fun θ => { s with toThreads := θ }
  | .readPrint => some { s with toThreads := s.goto t .readUnlock, lines := s.lines ++ [.read s.num] }
  | .readUnlock => some { s with toThreads := s.unlock t .readLock }

/-! ## The counter -/

/-- what the next line may be, where `n` is the number last written -/
def counter (n : ℤ) : Line → Option ℤ
  | .write m => if m = n + 1 then some m else none
  | .read m => if m = n then some n else none

theorem exec_snoc {n n' m : ℤ} {lines : List Line} {line : Line} (h : Run.exec counter n lines = some m)
    (hline : counter m line = some n') : Run.exec counter n (lines ++ [line]) = some n' := by
  rw [Run.exec_append h]
  simp [Run.exec, hline]

/-! ## Invariant -/

/-- what a statement presumes about `num` and the number last shown -/
def Fact (d : ℤ × ℤ) : Pc → Prop
  | .writeLoad | .writeUnlock => d.1 = d.2
  | .writeStore value => value = d.1 ∧ d.1 = d.2
  | .writePrint => d.1 = d.2 + 1
  | _ => True

theorem Fact.outside {d d' : ℤ × ℤ} (p : Pc) (_ : p.reads = false) (hw : p.writes = false) (h : Fact d p) :
    Fact d' p := by
  cases p <;> first | exact h | cases hw

structure Inv [Fintype τ] (last : ℤ) (s : State τ) : Prop where
  locked : Locked sections s.toThreads
  lines : Run.exec counter 1 s.lines = some last
  facts : ∀ t, Fact (s.num, last) (s.pc t)
  settled : s.writer = none → s.num = last

variable [Fintype τ] {s s' : State τ} {t : τ} {p : Pc} {last : ℤ}

omit [DecidableEq τ] in
theorem inv_init (role : τ → Role) : Inv 1 (State.init role) where
  locked := locked_start (fun t => by cases role t <;> rfl) (fun t => by cases role t <;> rfl)
  lines := rfl
  facts := fun t => by
    unfold State.init
    dsimp only
    cases role t <;> trivial
  settled := fun _ => rfl

/-- a thread with the lock for writing goes on -/
theorem Inv.write {num last' : ℤ} {lines : List Line} (h : Inv last s) (ht : (s.pc t).writes = true)
    (hp : p.writes = true) (hlines : Run.exec counter 1 lines = some last') (hf : Fact (num, last') p) :
    Inv last' { toThreads := s.goto t p, num := num, lines := lines } where
  locked := h.locked.goto ((Pc.not_reads hp).trans (Pc.not_reads ht).symm) (hp.trans ht.symm)
  lines := hlines
  facts := h.locked.write Fact.outside h.facts ht hf
  settled := fun hnone => by cases hnone.symm.trans ((h.locked.writer t).mp ht)

theorem Inv.wrlock (h : Inv last s)
    (hs : (s.wrlock t .writeLoad).map (fun θ => { s with toThreads := θ }) = some s') : Inv last s' := by
  obtain ⟨θ, hl, rfl⟩ := Option.map_eq_some_iff.mp hs
  have hlocked := h.locked.wrlock rfl hl
  obtain ⟨hw, -, rfl⟩ := Threads.wrlock_some hl
  exact ⟨hlocked, h.lines, Monitor.forall_update h.facts (h.settled hw), nofun⟩

theorem Inv.rdlock (h : Inv last s) (ht : s.pc t = .readLock)
    (hs : (s.rdlock t .readPrint).map (fun θ => { s with toThreads := θ }) = some s') : Inv last s' := by
  obtain ⟨θ, hl, rfl⟩ := Option.map_eq_some_iff.mp hs
  have hlocked := h.locked.rdlock (by rw [ht]; rfl) rfl hl
  obtain ⟨hw, rfl⟩ := Threads.rdlock_some hl
  exact ⟨hlocked, h.lines, Monitor.forall_update h.facts trivial, fun _ => h.settled hw⟩

/-- a thread gives the lock back, and no writer is ahead of its line -/
theorem Inv.unlock (h : Inv last s) (hlocked : Locked sections (s.unlock t p)) (hf : Fact (s.num, last) p)
    (hnum : s.num = last) : Inv last { s with toThreads := s.unlock t p } where
  locked := hlocked
  lines := h.lines
  facts := by
    rw [Threads.unlock_pc]
    exact Monitor.forall_update h.facts hf
  settled := fun _ => hnum

/-- the line of a reader shows what was last written, because no writer is ahead of its line -/
theorem Inv.readPrint (h : Inv last s) (ht : s.pc t = .readPrint) :
    Inv last { s with toThreads := s.goto t .readUnlock, lines := s.lines ++ [.read s.num] } := by
  have hnum : s.num = last := h.settled (h.locked.reading (t := t) (by rw [ht]; rfl))
  refine ⟨h.locked.goto (by rw [ht]; rfl) (by rw [ht]; rfl), ?_, Monitor.forall_update h.facts trivial, h.settled⟩
  exact exec_snoc h.lines (by simp [counter, hnum])

/-- **Every step keeps the invariant.** -/
theorem Inv.step (h : Inv last s) (hs : Rwlock.step s t = some s') : ∃ last', Inv last' s' := by
  have hf := h.facts t
  unfold Rwlock.step at hs
  cases ht : s.pc t with
  | writeLock =>
    rw [ht] at hs
    exact ⟨last, h.wrlock hs⟩
  | writeLoad =>
    rw [ht] at hs hf
    cases hs
    exact ⟨last, h.write (by rw [ht]; rfl) rfl h.lines ⟨rfl, hf⟩⟩
  | writeStore value =>
    rw [ht] at hs hf
    obtain ⟨rfl, hnum⟩ := hf
    dsimp only at hs
    split_ifs at hs
    cases hs
    exact ⟨last, h.write (by rw [ht]; rfl) rfl h.lines (congrArg (· + 1) hnum)⟩
  | writePrint =>
    rw [ht] at hs hf
    cases hs
    have hline : counter last (.write s.num) = some s.num := if_pos hf
    exact ⟨s.num, h.write (by rw [ht]; rfl) rfl (exec_snoc h.lines hline) rfl⟩
  | writeUnlock =>
    rw [ht] at hs hf
    cases hs
    exact ⟨last, h.unlock (h.locked.wrunlock (by rw [ht]; rfl) rfl rfl) trivial hf⟩
  | readLock =>
    rw [ht] at hs
    exact ⟨last, h.rdlock ht hs⟩
  | readPrint =>
    rw [ht] at hs
    cases hs
    exact ⟨last, h.readPrint ht⟩
  | readUnlock =>
    rw [ht] at hs
    cases hs
    have hreads : sections.reads (s.pc t) = true := by rw [ht]; rfl
    exact ⟨last, h.unlock (h.locked.rdunlock hreads rfl rfl) trivial (h.settled (h.locked.reading hreads))⟩

theorem run_inv {role : τ → Role} {ops : List τ} (h : Run.exec Rwlock.step (State.init role) ops = some s) :
    ∃ last, Inv last s :=
  Run.exec_inv (I := fun s => ∃ last, Inv last s) (fun _ _ _ ⟨_, hinv⟩ hs => hinv.step hs) ⟨1, inv_init role⟩ h

/-! ## Main result -/

omit [Fintype τ] in
/-- a thread blocks only where it takes the lock -/
theorem step_isSome (hint : s.num + 1 < 2 ^ 31) (hstore : ∀ value, s.pc t = .writeStore value → value = s.num)
    (hwrite : s.pc t = .writeLock → s.writer = none ∧ s.readers = 0) (hread : s.pc t = .readLock → s.writer = none) :
    (Rwlock.step s t).isSome = true := by
  unfold Rwlock.step
  cases ht : s.pc t with
  | writeLock => simp [Threads.wrlock, hwrite ht]
  | writeStore value =>
    obtain rfl := hstore value ht
    dsimp only
    rw [if_pos hint]
    rfl
  | readLock => simp [Threads.rdlock, hread ht]
  | _ => rfl

/-- **The lines are those of one counter.** In every state of every run, for any number of writers and readers: the lines
are a run of the counter that begins at 1, so every write shows the next number, without gaps and repetitions, and every
read shows the number of the last write before it. No thread ever reads or writes beside a writer; and before `num` reaches
the largest `int` some thread can go on. -/
theorem rwlock_refines [Nonempty τ] {role : τ → Role} {ops : List τ}
    (h : Run.exec Rwlock.step (State.init role) ops = some s) :
    (∃ last, Run.exec counter 1 s.lines = some last ∧ (s.num = last ∨ s.num = last + 1)) ∧
    (∀ t u, (s.pc t).writes = true → u ≠ t → (s.pc u).reads = false ∧ (s.pc u).writes = false) ∧
    (s.num + 1 < 2 ^ 31 → ∃ t, (Rwlock.step s t).isSome = true) := by
  obtain ⟨last, hinv⟩ := run_inv h
  refine ⟨⟨last, hinv.lines, ?_⟩, fun t u ht hu => hinv.locked.writing ht hu, fun hint => ?_⟩
  · cases hw : s.writer with
    | none => exact Or.inl (hinv.settled hw)
    | some t =>
      have ht := (hinv.locked.writer t).mpr hw
      have hf := hinv.facts t
      cases hpc : s.pc t with
      | writeLoad | writeUnlock =>
        rw [hpc] at hf
        exact Or.inl hf
      | writeStore value =>
        rw [hpc] at hf
        exact Or.inl hf.2
      | writePrint =>
        rw [hpc] at hf
        exact Or.inr hf
      | _ =>
        rw [hpc] at ht
        cases ht
  · have hstore : ∀ t value, s.pc t = .writeStore value → value = s.num := by
      intro t value hpc
      have hf := hinv.facts t
      rw [hpc] at hf
      exact hf.1
    apply hinv.locked.someone
    · intro t ht
      refine step_isSome hint (hstore t) (fun hpc => ?_) (fun hpc => ?_) <;> rw [hpc] at ht <;> cases ht
    · intro t ht
      refine step_isSome hint (hstore t) (fun hpc => ?_) (fun hpc => ?_) <;> rw [hpc] at ht <;> cases ht
    · intro hw hr t
      exact step_isSome hint (hstore t) (fun _ => ⟨hw, hr⟩) (fun _ => hw)

/-- a writer and two readers -/
def oneWriter : Option Bool → Role
  | none => .writer
  | some _ => .reader

/-- both readers look at the number of the first write -/
def countRun : Option (State (Option Bool)) :=
  Run.exec Rwlock.step (State.init oneWriter) [none, none, none, none, none, some true, some false, some false, some true,
    some true, some false, none, none, none, none]

theorem countRun_isSome : countRun.isSome = true := by decide +kernel

theorem rwlock_refines_three : (countRun.get countRun_isSome).lines = [.write 2, .read 2, .read 2, .write 3] ∧
    ∃ last, Run.exec counter 1 (countRun.get countRun_isSome).lines = some last ∧
      ((countRun.get countRun_isSome).num = last ∨ (countRun.get countRun_isSome).num = last + 1) :=
  ⟨by decide +kernel, (rwlock_refines (Option.some_get countRun_isSome).symm).1⟩

end WebServer.Lesson30.Rwlock
