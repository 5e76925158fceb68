/-
Threads that share data behind a read-write lock. A thread is given by the statement it executes next, `pc t`; a program
says which of its statements are executed with the lock for reading and which with the lock for writing.

- `Locked`: the lock is held for writing by the one thread inside its writing section, or for reading by as many threads
  as are inside their reading sections. One lemma for each way a thread moves: `goto`, `rdlock`, `wrlock`, and
  `rdunlock` and `wrunlock` for the two meanings of `unlock`.
- `Locked.write`: what a statement presumes about the shared data survives a change by another thread, because that thread
  is alone.
- `Locked.someone`: threads that block only at the lock never block all at once.
-/
import WebServer.Core.Run

namespace WebServer.RwLock

variable {τ π δ : Type*}

structure Threads (τ π : Type*) where
  writer : Option τ
  readers : ℕ
  pc : τ → π

namespace Threads

variable [DecidableEq τ]

def goto (θ : Threads τ π) (t : τ) (p : π) : Threads τ π := { θ with pc := Function.update θ.pc t p }

/-- take the lock for reading and go on at `p`; not enabled while a thread has it for writing -/
def rdlock (θ : Threads τ π) (t : τ) (p : π) : Option (Threads τ π) :=
  match θ.writer with
  | none => some ⟨none, θ.readers + 1, Function.update θ.pc t p⟩
  | some _ => none

/-- take the lock for writing and go on at `p`; not enabled while any thread has it -/
def wrlock (θ : Threads τ π) (t : τ) (p : π) : Option (Threads τ π) :=
  match θ.writer, θ.readers with
  | none, 0 => some ⟨some t, 0, Function.update θ.pc t p⟩
  | _, _ => none

/-- give the lock back, as its writer or as one of its readers -/
def unlock (θ : Threads τ π) (t : τ) (p : π) : Threads τ π :=
  if θ.writer = some t then ⟨none, θ.readers, Function.update θ.pc t p⟩
  else ⟨θ.writer, θ.readers - 1, Function.update θ.pc t p⟩

variable {θ θ' : Threads τ π} {t : τ} {p : π}

theorem rdlock_some (h : θ.rdlock t p = some θ') :
    θ.writer = none ∧ θ' = ⟨none, θ.readers + 1, Function.update θ.pc t p⟩ := by
  unfold rdlock at h
  split at h
  · rename_i hw
    exact ⟨hw, (Option.some.inj h).symm⟩
  · cases h

theorem wrlock_some (h : θ.wrlock t p = some θ') :
    θ.writer = none ∧ θ.readers = 0 ∧ θ' = ⟨some t, 0, Function.update θ.pc t p⟩ := by
  unfold wrlock at h
  split at h
  · rename_i hw hr
    exact ⟨hw, hr, (Option.some.inj h).symm⟩
  · cases h

theorem unlock_pc (θ : Threads τ π) (t : τ) (p : π) : (θ.unlock t p).pc = Function.update θ.pc t p := by
  unfold unlock
  split_ifs <;> rfl

end Threads

/-! ## The lock -/

/-- which statements of a program are executed with the lock -/
structure Sections (π : Type*) where
  reads : π → Bool
  writes : π → Bool
  not_both : ∀ p, reads p = true → writes p = false

variable {S : Sections π} {θ θ' : Threads τ π} {t u : τ} {p : π}

/-- the lock is held for writing by the thread inside its writing section, if there is one, and for reading by the
threads inside their reading sections -/
structure Locked [Fintype τ] (S : Sections π) (θ : Threads τ π) : Prop where
  writer : ∀ t, S.writes (θ.pc t) = true ↔ θ.writer = some t
  readers : ∑ t, (S.reads (θ.pc t)).toNat = θ.readers
  exclusive : θ.writer ≠ none → θ.readers = 0

section

variable [Fintype τ]

theorem locked_start {pc : τ → π} (hr : ∀ t, S.reads (pc t) = false) (hw : ∀ t, S.writes (pc t) = false) :
    Locked S ⟨none, 0, pc⟩ where
  writer := fun t => by simp [hw t]
  readers := by simp [hr]
  exclusive := fun h => absurd rfl h

/-- no thread reads while the lock has no readers -/
theorem Locked.no_reader (h : Locked S θ) (hr : θ.readers = 0) (t : τ) : S.reads (θ.pc t) = false := by
  have hsum := h.readers.trans hr
  have ht : (S.reads (θ.pc t)).toNat = 0 := (Finset.sum_eq_zero_iff.mp hsum) t (Finset.mem_univ t)
  simpa using ht

theorem Locked.no_writer (h : Locked S θ) (hw : θ.writer = none) (t : τ) : S.writes (θ.pc t) = false := by
  rw [Bool.eq_false_iff]
  intro ht
  cases hw.symm.trans ((h.writer t).mp ht)

/-- beside a reader there is no writer -/
theorem Locked.reading (h : Locked S θ) (ht : S.reads (θ.pc t) = true) : θ.writer = none := by
  by_contra hw
  cases ht.symm.trans (h.no_reader (h.exclusive hw) t)

/-- beside a writer there is nobody -/
theorem Locked.writing (h : Locked S θ) (ht : S.writes (θ.pc t) = true) (hne : u ≠ t) :
    S.reads (θ.pc u) = false ∧ S.writes (θ.pc u) = false := by
  have hw := (h.writer t).mp ht
  refine ⟨h.no_reader (h.exclusive (by rw [hw]; exact Option.some_ne_none t)) u, Bool.eq_false_iff.mpr fun hu => hne ?_⟩
  exact Option.some.inj (((h.writer u).mp hu).symm.trans hw)

/-- no deadlock: if nothing blocks inside the sections, and nobody blocks while the lock is free, somebody can go on -/
theorem Locked.someone [Nonempty τ] {can : τ → Prop} (h : Locked S θ) (hreads : ∀ t, S.reads (θ.pc t) = true → can t)
    (hwrites : ∀ t, S.writes (θ.pc t) = true → can t) (hfree : θ.writer = none → θ.readers = 0 → ∀ t, can t) :
    ∃ t, can t := by
  by_cases hwriter : θ.writer = none
  · by_cases hreaders : θ.readers = 0
    · exact ⟨Classical.arbitrary τ, hfree hwriter hreaders _⟩
    · have hsum : ∑ t, (S.reads (θ.pc t)).toNat ≠ 0 := by rwa [h.readers]
      obtain ⟨t, -, ht⟩ := Finset.exists_ne_zero_of_sum_ne_zero hsum
      exact ⟨t, hreads t (by simpa using ht)⟩
  · obtain ⟨t, ht⟩ := Option.ne_none_iff_exists'.mp hwriter
    exact ⟨t, hwrites t ((h.writer t).mpr ht)⟩

variable [DecidableEq τ]

theorem Locked.goto (h : Locked S θ) (hr : S.reads p = S.reads (θ.pc t)) (hw : S.writes p = S.writes (θ.pc t)) :
    Locked S (θ.goto t p) where
  writer := (Function.forall_update_iff θ.pc fun u q => S.writes q = true ↔ θ.writer = some u).mpr
    ⟨hw ▸ h.writer t, fun u _ => h.writer u⟩
  readers := by
    have hsum := Run.sum_update θ.pc t p fun q => (S.reads q).toNat
    have hreaders := h.readers
    unfold Threads.goto
    rw [hr] at hsum
    dsimp only
    omega
  exclusive := h.exclusive

theorem Locked.rdlock (h : Locked S θ) (ht : S.reads (θ.pc t) = false) (hp : S.reads p = true)
    (hl : θ.rdlock t p = some θ') : Locked S θ' := by
  obtain ⟨hw, rfl⟩ := Threads.rdlock_some hl
  refine ⟨?_, ?_, fun hsome => absurd rfl hsome⟩
  · apply (Function.forall_update_iff θ.pc fun u q => S.writes q = true ↔ (none : Option τ) = some u).mpr
    refine ⟨by simp [S.not_both p hp], fun u _ => ?_⟩
    simp [h.no_writer hw u]
  · have hsum := Run.sum_update θ.pc t p fun q => (S.reads q).toNat
    have hreaders := h.readers
    simp only [ht, hp, Bool.toNat_false, Bool.toNat_true] at hsum
    dsimp only
    omega

theorem Locked.wrlock (h : Locked S θ) (hp : S.writes p = true) (hl : θ.wrlock t p = some θ') : Locked S θ' := by
  obtain ⟨hw, hr, rfl⟩ := Threads.wrlock_some hl
  have hnot : S.reads p = false := Bool.eq_false_iff.mpr fun hread => by
    cases hp.symm.trans (S.not_both p hread)
  refine ⟨?_, ?_, fun _ => rfl⟩
  · apply (Function.forall_update_iff θ.pc fun u q => S.writes q = true ↔ some t = some u).mpr
    refine ⟨by simp [hp], fun u hu => ?_⟩
    simp [h.no_writer hw u, hu.symm]
  · have hsum := Run.sum_update θ.pc t p fun q => (S.reads q).toNat
    have hreaders := h.readers.trans hr
    simp only [h.no_reader hr t, hnot, Bool.toNat_false] at hsum
    dsimp only
    omega

theorem Locked.rdunlock (h : Locked S θ) (ht : S.reads (θ.pc t) = true) (hr : S.reads p = false)
    (hw : S.writes p = false) : Locked S (θ.unlock t p) := by
  have hwriter : θ.writer = none := h.reading ht
  have hne : θ.writer ≠ some t := by
    rw [hwriter]
    exact (Option.some_ne_none t).symm
  unfold Threads.unlock
  rw [if_neg hne]
  refine ⟨?_, ?_, fun hsome => absurd hwriter hsome⟩
  · apply (Function.forall_update_iff θ.pc fun u q => S.writes q = true ↔ θ.writer = some u).mpr
    exact ⟨by simp [hw, hwriter], fun u _ => h.writer u⟩
  · have hsum := Run.sum_update θ.pc t p fun q => (S.reads q).toNat
    have hreaders := h.readers
    simp only [ht, hr, Bool.toNat_false, Bool.toNat_true] at hsum
    dsimp only
    omega

theorem Locked.wrunlock (h : Locked S θ) (ht : S.writes (θ.pc t) = true) (hr : S.reads p = false)
    (hw : S.writes p = false) : Locked S (θ.unlock t p) := by
  have hwriter : θ.writer = some t := (h.writer t).mp ht
  have hreaders : θ.readers = 0 := h.exclusive (by rw [hwriter]; exact Option.some_ne_none t)
  unfold Threads.unlock
  rw [if_pos hwriter]
  refine ⟨?_, ?_, fun hsome => absurd rfl hsome⟩
  · apply (Function.forall_update_iff θ.pc fun u q => S.writes q = true ↔ (none : Option τ) = some u).mpr
    refine ⟨by simp [hw], fun u hu => ?_⟩
    simp [(h.writing ht hu).2]
  · have hsum := Run.sum_update θ.pc t p fun q => (S.reads q).toNat
    have hall := h.readers
    simp only [h.no_reader hreaders t, hr, Bool.toNat_false] at hsum
    dsimp only
    omega

/-- **A thread with the lock for writing changes the shared data.** Facts that concern only threads with the lock are
kept, because there is no other thread with it. -/
theorem Locked.write {Fact : δ → π → Prop} {d d' : δ} (h : Locked S θ)
    (hout : ∀ p, S.reads p = false → S.writes p = false → Fact d p → Fact d' p) (hf : ∀ u, Fact d (θ.pc u))
    (ht : S.writes (θ.pc t) = true) (hp : Fact d' p) (u : τ) : Fact d' (Function.update θ.pc t p u) := by
  apply (Function.forall_update_iff θ.pc fun _ q => Fact d' q).mpr
  exact ⟨hp, fun u hu => hout _ (h.writing ht hu).1 (h.writing ht hu).2 (hf u)⟩

end

end WebServer.RwLock
