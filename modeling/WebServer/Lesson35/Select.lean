/-
The select servers lesson35/select.c and lesson35/example/select.c, one round of the loop at a time.

A round starts when `select` returns with the set `tmp`, a subset of `rdset`: if `lfd` is in it, a client is accepted and
added to `rdset`, and then the dispatch loop reads from the reported clients. The two programs differ in the last index of
that loop: `i < maxfd` in lesson35/select.c, `i <= maxfd` in the example.

The descriptor that `accept` returns is not in use and larger than `lfd` (the descriptors below `lfd` were taken before).
A failing `accept` and a descriptor beyond FD_SETSIZE are undefined in the source (`FD_SET`) and are left out.

- `Inv`: `maxfd` bounds the descriptors in `rdset`.
- `select_serves_iff`: a round of lesson35/select.c serves exactly the reported clients if and only if the highest
  descriptor, that of a new client included, is not among them and no `read` fails before the last of them.
- `example_serves_iff`: in the example the second condition is enough.
- `select_misses_client`: the only client of the server is never read.
-/
import WebServer.Core.Run
import WebServer.Lesson35.Dispatch
import Mathlib.Data.Finset.Insert

namespace WebServer.Lesson35

/-! ## Model -/

structure SelectServer where
  rdset : Finset ℕ
  maxfd : ℕ
deriving DecidableEq

/-- what the kernel answers in one round -/
structure SelectRound where
  /-- the descriptors that `select` reports -/
  tmp : Finset ℕ
  /-- the result of `accept`, if it is called -/
  cfd : ℕ
  /-- the results of `read`, by descriptor -/
  reads : ℕ → ReadResult

namespace SelectServer

variable (lfd : ℕ)

def start : SelectServer := ⟨{lfd}, lfd⟩

def possible (s : SelectServer) (ρ : SelectRound) : Bool :=
  decide (ρ.tmp ⊆ s.rdset ∧ (lfd ∈ ρ.tmp → ρ.cfd ∉ s.rdset ∧ lfd < ρ.cfd))

def accept (s : SelectServer) (ρ : SelectRound) : SelectServer :=
  if lfd ∈ ρ.tmp then ⟨insert ρ.cfd s.rdset, if s.maxfd > ρ.cfd then s.maxfd else ρ.cfd⟩ else s

/-- the larger of `maxfd` and the descriptor of a new client -/
def highest (s : SelectServer) (ρ : SelectRound) : ℕ := if lfd ∈ ρ.tmp then max s.maxfd ρ.cfd else s.maxfd

/-- `close(i)` and `FD_CLR(i, &rdset)` -/
def drop (s : SelectServer) (i : ℕ) : SelectServer := { s with rdset := s.rdset.erase i }

/-- a round whose dispatch loop visits the descriptors `indices lfd maxfd` -/
def roundOver (indices : ℕ → ℕ → List ℕ) (s : SelectServer) (ρ : SelectRound) : List Event × Option SelectServer :=
  dispatch (fun i => decide (i ∈ ρ.tmp)) ρ.reads drop (indices lfd (accept lfd s ρ).maxfd) (accept lfd s ρ)

/-- `for(int i=lfd+1;i<maxfd;++i)` -/
def indices (lfd maxfd : ℕ) : List ℕ := List.range' (lfd + 1) (maxfd - (lfd + 1))

/-- `for(int i = lfd + 1; i <= maxfd; i++)`, in the example -/
def exampleIndices (lfd maxfd : ℕ) : List ℕ := List.range' (lfd + 1) (maxfd + 1 - (lfd + 1))

def round : SelectServer → SelectRound → List Event × Option SelectServer := roundOver lfd indices

def exampleRound : SelectServer → SelectRound → List Event × Option SelectServer := roundOver lfd exampleIndices

/-- a round that the kernel makes possible and after which the server goes on -/
def stepOver (round : SelectServer → SelectRound → List Event × Option SelectServer) (s : SelectServer)
    (ρ : SelectRound) : Option SelectServer :=
  if possible lfd s ρ then (round s ρ).2 else none

def step : SelectServer → SelectRound → Option SelectServer := stepOver lfd (round lfd)

def exampleStep : SelectServer → SelectRound → Option SelectServer := stepOver lfd (exampleRound lfd)

/-! ## The bound of the descriptors -/

structure Inv (s : SelectServer) : Prop where
  listens : lfd ∈ s.rdset
  lower : ∀ i ∈ s.rdset, lfd ≤ i
  upper : ∀ i ∈ s.rdset, i ≤ s.maxfd

variable {lfd} {s t : SelectServer} {ρ : SelectRound}

theorem inv_start : Inv lfd (start lfd) := by
  constructor <;> simp [start]

theorem possible_iff : possible lfd s ρ = true ↔ ρ.tmp ⊆ s.rdset ∧ (lfd ∈ ρ.tmp → ρ.cfd ∉ s.rdset ∧ lfd < ρ.cfd) :=
  decide_eq_true_iff

theorem accept_eq (h : lfd ∈ ρ.tmp) : accept lfd s ρ = ⟨insert ρ.cfd s.rdset, max s.maxfd ρ.cfd⟩ := by
  have hmax : (if s.maxfd > ρ.cfd then s.maxfd else ρ.cfd) = max s.maxfd ρ.cfd := by
    split_ifs with hgt
    · exact (max_eq_left hgt.le).symm
    · exact (max_eq_right (not_lt.1 hgt)).symm
  rw [accept, if_pos h, hmax]

theorem accept_maxfd : (accept lfd s ρ).maxfd = highest lfd s ρ := by
  unfold highest
  split_ifs with hlfd
  · rw [accept_eq hlfd]
  · rw [accept, if_neg hlfd]

theorem maxfd_le_highest : s.maxfd ≤ highest lfd s ρ := by
  unfold highest
  split_ifs
  · exact le_max_left _ _
  · exact le_rfl

theorem Inv.accept (h : Inv lfd s) (hρ : possible lfd s ρ = true) : Inv lfd (accept lfd s ρ) := by
  by_cases hlfd : lfd ∈ ρ.tmp
  · obtain ⟨-, hcfd⟩ := (possible_iff.1 hρ).2 hlfd
    rw [accept_eq hlfd]
    refine ⟨Finset.mem_insert_of_mem h.listens, fun i hi => ?_, fun i hi => ?_⟩
    · rcases Finset.mem_insert.1 hi with rfl | hi'
      · exact hcfd.le
      · exact h.lower i hi'
    · rcases Finset.mem_insert.1 hi with rfl | hi'
      · exact le_max_right _ _
      · exact (h.upper i hi').trans (le_max_left _ _)
  · rw [SelectServer.accept, if_neg hlfd]
    exact h

theorem Inv.drop (h : Inv lfd s) {i : ℕ} (hi : lfd < i) : Inv lfd (s.drop i) where
  listens := Finset.mem_erase.2 ⟨hi.ne, h.listens⟩
  lower := fun j hj => h.lower j (Finset.mem_of_mem_erase hj)
  upper := fun j hj => h.upper j (Finset.mem_of_mem_erase hj)

theorem mem_range_succ {lfd n i : ℕ} : i ∈ List.range' (lfd + 1) (n - (lfd + 1)) ↔ lfd < i ∧ i < n := by
  rw [List.mem_range'_1]
  omega

theorem Inv.stepOver {indices : ℕ → ℕ → List ℕ} (hindices : ∀ n, ∀ i ∈ indices lfd n, lfd < i) (h : Inv lfd s)
    (hstep : stepOver lfd (roundOver lfd indices) s ρ = some t) : Inv lfd t := by
  unfold SelectServer.stepOver at hstep
  split_ifs at hstep with hρ
  exact dispatch_inv (I := Inv lfd) (fun s i hi hs => hs.drop (hindices _ i hi)) (h.accept hρ) hstep

theorem run_inv {ρs : List SelectRound} (h : Run.exec (step lfd) (start lfd) ρs = some s) : Inv lfd s :=
  Run.exec_inv (fun _ _ _ hs hstep => hs.stepOver (fun _ _ hi => (mem_range_succ.1 hi).1) hstep) inv_start h

theorem exampleRun_inv {ρs : List SelectRound} (h : Run.exec (exampleStep lfd) (start lfd) ρs = some s) : Inv lfd s :=
  Run.exec_inv (fun _ _ _ hs hstep => hs.stepOver (fun _ _ hi => (mem_range_succ.1 hi).1) hstep) inv_start h

/-! ## Who is served -/

/-- every reported client is read once, and nobody else -/
def ServesExactly (lfd : ℕ) (ρ : SelectRound) (es : List Event) : Prop :=
  (served es).Nodup ∧ ∀ i, i ∈ served es ↔ i ∈ ρ.tmp ∧ i ≠ lfd

/-- no `read` fails before the last reported client -/
def failsLast (lfd : ℕ) (ρ : SelectRound) : Bool :=
  decide (∀ i ∈ ρ.tmp, i ≠ lfd → (ρ.reads i).fails = true → ∀ j ∈ ρ.tmp, j ≤ i)

/-- a loop over the descriptors after `lfd` and below `n` -/
theorem servesExactly_iff {n : ℕ} (h : Inv lfd s) (hρ : possible lfd s ρ = true) (u : SelectServer) :
    ServesExactly lfd ρ (dispatch (fun i => decide (i ∈ ρ.tmp)) ρ.reads drop
        (List.range' (lfd + 1) (n - (lfd + 1))) u).1 ↔
      (∀ i ∈ ρ.tmp, i ≠ lfd → i < n) ∧ failsLast lfd ρ = true := by
  have hlower : ∀ i ∈ ρ.tmp, lfd ≤ i := fun i hi => h.lower i ((possible_iff.1 hρ).1 hi)
  have hsorted : (List.range' (lfd + 1) (n - (lfd + 1))).Pairwise (· < ·) := List.pairwise_lt_range'
  unfold ServesExactly failsLast
  simp only [nodup_served_dispatch hsorted, mem_served_dispatch hsorted, mem_range_succ, decide_eq_true_eq, true_and]
  constructor
  · intro hall
    refine ⟨fun i hi hne => ((hall i).2 ⟨hi, hne⟩).1.1.2, fun i hi hne hfails j hj => ?_⟩
    rcases eq_or_ne j lfd with rfl | hj'
    · exact hlower i hi
    · have hread := ((hall i).2 ⟨hi, hne⟩).1
      exact ((hall j).2 ⟨hj, hj'⟩).2 i hread.1 hread.2 hfails
  · rintro ⟨hlt, hlast⟩ i
    constructor
    · rintro ⟨⟨⟨hgt, -⟩, hi⟩, -⟩
      exact ⟨hi, hgt.ne'⟩
    · rintro ⟨hi, hne⟩
      refine ⟨⟨⟨lt_of_le_of_ne (hlower i hi) hne.symm, hlt i hi hne⟩, hi⟩, ?_⟩
      rintro k ⟨hgt, -⟩ hk hfails
      exact hlast k hk hgt.ne' hfails i hi

/-- **The clients of a round.** In every state of every run of lesson35/select.c and for every answer of the kernel: every
reported client is read exactly once and nobody else is, if and only if the highest descriptor, that of a new client
included, is not one of them and no `read` fails before the last one. -/
theorem select_serves_iff {ρs : List SelectRound} (h : Run.exec (step lfd) (start lfd) ρs = some s)
    (hρ : possible lfd s ρ = true) :
    ServesExactly lfd ρ (round lfd s ρ).1 ↔
      (highest lfd s ρ ∉ ρ.tmp ∨ highest lfd s ρ = lfd) ∧ failsLast lfd ρ = true := by
  have hinv := run_inv h
  have hupper : ∀ i ∈ ρ.tmp, i ≤ highest lfd s ρ := fun i hi =>
    (hinv.upper i ((possible_iff.1 hρ).1 hi)).trans maxfd_le_highest
  unfold round roundOver indices
  rw [accept_maxfd, servesExactly_iff hinv hρ]
  refine and_congr_left fun _ => ?_
  constructor
  · intro hlt
    by_contra hnot
    obtain ⟨hmem, hne⟩ := not_or.1 hnot
    exact absurd (hlt _ (not_not.1 hmem) hne) (lt_irrefl _)
  · intro hmax i hi hne
    apply lt_of_le_of_ne (hupper i hi)
    rintro rfl
    exact hmax.elim (fun hnot => hnot hi) hne

/-- **The loop of the example reaches every client.** -/
theorem example_serves_iff {ρs : List SelectRound} (h : Run.exec (exampleStep lfd) (start lfd) ρs = some s)
    (hρ : possible lfd s ρ = true) :
    ServesExactly lfd ρ (exampleRound lfd s ρ).1 ↔ failsLast lfd ρ = true := by
  have hinv := exampleRun_inv h
  unfold exampleRound roundOver exampleIndices
  rw [accept_maxfd, servesExactly_iff hinv hρ]
  refine and_iff_right fun i hi _ => Nat.lt_succ_of_le ?_
  exact (hinv.upper i ((possible_iff.1 hρ).1 hi)).trans maxfd_le_highest

/-- a client connects to a server that listens on descriptor 3 -/
def connects : SelectRound := ⟨{3}, 4, fun _ => .error⟩

/-- the client sends a byte -/
def sends : SelectRound := ⟨{4}, 0, fun _ => .data [97]⟩

/-- the client sends a byte while another one connects -/
def sendsAndConnects : SelectRound := ⟨{3, 4}, 5, fun _ => .data [97]⟩

def oneClient : Option SelectServer := Run.exec (step 3) (start 3) [connects]

theorem oneClient_isSome : oneClient.isSome = true := by decide

theorem select_serves_oneClient :
    ServesExactly 3 sendsAndConnects (round 3 (oneClient.get oneClient_isSome) sendsAndConnects).1 :=
  (select_serves_iff (Option.some_get oneClient_isSome).symm (by decide)).2 (by decide)

/-- **The only client is not read,** although `select` reports it. -/
theorem select_misses_client : possible 3 (oneClient.get oneClient_isSome) sends = true ∧ 4 ∈ sends.tmp ∧
    served (round 3 (oneClient.get oneClient_isSome) sends).1 = [] := by
  decide

end SelectServer

end WebServer.Lesson35
