/-
The poll server lesson35/poll.c, one round of the loop at a time.

`fds` has 1024 slots, slot 0 for the listening socket. Only the slots up to `nfds` are handed to `poll`, which writes their
`revents`: 0 for a slot without a descriptor. The `revents` of the other slots are what was in memory before. If slot 0 is
reported, `accept` is called and its result stored in the first slot without a descriptor, which may raise `nfds`; the
dispatch loop then reads from every slot up to the new `nfds` whose `revents` has POLLIN.

`clients` records the descriptors that were accepted and not closed.

- `servesExactly_iff`: a round reads exactly the slots that `poll` reported if and only if no `read` fails before the last
  of them, and the slot that the round adds has no POLLIN in memory (unless a failing `read` ends the round before it).
- `Inv.step`: every client stays in exactly one slot from 1 to `nfds` (`Held`) if and only if an `accept` that returns a
  client finds a free slot.
- `poll_serves_iff`: both, for every run.
- `poll_reads_unreported`: a client that is read in the round in which it is accepted.
-/
import WebServer.Core.Run
import WebServer.Lesson35.Dispatch
import Mathlib.Data.Finset.Insert

namespace WebServer.Lesson35

/-! ## Model -/

/-- `struct pollfd`; `none` is the descriptor -1 -/
structure Slot where
  fd : Option ℕ
  /-- the POLLIN bit of `revents` -/
  revents : Bool
deriving DecidableEq, Repr

def tableSize : ℕ := 1024

structure PollServer where
  fds : ℕ → Slot
  nfds : ℕ
  clients : Finset ℕ

/-- what the kernel answers in one round -/
structure PollRound where
  /-- the slots for which `poll` sets POLLIN -/
  polled : ℕ → Bool
  /-- the result of `accept`, if it is called -/
  cfd : Option ℕ
  /-- the results of `read`, by slot -/
  reads : ℕ → ReadResult

namespace PollServer

/-- before the loop; `garbage` is what the array had in `revents` -/
def start (lfd : ℕ) (garbage : ℕ → Bool) : PollServer :=
  ⟨fun i => ⟨if i = 0 then some lfd else none, garbage i⟩, 0, ∅⟩

/-- POLLIN in slot `i`, as the call of `poll` reports it -/
def reported (s : PollServer) (ρ : PollRound) (i : ℕ) : Bool :=
  decide (i ≤ s.nfds) && ρ.polled i && (s.fds i).fd.isSome

/-- `poll(fds, nfds + 1, -1)` -/
def poll (s : PollServer) (ρ : PollRound) : PollServer :=
  { s with fds := fun i => if i ≤ s.nfds then ⟨(s.fds i).fd, s.reported ρ i⟩ else s.fds i }

/-- the first slot after slot 0 without a descriptor -/
def freeSlot (s : PollServer) : Option ℕ := (List.range' 1 (tableSize - 1)).find? fun i => (s.fds i).fd = none

/-- a new client in slot `i` -/
def store (s : PollServer) (i : ℕ) (cfd : Option ℕ) : PollServer :=
  { s with
    fds := Function.update s.fds i { s.fds i with fd := cfd }
    nfds := if s.nfds > i then s.nfds else i }

/-- the `accept` and the loop that looks for a slot -/
def accept (s : PollServer) (cfd : Option ℕ) : PollServer :=
  let s := { s with clients := s.clients ∪ cfd.toFinset }
  match s.freeSlot with
  | some i => s.store i cfd
  | none => s

/-- the server before the dispatch loop -/
def ready (s : PollServer) (ρ : PollRound) : PollServer :=
  if s.reported ρ 0 then (s.poll ρ).accept ρ.cfd else s.poll ρ

/-- `close(fds[i].fd)` and `fds[i].fd = -1` -/
def drop (s : PollServer) (i : ℕ) : PollServer :=
  { s with
    fds := Function.update s.fds i { s.fds i with fd := none }
    clients := s.clients \ (s.fds i).fd.toFinset }

/-- the results of `read`: it fails for the descriptor -1 -/
def readSlot (s : PollServer) (ρ : PollRound) (i : ℕ) : ReadResult :=
  if (s.fds i).fd = none then .error else ρ.reads i

def round (s : PollServer) (ρ : PollRound) : List Event × Option PollServer :=
  let t := s.ready ρ
  dispatch (fun i => (t.fds i).revents) (t.readSlot ρ) drop (List.range' 1 t.nfds) t

/-- `accept` returns a descriptor that is not in use -/
def possible (s : PollServer) (ρ : PollRound) : Bool := decide (∀ c ∈ ρ.cfd, c ∉ s.clients)

def step (s : PollServer) (ρ : PollRound) : Option PollServer := if s.possible ρ then (s.round ρ).2 else none

/-! ## Who is served -/

/-- every reported slot is read once, and no other one -/
def ServesExactly (s : PollServer) (ρ : PollRound) : Prop :=
  (served (s.round ρ).1).Nodup ∧ ∀ i, i ∈ served (s.round ρ).1 ↔ 1 ≤ i ∧ s.reported ρ i = true

/-- slot `i` is reported and the `read` fails -/
def failing (s : PollServer) (ρ : PollRound) (i : ℕ) : Bool := s.reported ρ i && (ρ.reads i).fails

/-- no `read` fails before the last reported slot -/
def failsLast (s : PollServer) (ρ : PollRound) : Bool :=
  decide (∀ i ∈ List.range' 1 s.nfds, s.failing ρ i = true → ∀ j ∈ List.range' 1 s.nfds, s.reported ρ j = true → j ≤ i)

/-- a client that gets its slot above `nfds` adds slots without POLLIN in memory -/
def addsClear (s : PollServer) (ρ : PollRound) : Bool :=
  match s.reported ρ 0, s.freeSlot with
  | true, some k => decide (∀ i ∈ List.range' 1 k, s.nfds < i → (s.fds i).revents = false)
  | _, _ => true

/-- some reported `read` fails -/
def failsSome (s : PollServer) (ρ : PollRound) : Bool :=
  decide (∃ i ∈ List.range' 1 s.nfds, s.failing ρ i = true)

variable {s t : PollServer} {ρ : PollRound}

/-! ## The server before the dispatch loop -/

theorem reported_iff {i : ℕ} : s.reported ρ i = true ↔ i ≤ s.nfds ∧ ρ.polled i = true ∧ (s.fds i).fd.isSome = true := by
  simp only [reported, Bool.and_eq_true, decide_eq_true_eq, and_assoc]

theorem freeSlot_some {i : ℕ} (h : s.freeSlot = some i) : 1 ≤ i ∧ (s.fds i).fd = none := by
  have hfree := List.find?_some h
  have hmem := List.mem_of_find?_eq_some h
  rw [List.mem_range'_1] at hmem
  exact ⟨hmem.1, of_decide_eq_true hfree⟩

theorem store_nfds (s : PollServer) (i : ℕ) (cfd : Option ℕ) : (s.store i cfd).nfds = max s.nfds i := by
  simp only [store]
  split_ifs with hgt
  · exact (max_eq_left hgt.le).symm
  · exact (max_eq_right (not_lt.1 hgt)).symm

/-- storing a descriptor leaves `revents` and the other slots -/
theorem store_slot (s : PollServer) (i : ℕ) (cfd : Option ℕ) (j : ℕ) :
    ((s.store i cfd).fds j).revents = (s.fds j).revents ∧
      ((s.store i cfd).fds j).fd = if j = i then cfd else (s.fds j).fd := by
  by_cases hj : j = i
  · subst hj
    simp [store]
  · simp [store, hj]

theorem poll_slot (s : PollServer) (ρ : PollRound) (i : ℕ) : ((s.poll ρ).fds i).fd = (s.fds i).fd ∧
    ((s.poll ρ).fds i).revents = if i ≤ s.nfds then s.reported ρ i else (s.fds i).revents := by
  simp only [poll]
  split_ifs <;> exact ⟨rfl, rfl⟩

theorem freeSlot_poll (s : PollServer) (ρ : PollRound) : (s.poll ρ).freeSlot = s.freeSlot := by
  unfold freeSlot
  congr 1
  funext i
  rw [(poll_slot s ρ i).1]

theorem accept_free {cfd : Option ℕ} {i : ℕ} (hi : s.freeSlot = some i) :
    s.accept cfd = { s with clients := s.clients ∪ cfd.toFinset }.store i cfd := by
  have hfree : { s with clients := s.clients ∪ cfd.toFinset }.freeSlot = some i := hi
  simp only [accept, hfree]

theorem accept_full (cfd : Option ℕ) (hfull : s.freeSlot = none) :
    s.accept cfd = { s with clients := s.clients ∪ cfd.toFinset } := by
  have hfree : { s with clients := s.clients ∪ cfd.toFinset }.freeSlot = none := hfull
  simp only [accept, hfree]

theorem accept_slot (s : PollServer) (cfd : Option ℕ) (i : ℕ) : s.nfds ≤ (s.accept cfd).nfds ∧
    ((s.accept cfd).fds i).revents = (s.fds i).revents ∧
    ((s.fds i).fd ≠ none → ((s.accept cfd).fds i).fd = (s.fds i).fd) := by
  unfold accept
  dsimp only
  split
  · rename_i k hk
    obtain ⟨hrevents, hfd⟩ := store_slot { s with clients := s.clients ∪ cfd.toFinset } k cfd i
    refine ⟨?_, hrevents, fun hne => ?_⟩
    · rw [store_nfds]
      exact le_max_left _ _
    · rw [hfd, if_neg]
      rintro rfl
      exact hne (freeSlot_some hk).2
  · exact ⟨le_rfl, rfl, fun _ => rfl⟩

/-- the slots that the dispatch loop finds -/
theorem ready_slot (s : PollServer) (ρ : PollRound) (i : ℕ) : s.nfds ≤ (s.ready ρ).nfds ∧
    ((s.ready ρ).fds i).revents = (if i ≤ s.nfds then s.reported ρ i else (s.fds i).revents) ∧
    (s.reported ρ i = true → (s.ready ρ).readSlot ρ i = ρ.reads i) := by
  obtain ⟨hfd, hrevents⟩ := poll_slot s ρ i
  have hread : ∀ u : PollServer, (u.fds i).fd = (s.fds i).fd → s.reported ρ i = true →
      u.readSlot ρ i = ρ.reads i := by
    intro u hu hi
    have hsome := (reported_iff.1 hi).2.2
    rw [readSlot, if_neg]
    rw [hu]
    exact Option.isSome_iff_ne_none.1 hsome
  by_cases h0 : s.reported ρ 0 = true
  · rw [ready, if_pos h0]
    obtain ⟨hle, hkept, hslot⟩ := accept_slot (s.poll ρ) ρ.cfd i
    refine ⟨hle, hkept.trans hrevents, fun hi => hread _ ?_ hi⟩
    rw [hslot, hfd]
    rw [hfd]
    exact Option.isSome_iff_ne_none.1 (reported_iff.1 hi).2.2
  · rw [ready, if_neg h0]
    exact ⟨le_rfl, hrevents, fun hi => hread _ hfd hi⟩

/-- the slots from 1 to `nfds` -/
theorem mem_slots {n i : ℕ} : i ∈ List.range' 1 n ↔ 1 ≤ i ∧ i ≤ n := by
  rw [List.mem_range'_1]
  omega

theorem failsLast_iff : s.failsLast ρ = true ↔
    ∀ i, 1 ≤ i → s.failing ρ i = true → ∀ j, 1 ≤ j → s.reported ρ j = true → j ≤ i := by
  have hle : ∀ i, s.reported ρ i = true → i ≤ s.nfds := fun i hi => (reported_iff.1 hi).1
  simp only [failsLast, decide_eq_true_eq, mem_slots]
  constructor
  · intro h i hi hfail j hj hrep
    exact h i ⟨hi, hle i (Bool.and_eq_true_iff.1 hfail).1⟩ hfail j ⟨hj, hle j hrep⟩ hrep
  · intro h i hi hfail j hj hrep
    exact h i hi.1 hfail j hj.1 hrep

/-- the slots that a round adds are those up to the free one -/
theorem le_ready_nfds {i : ℕ} (hi : s.nfds < i) :
    i ≤ (s.ready ρ).nfds ↔ s.reported ρ 0 = true ∧ ∃ k, s.freeSlot = some k ∧ i ≤ k := by
  rw [ready]
  split_ifs with h0
  · rw [← freeSlot_poll s ρ]
    cases hfree : (s.poll ρ).freeSlot with
    | some k =>
      rw [accept_free hfree, store_nfds]
      simp only [h0, Option.some.injEq, exists_eq_left', true_and]
      exact (le_max_iff.trans (or_iff_right (not_le.2 hi)))
    | none =>
      rw [accept_full _ hfree]
      exact iff_of_false (not_le.2 hi) fun h => by obtain ⟨-, k, hk, -⟩ := h; cases hk
  · exact iff_of_false (not_le.2 hi) fun h => h0 h.1

theorem addsClear_iff : s.addsClear ρ = true ↔
    ∀ i, s.nfds < i → i ≤ (s.ready ρ).nfds → (s.fds i).revents = false := by
  have hadds : (∀ i, s.nfds < i → i ≤ (s.ready ρ).nfds → (s.fds i).revents = false) ↔
      ∀ i, s.nfds < i → (s.reported ρ 0 = true ∧ ∃ k, s.freeSlot = some k ∧ i ≤ k) → (s.fds i).revents = false :=
    forall₂_congr fun i hi => by rw [le_ready_nfds hi]
  rw [hadds]
  unfold addsClear
  split
  · rename_i k h0 hk
    simp only [h0, hk, decide_eq_true_eq, mem_slots, Option.some.injEq, exists_eq_left', true_and]
    exact ⟨fun h i hi hle => h i ⟨Nat.one_le_of_lt hi, hle⟩ hi, fun h i hi hlt => h i hlt hi.2⟩
  · rename_i hnone
    refine iff_of_true rfl ?_
    rintro i - ⟨h0, k, hk, -⟩
    exact absurd hk (hnone k h0)

theorem failsSome_iff : s.failsSome ρ = true ↔ ∃ i, 1 ≤ i ∧ s.failing ρ i = true := by
  simp only [failsSome, decide_eq_true_eq, mem_slots]
  constructor
  · rintro ⟨i, hi, hfail⟩
    exact ⟨i, hi.1, hfail⟩
  · rintro ⟨i, hi, hfail⟩
    exact ⟨i, ⟨hi, (reported_iff.1 (Bool.and_eq_true_iff.1 hfail).1).1⟩, hfail⟩

/-- the slots that a round reads: the loop finds the reported ones and those that it has added -/
theorem mem_served_round {j : ℕ} : j ∈ served (s.round ρ).1 ↔
    ((1 ≤ j ∧ j ≤ (s.ready ρ).nfds) ∧ ((s.ready ρ).fds j).revents = true) ∧
      ∀ i, 1 ≤ i ∧ i ≤ (s.ready ρ).nfds → ((s.ready ρ).fds i).revents = true →
        ((s.ready ρ).readSlot ρ i).fails = true → j ≤ i := by
  simp only [round, mem_served_dispatch List.pairwise_lt_range', mem_slots]

/-- a slot that the loop finds is reported, or it is one that this round has added -/
theorem found_iff {i : ℕ} : ((s.ready ρ).fds i).revents = true ↔
    s.reported ρ i = true ∨ (s.nfds < i ∧ (s.fds i).revents = true) := by
  rw [(ready_slot s ρ i).2.1]
  split_ifs with hle
  · exact (or_iff_left fun h => absurd hle (not_le.2 h.1)).symm
  · exact ⟨fun h => Or.inr ⟨not_le.1 hle, h⟩, fun h => h.elim (fun hr => absurd (reported_iff.1 hr).1 hle) And.right⟩

/-- **The slots of a round.** -/
theorem servesExactly_iff (s : PollServer) (ρ : PollRound) :
    s.ServesExactly ρ ↔ s.failsLast ρ = true ∧ (s.addsClear ρ = true ∨ s.failsSome ρ = true) := by
  have hnodup : (served (s.round ρ).1).Nodup := nodup_served_dispatch List.pairwise_lt_range' _
  have hle : s.nfds ≤ (s.ready ρ).nfds := (ready_slot s ρ 0).1
  have hreads : ∀ i, s.failing ρ i = true ↔ s.reported ρ i = true ∧ ((s.ready ρ).readSlot ρ i).fails = true := by
    intro i
    rw [failing, Bool.and_eq_true]
    exact and_congr_right fun hi => by rw [(ready_slot s ρ i).2.2 hi]
  unfold ServesExactly
  rw [and_iff_right hnodup, failsLast_iff, addsClear_iff, failsSome_iff]
  simp only [mem_served_round, found_iff, hreads]
  constructor
  · intro hall
    refine ⟨?_, ?_⟩
    · rintro i hi ⟨hrep, hfails⟩ j hj hrep'
      exact ((hall j).2 ⟨hj, hrep'⟩).2 i ((hall i).2 ⟨hi, hrep⟩).1.1 (Or.inl hrep) hfails
    · by_contra hnot
      obtain ⟨hadded, hnofail⟩ := not_or.1 hnot
      -- the first added slot with POLLIN in memory is found, so some `read` before it fails
      have hex : ∃ i, s.nfds < i ∧ i ≤ (s.ready ρ).nfds ∧ (s.fds i).revents = true := by
        by_contra hnone
        exact hadded fun i hgt hi => Bool.eq_false_iff.2 fun hrev => hnone ⟨i, hgt, hi, hrev⟩
      obtain ⟨hgt, hi, hrev⟩ := Nat.find_spec hex
      have hunread : ¬ s.reported ρ (Nat.find hex) = true := fun hrep =>
        absurd (reported_iff.1 hrep).1 (not_le.2 hgt)
      apply hunread
      refine ((hall (Nat.find hex)).1 ⟨⟨⟨Nat.one_le_of_lt hgt, hi⟩, Or.inr ⟨hgt, hrev⟩⟩, ?_⟩).2
      rintro k ⟨hk, hkle⟩ (hrep | ⟨hkgt, hkrev⟩) hfails
      · exact absurd ⟨k, hk, hrep, hfails⟩ hnofail
      · exact Nat.find_min' hex ⟨hkgt, hkle, hkrev⟩
  · rintro ⟨hlast, hnew⟩ j
    constructor
    · rintro ⟨⟨hj, hfound⟩, hfirst⟩
      refine ⟨hj.1, hfound.resolve_right ?_⟩
      rintro ⟨hgt, hrevents⟩
      rcases hnew with hclear | ⟨i, hi, hrep, hfails⟩
      · rw [hclear j hgt hj.2] at hrevents
        cases hrevents
      · -- the failing slot is one of those that were polled
        have hpolled := (reported_iff.1 hrep).1
        exact absurd (hfirst i ⟨hi, hpolled.trans hle⟩ (Or.inl hrep) hfails) (by omega)
    · rintro ⟨hj, hrep⟩
      have hpolled := (reported_iff.1 hrep).1
      refine ⟨⟨⟨hj, hpolled.trans hle⟩, Or.inl hrep⟩, ?_⟩
      rintro i ⟨hi, -⟩ (hrep' | ⟨hgt, -⟩) hfails
      · exact hlast i hi ⟨hrep', hfails⟩ j hj hrep
      · exact (hpolled.trans_lt hgt).le

/-! ## Where the clients are -/

/-- every client is in exactly one slot from 1 to `nfds` -/
def Held (s : PollServer) : Prop := ∀ c ∈ s.clients, ∃! i, (1 ≤ i ∧ i ≤ s.nfds) ∧ (s.fds i).fd = some c

/-- if a client is accepted in the round, there is a slot for it -/
def hasRoom (s : PollServer) (ρ : PollRound) : Bool := !s.reported ρ 0 || ρ.cfd.isNone || s.freeSlot.isSome

structure Inv (s : PollServer) : Prop where
  client : ∀ i, 1 ≤ i → ∀ c, (s.fds i).fd = some c → c ∈ s.clients
  distinct : ∀ i j c, 1 ≤ i → 1 ≤ j → (s.fds i).fd = some c → (s.fds j).fd = some c → i = j
  above : ∀ i, s.nfds < i → (s.fds i).fd = none

theorem Inv.held_iff (h : Inv s) : Held s ↔ ∀ c ∈ s.clients, ∃ i, 1 ≤ i ∧ (s.fds i).fd = some c := by
  refine forall₂_congr fun c _ => ⟨?_, ?_⟩
  · rintro ⟨i, ⟨hi, hc⟩, -⟩
    exact ⟨i, hi.1, hc⟩
  · rintro ⟨i, hi, hc⟩
    refine ⟨i, ⟨⟨hi, ?_⟩, hc⟩, ?_⟩
    · by_contra hgt
      rw [h.above i (not_le.1 hgt)] at hc
      cases hc
    · rintro j ⟨⟨hj, -⟩, hc'⟩
      exact h.distinct j i c hj hi hc' hc

theorem inv_start (lfd : ℕ) (garbage : ℕ → Bool) : Inv (start lfd garbage) := by
  have hfree : ∀ i, 1 ≤ i → ((start lfd garbage).fds i).fd = none := fun i hi => if_neg (Nat.one_le_iff_ne_zero.1 hi)
  refine ⟨fun i hi c hc => ?_, fun i j c hi _ hc _ => ?_, fun i hi => hfree i hi⟩
  · cases (hfree i hi).symm.trans hc
  · cases (hfree i hi).symm.trans hc

/-- the same descriptors in the same slots -/
theorem Inv.congr (h : Inv s) (hclients : t.clients = s.clients) (hnfds : s.nfds ≤ t.nfds)
    (hfd : ∀ i, 1 ≤ i → (t.fds i).fd = (s.fds i).fd) : Inv t := by
  refine ⟨fun i hi c hc => ?_, fun i j c hi hj hc hc' => ?_, fun i hi => ?_⟩
  · rw [hclients]
    exact h.client i hi c ((hfd i hi).symm.trans hc)
  · exact h.distinct i j c hi hj ((hfd i hi).symm.trans hc) ((hfd j hj).symm.trans hc')
  · rw [hfd i (Nat.one_le_of_lt hi)]
    exact h.above i (hnfds.trans_lt hi)

theorem Inv.held_congr (h : Inv s) (hclients : t.clients = s.clients) (hnfds : s.nfds ≤ t.nfds)
    (hfd : ∀ i, 1 ≤ i → (t.fds i).fd = (s.fds i).fd) : Held t ↔ Held s := by
  rw [(h.congr hclients hnfds hfd).held_iff, h.held_iff, hclients]
  refine forall₂_congr fun c _ => exists_congr fun i => and_congr_right fun hi => ?_
  rw [hfd i hi]

theorem Inv.poll (h : Inv s) (ρ : PollRound) : Inv (s.poll ρ) ∧ (Held (s.poll ρ) ↔ Held s) :=
  have hfd : ∀ i, 1 ≤ i → ((s.poll ρ).fds i).fd = (s.fds i).fd := fun i _ => (poll_slot s ρ i).1
  ⟨h.congr rfl le_rfl hfd, h.held_congr rfl le_rfl hfd⟩

/-- slot `i` gets a descriptor that no client had, or none; the client that was in it is gone -/
theorem Inv.update (h : Inv s) {i : ℕ} {x : Option ℕ} (hi : 1 ≤ i) (hx : ∀ c ∈ x, c ∉ s.clients)
    (hfd : ∀ j, (t.fds j).fd = if j = i then x else (s.fds j).fd)
    (hclients : ∀ d, d ∈ t.clients ↔ x = some d ∨ (d ∈ s.clients ∧ (s.fds i).fd ≠ some d))
    (hnfds : s.nfds ≤ t.nfds) (hslot : x ≠ none → i ≤ t.nfds) : Inv t ∧ (Held s → Held t) := by
  have hcases : ∀ j d, (t.fds j).fd = some d → (j = i ∧ x = some d) ∨ (j ≠ i ∧ (s.fds j).fd = some d) := by
    intro j d hd
    rw [hfd] at hd
    split_ifs at hd with hji
    · exact Or.inl ⟨hji, hd⟩
    · exact Or.inr ⟨hji, hd⟩
  have hinv : Inv t := by
    refine ⟨fun j hj d hd => ?_, fun j k d hj hk hd hd' => ?_, fun j hj => ?_⟩
    · rw [hclients]
      rcases hcases j d hd with ⟨-, hnew⟩ | ⟨hji, hold⟩
      · exact Or.inl hnew
      · exact Or.inr ⟨h.client j hj d hold, fun hid => hji (h.distinct j i d hj hi hold hid)⟩
    · -- the new descriptor is in no other slot, since it was no client
      rcases hcases j d hd with ⟨rfl, hnew⟩ | ⟨-, hold⟩
      · rcases hcases k d hd' with ⟨rfl, -⟩ | ⟨-, hold'⟩
        · rfl
        · exact absurd (h.client k hk d hold') (hx d hnew)
      · rcases hcases k d hd' with ⟨rfl, hnew⟩ | ⟨-, hold'⟩
        · exact absurd (h.client j hj d hold) (hx d hnew)
        · exact h.distinct j k d hj hk hold hold'
    · rw [hfd]
      split_ifs with hji
      · by_contra hne
        exact absurd (hslot hne) (not_le.2 (hji ▸ hj))
      · exact h.above j (hnfds.trans_lt hj)
  refine ⟨hinv, fun hheld => ?_⟩
  rw [hinv.held_iff]
  rw [h.held_iff] at hheld
  intro d hd
  rcases (hclients d).1 hd with hnew | ⟨hold, hne⟩
  · exact ⟨i, hi, by rw [hfd, if_pos rfl, hnew]⟩
  · obtain ⟨j, hj, hjd⟩ := hheld d hold
    refine ⟨j, hj, ?_⟩
    rw [hfd, if_neg, hjd]
    rintro rfl
    exact hne hjd

theorem drop_slot (s : PollServer) (i j : ℕ) :
    ((s.drop i).fds j).fd = if j = i then none else (s.fds j).fd := by
  by_cases hj : j = i
  · subst hj
    simp [drop]
  · simp [drop, hj]

theorem mem_drop_clients {i d : ℕ} : d ∈ (s.drop i).clients ↔ d ∈ s.clients ∧ (s.fds i).fd ≠ some d := by
  simp only [drop, Finset.mem_sdiff, Option.mem_toFinset, Option.mem_def, ne_eq]

/-- a client is removed with its slot -/
theorem Inv.drop (h : Inv s) {i : ℕ} (hi : 1 ≤ i) : Inv (s.drop i) ∧ (Held s → Held (s.drop i)) := by
  apply h.update hi
  · exact fun c hc => absurd hc (Option.not_mem_none c)
  · exact drop_slot s i
  · exact fun d => mem_drop_clients.trans (or_iff_right (Option.some_ne_none d).symm).symm
  · exact le_rfl
  · exact fun hne => absurd rfl hne

/-- a client that is in no slot -/
def Lost (c : ℕ) (s : PollServer) : Prop := c ∈ s.clients ∧ ∀ i, 1 ≤ i → (s.fds i).fd ≠ some c

theorem Lost.drop {c i : ℕ} (h : Lost c s) (hi : 1 ≤ i) : Lost c (s.drop i) := by
  refine ⟨mem_drop_clients.2 ⟨h.1, h.2 i hi⟩, fun j hj => ?_⟩
  rw [drop_slot]
  split_ifs
  · exact (Option.some_ne_none c).symm
  · exact h.2 j hj

theorem Lost.not_held {c : ℕ} (h : Lost c s) : ¬ Held s := by
  intro hheld
  obtain ⟨i, ⟨hi, hc⟩, -⟩ := hheld c h.1
  exact h.2 i hi.1 hc

/-- the result of `accept` in the first free slot; a -1 is written over a -1 -/
theorem Inv.accept_free {cfd : Option ℕ} {i : ℕ} (h : Inv s) (hc : ∀ c ∈ cfd, c ∉ s.clients) (hi : s.freeSlot = some i) :
    Inv (s.accept cfd) ∧ (Held s → Held (s.accept cfd)) := by
  obtain ⟨hpos, hfree⟩ := freeSlot_some hi
  have hnfds := store_nfds { s with clients := s.clients ∪ cfd.toFinset } i cfd
  rw [PollServer.accept_free hi]
  apply h.update hpos hc
  · exact fun j => (store_slot { s with clients := s.clients ∪ cfd.toFinset } i cfd j).2
  · intro d
    have hgone : (s.fds i).fd ≠ some d := hfree ▸ (Option.some_ne_none d).symm
    simp only [store, Finset.mem_union, Option.mem_toFinset, Option.mem_def, and_iff_left hgone, or_comm]
  · exact le_of_le_of_eq (le_max_left _ _) hnfds.symm
  · exact fun _ => le_of_le_of_eq (le_max_right _ _) hnfds.symm

/-- no slot is left for the result of `accept` -/
theorem Inv.accept_full {cfd : Option ℕ} (h : Inv s) (hc : ∀ c ∈ cfd, c ∉ s.clients) (hfull : s.freeSlot = none) :
    Inv (s.accept cfd) ∧ ∀ c ∈ cfd, Lost c (s.accept cfd) := by
  rw [PollServer.accept_full cfd hfull]
  refine ⟨⟨fun i hi d hd => Finset.mem_union_left _ (h.client i hi d hd), h.distinct, h.above⟩, fun c hmem => ?_⟩
  refine ⟨Finset.mem_union_right _ (Option.mem_toFinset.2 hmem), fun i hi hfd => ?_⟩
  exact hc c hmem (h.client i hi c hfd)

/-- the server before the dispatch loop: every client has its slot, or the new one has none -/
theorem Inv.ready (h : Inv s) (hheld : Held s) (hc : ∀ c ∈ ρ.cfd, c ∉ s.clients) : Inv (s.ready ρ) ∧
    ((s.hasRoom ρ = true ∧ Held (s.ready ρ)) ∨ (s.hasRoom ρ = false ∧ ∃ c, Lost c (s.ready ρ))) := by
  obtain ⟨hinv, hpolled⟩ := h.poll ρ
  have hheld' := hpolled.2 hheld
  unfold hasRoom
  rw [← freeSlot_poll s ρ]
  by_cases h0 : s.reported ρ 0 = true
  · rw [PollServer.ready, if_pos h0, h0]
    cases hfree : (s.poll ρ).freeSlot with
    | some i =>
      obtain ⟨hready, hkept⟩ := hinv.accept_free hc hfree
      exact ⟨hready, Or.inl ⟨by simp, hkept hheld'⟩⟩
    | none =>
      obtain ⟨hready, hlost⟩ := hinv.accept_full hc hfree
      refine ⟨hready, ?_⟩
      cases hcfd : ρ.cfd with
      | none =>
        refine Or.inl ⟨rfl, ?_⟩
        rw [PollServer.accept_full _ hfree]
        have hsame : Held { s.poll ρ with clients := (s.poll ρ).clients ∪ (none : Option ℕ).toFinset } ↔
            Held (s.poll ρ) := hinv.held_congr (Finset.union_empty _) le_rfl fun _ _ => rfl
        exact hsame.2 hheld'
      | some c =>
        rw [hcfd] at hlost
        exact Or.inr ⟨rfl, c, hlost c rfl⟩
  · rw [PollServer.ready, if_neg h0, Bool.eq_false_iff.2 h0]
    exact ⟨hinv, Or.inl ⟨rfl, hheld'⟩⟩

theorem Inv.step (h : Inv s) (hheld : Held s) (hstep : s.step ρ = some t) :
    Inv t ∧ (Held t ↔ s.hasRoom ρ = true) := by
  unfold PollServer.step at hstep
  split_ifs at hstep with hρ
  obtain ⟨hinv, hcases⟩ := h.ready hheld (of_decide_eq_true hρ)
  have hslots : ∀ i ∈ List.range' 1 (s.ready ρ).nfds, 1 ≤ i := fun i hi => (mem_slots.1 hi).1
  refine ⟨dispatch_inv (I := Inv) (fun u i hi hu => (hu.drop (hslots i hi)).1) hinv hstep, ?_⟩
  rcases hcases with ⟨hroom, hheld'⟩ | ⟨hroom, c, hlost⟩
  · have hkept := dispatch_inv (I := fun u => Inv u ∧ Held u)
      (fun u i hi hu => ⟨(hu.1.drop (hslots i hi)).1, (hu.1.drop (hslots i hi)).2 hu.2⟩) ⟨hinv, hheld'⟩ hstep
    exact iff_of_true hkept.2 hroom
  · have hkept := dispatch_inv (I := Lost c) (fun u i hi hu => hu.drop (hslots i hi)) hlost hstep
    rw [hroom]
    exact iff_of_false hkept.not_held nofun

/-- **The rounds of the poll server.** In every state of every run, whatever `revents` held before: a round reads exactly
the slots that its call of `poll` reported, each once, if and only if no `read` fails before the last of them, and the
slots up to the one that a new client gets have no POLLIN in memory or a `read` fails. And every client is in exactly one
slot from 1 to `nfds` all along the run if and only if every `accept` of a client finds a free slot. -/
theorem poll_serves_iff {lfd : ℕ} {garbage : ℕ → Bool} {ρs : List PollRound}
    (h : Run.exec step (start lfd garbage) ρs = some s) :
    (∀ ρ, s.ServesExactly ρ ↔ s.failsLast ρ = true ∧ (s.addsClear ρ = true ∨ s.failsSome ρ = true)) ∧
    (Run.Throughout step Held (start lfd garbage) ρs ↔
      Run.Along step (fun u ρ => u.hasRoom ρ = true) (start lfd garbage) ρs) := by
  refine ⟨servesExactly_iff s, ?_⟩
  apply Run.throughout_iff_along (I := Inv)
  · exact fun u ρ t hinv hheld hstep => hinv.step hheld hstep
  · exact inv_start lfd garbage
  · exact fun c hc => absurd hc (Finset.notMem_empty c)
  · exact h

/-- a client connects, with descriptor 4 -/
def connects : PollRound := ⟨fun i => i == 0, some 4, fun _ => .data [97]⟩

/-- it sends a byte -/
def sends : PollRound := ⟨fun i => i == 1, none, fun _ => .data [97]⟩

def oneClient : Option PollServer := Run.exec step (start 3 fun _ => false) [connects]

theorem oneClient_isSome : oneClient.isSome = true := by decide +kernel

theorem poll_serves_oneClient : (oneClient.get oneClient_isSome).ServesExactly sends ∧
    Run.Throughout step Held (start 3 fun _ => false) [connects] := by
  obtain ⟨hserves, hheld⟩ := poll_serves_iff (Option.some_get oneClient_isSome).symm
  exact ⟨(hserves sends).2 (by decide +kernel), hheld.2 (by decide +kernel)⟩

/-- **A client that is read before `poll` has reported it.** The `revents` of its slot was never written. -/
theorem poll_reads_unreported : served ((start 3 fun _ => true).round connects).1 = [1] ∧
    (start 3 fun _ => true).reported connects 1 = false ∧ (start 3 fun _ => true).possible connects = true := by
  decide +kernel

end PollServer

end WebServer.Lesson35
