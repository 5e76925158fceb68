/-
The dispatch loop of the echo servers (lesson35/select.c, lesson35/poll.c): one pass over the table, with a `read` for
every index that is reported.

A `read` that fails ends the server (`exit`), so the indices behind it are not visited any more. The table changes only at
the index that is served, so what is reported is the same for the whole pass.

- `mem_served_dispatch`: the indices that are read are the reported ones, up to and with the first `read` that fails.
- `dispatch_inv`: what every removed client keeps, the pass keeps.
-/
import WebServer.Core.Buf

namespace WebServer.Lesson35

/-- a result of `read` -/
inductive ReadResult where
  | error
  | closed
  | data (l : Bytes)
deriving DecidableEq, Repr

/-- what a round does. The number is the descriptor in select.c, and the slot in poll.c. -/
inductive Event where
  | read (i : ℕ)
  | close (i : ℕ)
  | write (i : ℕ) (text : Bytes)
deriving DecidableEq, Repr

/-- `recvBuf`, cleared and then filled by `read` -/
def recvBuf (l : Bytes) : Buf 1024 := Buf.zero.write 0 l

variable {σ : Type*} (ready : ℕ → Bool) (reads : ℕ → ReadResult) (drop : σ → ℕ → σ)

/-- the loop over the given indices; `drop` takes a client out of the table. No state is left when the server exits. -/
def dispatch : List ℕ → σ → List Event × Option σ
  | [], s => ([], some s)
  | i :: is, s =>
    if ready i then
      match reads i with
      | .error => ([.read i], none)
      | .closed => (.read i :: .close i :: (dispatch is (drop s i)).1, (dispatch is (drop s i)).2)
      -- `strlen` stops at the end of the block, also where the source would run over it
      | .data l => (.read i :: .write i ((recvBuf l).cstr 0 ++ [0]) :: (dispatch is s).1, (dispatch is s).2)
    else dispatch is s

/-- the indices that are read -/
def served (es : List Event) : List ℕ :=
  es.filterMap fun
    | .read i => some i
    | _ => none

/-- a list up to and with the first element that has the property -/
def throughFirst (p : ℕ → Bool) : List ℕ → List ℕ
  | [] => []
  | i :: is => if p i then [i] else i :: throughFirst p is

def ReadResult.fails (r : ReadResult) : Bool := decide (r = .error)

/-! ## Sorted lists -/

variable {p : ℕ → Bool} {l : List ℕ}

theorem throughFirst_sublist (p : ℕ → Bool) (l : List ℕ) : (throughFirst p l).Sublist l := by
  induction l with
  | nil => exact List.Sublist.refl []
  | cons i is ih =>
    unfold throughFirst
    split_ifs
    · exact List.singleton_sublist.2 List.mem_cons_self
    · exact ih.cons_cons i

/-- in a sorted list: the elements before which none has the property -/
theorem mem_throughFirst (hl : l.Pairwise (· < ·)) {j : ℕ} :
    j ∈ throughFirst p l ↔ j ∈ l ∧ ∀ i ∈ l, p i = true → j ≤ i := by
  induction l with
  | nil => exact iff_of_false List.not_mem_nil fun h => List.not_mem_nil h.1
  | cons k is ih =>
    obtain ⟨hk, his⟩ := List.pairwise_cons.1 hl
    have hmin : ∀ i ∈ k :: is, k ≤ i := List.forall_mem_cons.2 ⟨le_rfl, fun i hi => (hk i hi).le⟩
    unfold throughFirst
    split_ifs with hpk
    · rw [List.mem_singleton]
      constructor
      · rintro rfl
        exact ⟨List.mem_cons_self, fun i hi _ => hmin i hi⟩
      · rintro ⟨hj, hle⟩
        exact le_antisymm (hle k List.mem_cons_self hpk) (hmin j hj)
    · rw [List.mem_cons, List.mem_cons, ih his]
      constructor
      · rintro (rfl | ⟨hj, hle⟩)
        · exact ⟨Or.inl rfl, fun i hi _ => hmin i hi⟩
        · exact ⟨Or.inr hj, List.forall_mem_cons.2 ⟨fun hp => absurd hp hpk, hle⟩⟩
      · rintro ⟨hj, hle⟩
        exact hj.imp_right fun hj => ⟨hj, fun i hi => hle i (List.mem_cons_of_mem _ hi)⟩

/-! ## The loop -/

theorem served_dispatch (is : List ℕ) (s : σ) :
    served (dispatch ready reads drop is s).1 = throughFirst (fun i => (reads i).fails) (is.filter ready) := by
  induction is generalizing s with
  | nil => rfl
  | cons i is ih =>
    unfold dispatch
    split_ifs with hready
    · rw [List.filter_cons_of_pos hready]
      unfold throughFirst
      cases hr : reads i with
      | error => rfl
      | closed => exact congrArg (i :: ·) (ih _)
      | data l => exact congrArg (i :: ·) (ih _)
    · rw [List.filter_cons_of_neg hready]
      exact ih s

variable {ready reads drop} {is : List ℕ} (hl : is.Pairwise (· < ·))
include hl

theorem nodup_served_dispatch (s : σ) : (served (dispatch ready reads drop is s).1).Nodup := by
  rw [served_dispatch]
  have hsorted := (hl.filter ready).sublist (throughFirst_sublist (fun i => (reads i).fails) _)
  exact hsorted.imp fun hij => hij.ne

theorem mem_served_dispatch (s : σ) {j : ℕ} : j ∈ served (dispatch ready reads drop is s).1 ↔
    (j ∈ is ∧ ready j = true) ∧ ∀ i ∈ is, ready i = true → (reads i).fails = true → j ≤ i := by
  rw [served_dispatch, mem_throughFirst (hl.filter ready), List.mem_filter]
  refine and_congr_right fun _ => forall_congr' fun i => ?_
  rw [List.mem_filter, and_imp]

omit hl

theorem dispatch_inv {I : σ → Prop} (hdrop : ∀ s, ∀ i ∈ is, I s → I (drop s i)) {s t : σ} (hs : I s)
    (h : (dispatch ready reads drop is s).2 = some t) : I t := by
  induction is generalizing s with
  | nil =>
    cases h
    exact hs
  | cons i is ih =>
    have hrest : ∀ s, ∀ j ∈ is, I s → I (drop s j) := fun s j hj => hdrop s j (List.mem_cons_of_mem _ hj)
    unfold dispatch at h
    split_ifs at h
    · cases hr : reads i with
      | error =>
        rw [hr] at h
        cases h
      | closed =>
        rw [hr] at h
        exact ih hrest (hdrop s i List.mem_cons_self hs) h
      | data l =>
        rw [hr] at h
        exact ih hrest hs h
    · exact ih hrest hs h

end WebServer.Lesson35
