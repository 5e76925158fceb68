/-
A `while` loop given by its round: a round either goes on with a new state (`inl`) or leaves the loop with a result
(`inr`). `iterate` runs it for a number of rounds; `none` means that the loop has not ended by then.

- `iterate_rel`: two loops whose rounds correspond end alike.
- `Ranked`: every round that goes on lowers a rank or leaves the state as it was. A loop that repeats a state never
  ends, so `rank + 1` rounds decide what the loop does (`iterate_stable`). `outcome` is that answer; `outcome_inl`,
  `outcome_inr` and `outcome_fixed` are its equations without a number of rounds.
-/
import Mathlib.Data.Option.Basic
import Mathlib.Data.Sum.Basic
import Mathlib.Tactic.Common

namespace WebServer.Loop

variable {σ τ β γ : Type*}

def iterate (round : σ → σ ⊕ β) : ℕ → σ → Option β
  | 0, _ => none
  | n + 1, s =>
    match round s with
    | .inl s' => iterate round n s'
    | .inr b => some b

variable {round : σ → σ ⊕ β}

theorem iterate_inl {s s' : σ} (h : round s = .inl s') (n : ℕ) : iterate round (n + 1) s = iterate round n s' := by
  simp only [iterate, h]

theorem iterate_inr {s : σ} {b : β} (h : round s = .inr b) (n : ℕ) : iterate round (n + 1) s = some b := by
  simp only [iterate, h]

/-- a loop that has ended does not change its result -/
theorem iterate_mono {n m : ℕ} {s : σ} {b : β} (h : iterate round n s = some b) (hm : n ≤ m) :
    iterate round m s = some b := by
  induction n generalizing m s with
  | zero => cases h
  | succ n ih =>
    obtain ⟨m, rfl⟩ : ∃ k, m = k + 1 := ⟨m - 1, by omega⟩
    cases hr : round s with
    | inl s' =>
      rw [iterate_inl hr] at h ⊢
      exact ih h (by omega)
    | inr c => rwa [iterate_inr hr] at h ⊢

/-- a state that repeats is never left -/
theorem iterate_fixed {s : σ} (h : round s = .inl s) (n : ℕ) : iterate round n s = none := by
  induction n with
  | zero => rfl
  | succ n ih => rw [iterate_inl h, ih]

/-- **Two loops with corresponding rounds end alike.** -/
theorem iterate_rel {round' : τ → τ ⊕ γ} {R : σ → τ → Prop} {Q : β → γ → Prop}
    (h : ∀ s t, R s t → Sum.LiftRel R Q (round s) (round' t)) (n : ℕ) {s : σ} {t : τ} (hst : R s t) :
    Option.Rel Q (iterate round n s) (iterate round' n t) := by
  induction n generalizing s t with
  | zero => exact .none
  | succ n ih =>
    have hround := h s t hst
    cases hs : round s with
    | inl s' =>
      rw [hs] at hround
      cases ht : round' t with
      | inl t' =>
        rw [ht] at hround
        rw [iterate_inl hs, iterate_inl ht]
        exact ih (Sum.liftRel_inl_inl.1 hround)
      | inr c => rw [ht] at hround; cases hround
    | inr b =>
      rw [hs] at hround
      cases ht : round' t with
      | inl t' => rw [ht] at hround; cases hround
      | inr c =>
        rw [ht] at hround
        rw [iterate_inr hs, iterate_inr ht]
        exact .some (Sum.liftRel_inr_inr.1 hround)

/-- what every round keeps and every result has -/
theorem iterate_inv {I : σ → Prop} {Q : β → Prop} (h : ∀ s, I s → Sum.elim I Q (round s)) {n : ℕ} {s : σ} (hs : I s)
    {b : β} (hb : iterate round n s = some b) : Q b := by
  induction n generalizing s with
  | zero => cases hb
  | succ n ih =>
    have hround := h s hs
    cases hr : round s with
    | inl s' =>
      rw [hr] at hround
      rw [iterate_inl hr] at hb
      exact ih hround hb
    | inr c =>
      rw [hr] at hround
      rw [iterate_inr hr] at hb
      cases hb
      exact hround

/-! ## Loops that end or repeat -/

def Ranked (round : σ → σ ⊕ β) (rank : σ → ℕ) : Prop :=
  ∀ s s', round s = .inl s' → rank s' < rank s ∨ s' = s

variable {rank : σ → ℕ}

/-- **More rounds than the rank change nothing.** -/
theorem iterate_stable (h : Ranked round rank) {n m : ℕ} {s : σ} (hn : rank s < n) (hm : n ≤ m) :
    iterate round m s = iterate round n s := by
  induction n generalizing m s with
  | zero => omega
  | succ n ih =>
    obtain ⟨m, rfl⟩ : ∃ k, m = k + 1 := ⟨m - 1, by omega⟩
    cases hr : round s with
    | inl s' =>
      rcases h s s' hr with hlt | rfl
      · rw [iterate_inl hr, iterate_inl hr]
        exact ih (by omega) (by omega)
      · rw [iterate_fixed hr, iterate_fixed hr]
    | inr b => rw [iterate_inr hr, iterate_inr hr]

/-- what the loop gives, `none` when it never ends -/
def outcome (round : σ → σ ⊕ β) (rank : σ → ℕ) (s : σ) : Option β := iterate round (rank s + 1) s

theorem iterate_eq_outcome (h : Ranked round rank) {n : ℕ} {s : σ} (hn : rank s < n) :
    iterate round n s = outcome round rank s :=
  iterate_stable h (Nat.lt_succ_self _) hn

theorem outcome_inl (h : Ranked round rank) {s s' : σ} (hr : round s = .inl s') :
    outcome round rank s = outcome round rank s' := by
  rcases h s s' hr with hlt | rfl
  · rw [outcome, iterate_inl hr, iterate_eq_outcome h hlt]
  · rfl

theorem outcome_inr {s : σ} {b : β} (hr : round s = .inr b) : outcome round rank s = some b := iterate_inr hr _

theorem outcome_fixed {s : σ} (hr : round s = .inl s) : outcome round rank s = none := iterate_fixed hr _

/-- loops with corresponding rounds, compared by their outcomes -/
theorem outcome_rel {round' : τ → τ ⊕ γ} {rank' : τ → ℕ} {R : σ → τ → Prop} {Q : β → γ → Prop}
    (hr : Ranked round rank) (hr' : Ranked round' rank')
    (h : ∀ s t, R s t → Sum.LiftRel R Q (round s) (round' t)) {s : σ} {t : τ} (hst : R s t) :
    Option.Rel Q (outcome round rank s) (outcome round' rank' t) := by
  have hs := iterate_eq_outcome hr (Nat.lt_succ_of_le (Nat.le_max_left (rank s) (rank' t)))
  have ht := iterate_eq_outcome hr' (Nat.lt_succ_of_le (Nat.le_max_right (rank s) (rank' t)))
  rw [← hs, ← ht]
  exact iterate_rel h _ hst

end WebServer.Loop
