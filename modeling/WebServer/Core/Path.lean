/-
Lexical resolution of file paths.

A path is the list of its names, and one name (`up`) stands for the parent directory. `resolve base xs` follows `xs` from
the directory `base`, where climbing above the root has no effect. `reduce xs` is what remains of `xs` by itself: how
often it climbs above its start, and the names it then descends through.

- `resolve_eq`: following `xs` from `base` is climbing and descending as `reduce xs` says.
- `prefix_place_iff`: the place reached is below `base` exactly when it descends through the names it climbed out of.
- `names_append`: the names of a path text that continues with a separator.
-/
import Mathlib.Tactic

namespace WebServer.Path

variable {ν : Type*}

/-! ## Places -/

/-- the place that `p.1` climbs from `base` and the names `p.2` lead to -/
def place (base : List ν) (p : ℕ × List ν) : List ν := base.take (base.length - p.1) ++ p.2

/-- **A place is below `base` exactly when it descends through the names that were climbed out of.** -/
theorem prefix_place_iff (base : List ν) (p : ℕ × List ν) :
    base <+: place base p ↔ base.drop (base.length - p.1) <+: p.2 := by
  have h : base.take (base.length - p.1) ++ base.drop (base.length - p.1) <+: place base p ↔
      base.drop (base.length - p.1) <+: p.2 :=
    List.prefix_append_right_inj _
  rwa [List.take_append_drop] at h

/-! ## Following names -/

variable [DecidableEq ν] (up : ν)

def follow (dir : List ν) (x : ν) : List ν := if x = up then dir.dropLast else dir ++ [x]

def resolve (base xs : List ν) : List ν := xs.foldl (follow up) base

/-- climbs so far and names below: one name more -/
def shorten (p : ℕ × List ν) (x : ν) : ℕ × List ν :=
  if x = up then if p.2 = [] then (p.1 + 1, []) else (p.1, p.2.dropLast) else (p.1, p.2 ++ [x])

def reduce (xs : List ν) : ℕ × List ν := xs.foldl (shorten up) (0, [])

theorem resolve_append (base xs ys : List ν) : resolve up base (xs ++ ys) = resolve up (resolve up base xs) ys :=
  List.foldl_append

theorem follow_place (base : List ν) (p : ℕ × List ν) (x : ν) :
    follow up (place base p) x = place base (shorten up p x) := by
  unfold follow shorten place
  split_ifs with hx hp
  · rw [hp, List.append_nil, List.append_nil, List.dropLast_eq_take, List.take_take, List.length_take]
    congr 1
    omega
  · rw [List.dropLast_append_of_ne_nil hp]
  · rw [List.append_assoc]

theorem resolve_place (base : List ν) (p : ℕ × List ν) (xs : List ν) :
    resolve up (place base p) xs = place base (xs.foldl (shorten up) p) := by
  induction xs generalizing p with
  | nil => rfl
  | cons x xs ih =>
    rw [resolve, List.foldl_cons, follow_place, List.foldl_cons]
    exact ih _

/-- **Following a path is climbing and then descending.** -/
theorem resolve_eq (base xs : List ν) : resolve up base xs = place base (reduce up xs) := by
  have h : place base (0, []) = base := by simp [place]
  conv_lhs => rw [← h]
  exact resolve_place up base (0, []) xs

/-! ## Names of a text -/

section Names

variable {α : Type*} [DecidableEq α] (sep dot : α)

/-- the names between separators; empty ones and single dots name nothing -/
def names (l : List α) : List (List α) := (l.splitOn sep).filter fun x => x ≠ [] ∧ x ≠ [dot]

theorem names_append (l : List α) {m : List α} (h : m.head? = some sep) :
    names sep dot (l ++ m) = names sep dot l ++ names sep dot m := by
  obtain ⟨t, rfl⟩ : ∃ t, m = sep :: t := by
    cases m with
    | nil => cases h
    | cons b t => exact ⟨t, by simpa using h⟩
  have hsplit : ∀ l, (l ++ sep :: t).splitOn sep = l.splitOn sep ++ t.splitOn sep :=
    fun l => List.splitOnP_append_cons l t (by simp)
  have hnil := hsplit []
  rw [List.nil_append] at hnil
  simp only [names, hsplit, hnil, List.filter_append]
  simp

end Names

end WebServer.Path
