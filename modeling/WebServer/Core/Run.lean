/-
Runs of a machine: operations applied one after the other, each of which may not be enabled in its state.

- `exec_inv`: what holds at the start and is kept by every operation holds in every state of every run. With a condition
  on the operations of the run (`Along`), only operations that meet it have to keep the property.
- `exec_history`: the same for a property that also speaks of the operations done so far.
- `exec_length_le`: a measure that every operation decreases bounds the length of a run; `exec_count_le`: one that an
  operation decreases and no other increases bounds how often it occurs.
- `throughout_iff_along`: a property that an operation keeps exactly under a condition holds all along a run exactly when
  the condition is met at every operation.
- `observe_eq`: two runs of the same operations from related states look the same, if every operation relates the states
  after it and shows the same.
- `exec_project`: a run of a system is, for one component of it, a run of the component.
- `exec_simulates`: a run of a system whose operations are runs of a simpler one is a run of the simpler one.
- `sum_update`: counting over a family of threads, one of which changes its state.
-/
import Mathlib.Algebra.BigOperators.Fin
import Mathlib.Tactic

namespace WebServer.Run

variable {σ τ α β : Type*}

def exec (step : σ → α → Option σ) : σ → List α → Option σ
  | s, [] => some s
  | s, a :: as =>
    match step s a with
    | some t => exec step t as
    | none => none

/-- every operation of the run meets `ok` in the state it is applied to -/
def Along (step : σ → α → Option σ) (ok : σ → α → Prop) : σ → List α → Prop
  | _, [] => True
  | s, a :: as => ok s a ∧ ∀ t, step s a = some t → Along step ok t as

variable {step : σ → α → Option σ}

instance decidableAlong {ok : σ → α → Prop} [∀ s a, Decidable (ok s a)] : ∀ s as, Decidable (Along step ok s as)
  | _, [] => .isTrue trivial
  | s, a :: as =>
    match hs : step s a with
    | some t =>
      have : Decidable (Along step ok t as) := decidableAlong t as
      decidable_of_iff (ok s a ∧ Along step ok t as)
        (and_congr_right' ⟨fun h _ hu => Option.some.inj (hs.symm.trans hu) ▸ h, fun h => h t hs⟩)
    | none =>
      decidable_of_iff (ok s a) ⟨fun h => ⟨h, fun _ hu => absurd (hs.symm.trans hu) nofun⟩, And.left⟩

theorem exec_cons {s t : σ} {a : α} {as : List α} (h : exec step s (a :: as) = some t) :
    ∃ u, step s a = some u ∧ exec step u as = some t := by
  cases hs : step s a with
  | none => simp only [exec, hs] at h; cases h
  | some u => exact ⟨u, rfl, by simpa only [exec, hs] using h⟩

theorem exec_append {s t : σ} {as : List α} (h : exec step s as = some t) (bs : List α) :
    exec step s (as ++ bs) = exec step t bs := by
  induction as generalizing s with
  | nil => cases h; rfl
  | cons a as ih =>
    obtain ⟨u, hu, ht⟩ := exec_cons h
    simp only [List.cons_append, exec, hu]
    exact ih ht

/-- a run of two parts goes through a state between them -/
theorem exec_append_some {s t : σ} {as bs : List α} (h : exec step s (as ++ bs) = some t) :
    ∃ u, exec step s as = some u ∧ exec step u bs = some t := by
  induction as generalizing s with
  | nil => exact ⟨s, rfl, h⟩
  | cons a as ih =>
    obtain ⟨v, hv, hrest⟩ := exec_cons h
    obtain ⟨u, hu, hbs⟩ := ih hrest
    exact ⟨u, by simp only [exec, hv, hu], hbs⟩

/-- operations that leave the state as it is -/
theorem exec_fixed {s : σ} {as : List α} (h : ∀ a ∈ as, step s a = some s) : exec step s as = some s := by
  induction as with
  | nil => rfl
  | cons a as ih =>
    simp only [exec, h a List.mem_cons_self]
    exact ih fun b hb => h b (List.mem_cons_of_mem a hb)

/-- **The invariant rule, for runs whose operations all meet a condition.** -/
theorem exec_inv_along {ok : σ → α → Prop} {I : σ → Prop} (hstep : ∀ s a t, I s → ok s a → step s a = some t → I t)
    {s t : σ} {as : List α} (hs : I s) (hok : Along step ok s as) (h : exec step s as = some t) : I t := by
  induction as generalizing s with
  | nil => cases h; exact hs
  | cons a as ih =>
    obtain ⟨u, hu, ht⟩ := exec_cons h
    exact ih (hstep s a u hs hok.1 hu) (hok.2 u hu) ht

theorem along_of_forall {ok : σ → α → Prop} {as : List α} (h : ∀ a ∈ as, ∀ s, ok s a) (s : σ) :
    Along step ok s as := by
  induction as generalizing s with
  | nil => trivial
  | cons a as ih => exact ⟨h a List.mem_cons_self s, fun t _ => ih (fun b hb => h b (List.mem_cons_of_mem a hb)) t⟩

theorem Along.and {ok ok' : σ → α → Prop} {s : σ} {as : List α} (h : Along step ok s as) (h' : Along step ok' s as) :
    Along step (fun s a => ok s a ∧ ok' s a) s as := by
  induction as generalizing s with
  | nil => trivial
  | cons a as ih => exact ⟨⟨h.1, h'.1⟩, fun t ht => ih (h.2 t ht) (h'.2 t ht)⟩

/-- a condition on the operations of a run that follows from another one, where the invariant of that one holds -/
theorem Along.imp {ok ok' : σ → α → Prop} {I : σ → Prop} (hstep : ∀ s a t, I s → ok s a → step s a = some t → I t)
    (himp : ∀ s a, I s → ok s a → ok' s a) {s : σ} {as : List α} (hs : I s) (h : Along step ok s as) :
    Along step ok' s as := by
  induction as generalizing s with
  | nil => trivial
  | cons a as ih => exact ⟨himp s a hs h.1, fun t ht => ih (hstep s a t hs h.1 ht) (h.2 t ht)⟩

/-- **The invariant rule.** -/
theorem exec_inv {I : σ → Prop} (hstep : ∀ s a t, I s → step s a = some t → I t) {s t : σ} {as : List α} (hs : I s)
    (h : exec step s as = some t) : I t :=
  have hok : Along step (fun _ _ => True) s as := along_of_forall (fun _ _ _ => trivial) s
  exec_inv_along (fun s a t hs _ => hstep s a t hs) hs hok h

/-- **The invariant rule for a property of the state and of the operations so far.** -/
theorem exec_history {I : List α → σ → Prop} (hstep : ∀ h s a t, I h s → step s a = some t → I (h ++ [a]) t) {s t : σ}
    {as : List α} (hs : I [] s) (h : exec step s as = some t) : I as t := by
  have hfrom : ∀ bs as s, I bs s → exec step s as = some t → I (bs ++ as) t := by
    intro bs as
    induction as generalizing bs with
    | nil =>
      intro s hs h
      cases h
      rwa [List.append_nil]
    | cons a as ih =>
      intro s hs h
      obtain ⟨u, hu, ht⟩ := exec_cons h
      have := ih (bs ++ [a]) u (hstep bs s a u hs hu) ht
      rwa [List.append_assoc] at this
  exact hfrom [] as s hs h

/-- every state of the run has the property -/
def Throughout (step : σ → α → Option σ) (P : σ → Prop) : σ → List α → Prop
  | s, [] => P s
  | s, a :: as => P s ∧ ∀ t, step s a = some t → Throughout step P t as

theorem Throughout.head {P : σ → Prop} {s : σ} {as : List α} (h : Throughout step P s as) : P s := by
  cases as with
  | nil => exact h
  | cons a as => exact h.1

/-- **The rule for a property that some operations break.** If an operation keeps the property exactly when it meets a
condition, then the property holds all along a run exactly when all its operations meet the condition. -/
theorem throughout_iff_along {ok : σ → α → Prop} {I P : σ → Prop}
    (hstep : ∀ s a t, I s → P s → step s a = some t → I t ∧ (P t ↔ ok s a)) {s t : σ} {as : List α} (hs : I s) (hp : P s)
    (h : exec step s as = some t) : Throughout step P s as ↔ Along step ok s as := by
  induction as generalizing s with
  | nil => exact iff_of_true hp trivial
  | cons a as ih =>
    obtain ⟨u, hu, ht⟩ := exec_cons h
    obtain ⟨hinv, hiff⟩ := hstep s a u hs hp hu
    constructor
    · rintro ⟨-, hrest⟩
      have hall := hrest u hu
      refine ⟨hiff.1 hall.head, fun v hv => ?_⟩
      obtain rfl : u = v := Option.some.inj (hu.symm.trans hv)
      exact (ih hinv hall.head ht).1 hall
    · rintro ⟨hok, hrest⟩
      refine ⟨hp, fun v hv => ?_⟩
      obtain rfl : u = v := Option.some.inj (hu.symm.trans hv)
      exact (ih hinv (hiff.2 hok) ht).2 (hrest u hu)

/-- a run is no longer than a measure that every operation of it decreases -/
theorem exec_length_le {step : σ → α → Option σ} {ok : α → Prop} {measure : σ → ℕ}
    (hstep : ∀ s a t, ok a → step s a = some t → measure t < measure s) {as : List α} {s t : σ}
    (hok : ∀ a ∈ as, ok a) (h : exec step s as = some t) : as.length + measure t ≤ measure s := by
  induction as generalizing s with
  | nil =>
    obtain rfl := Option.some.inj h
    exact (Nat.zero_add _).le
  | cons a as ih =>
    obtain ⟨u, hu, hrest⟩ := exec_cons h
    have hlt := hstep s a u (hok a List.mem_cons_self) hu
    have hle := ih (fun b hb => hok b (List.mem_cons_of_mem _ hb)) hrest
    rw [List.length_cons]
    omega

/-- an operation occurs no more often than a measure allows that it decreases and that no operation increases -/
theorem exec_count_le [DecidableEq α] {I : σ → Prop} {measure : σ → ℕ} {a : α}
    (hstep : ∀ s b t, I s → step s b = some t → I t ∧ measure t + (if b = a then 1 else 0) ≤ measure s) {as : List α}
    {s t : σ} (hs : I s) (h : exec step s as = some t) : as.count a + measure t ≤ measure s := by
  induction as generalizing s with
  | nil =>
    obtain rfl := Option.some.inj h
    exact (Nat.zero_add _).le
  | cons b as ih =>
    obtain ⟨u, hu, hrest⟩ := exec_cons h
    obtain ⟨hinv, hle⟩ := hstep s b u hs hu
    have hcount := ih hinv hrest
    rw [List.count_cons]
    simp only [beq_iff_eq]
    omega

/-! ## Two runs -/

/-- what operations show one after the other, up to the first one that does not return -/
def observe (step : σ → α → Option (β × σ)) : σ → List α → List (Option β)
  | _, [] => []
  | s, a :: as =>
    match step s a with
    | some (b, t) => some b :: observe step t as
    | none => [none]

/-- **The rule for two runs.** -/
theorem observe_eq {step : σ → α → Option (β × σ)} {R : σ → σ → Prop}
    (hstep : ∀ s t a, R s t → Option.Rel (fun x y => x.1 = y.1 ∧ R x.2 y.2) (step s a) (step t a))
    {s t : σ} (h : R s t) (as : List α) : observe step s as = observe step t as := by
  induction as generalizing s t with
  | nil => rfl
  | cons a as ih =>
    have hrel := hstep s t a h
    simp only [observe]
    generalize step s a = x at hrel
    generalize step t a = y at hrel
    cases hrel with
    | none => rfl
    | some hxy =>
      rename_i x y
      obtain ⟨b, s'⟩ := x
      obtain ⟨b', t'⟩ := y
      obtain ⟨rfl, hR⟩ := hxy
      exact congrArg (some b :: ·) (ih hR)

/-! ## One component of a run -/

/-- the operations of a run as one component sees them; `view` says what an operation is for the component, if anything -/
def project (step : σ → α → Option σ) (view : σ → α → Option β) : σ → List α → List β
  | _, [] => []
  | s, a :: as =>
    (view s a).toList ++
      match step s a with
      | some t => project step view t as
      | none => []

/-- **The rule for one component.** If every operation does to the component what the component's own step for it does,
a run of the whole is a run of the component. -/
theorem exec_project {step : σ → α → Option σ} {view : σ → α → Option β} {part : τ → β → Option τ} {R : σ → τ → Prop}
    {ok : σ → α → Prop}
    (hstep : ∀ s a t x, R s x → ok s a → step s a = some t →
      (view s a = none → R t x) ∧ ∀ b, view s a = some b → ∃ y, part x b = some y ∧ R t y)
    {as : List α} {s t : σ} {x : τ} (h : R s x) (hok : Along step ok s as) (hrun : exec step s as = some t) :
    ∃ y, exec part x (project step view s as) = some y ∧ R t y := by
  induction as generalizing s x with
  | nil =>
    obtain rfl := Option.some.inj hrun
    exact ⟨x, rfl, h⟩
  | cons a as ih =>
    obtain ⟨u, hu, hrest⟩ := exec_cons hrun
    obtain ⟨hnone, hsome⟩ := hstep s a u x h hok.1 hu
    simp only [project, hu]
    cases hv : view s a with
    | none => exact ih (hnone hv) (hok.2 u hu) hrest
    | some b =>
      obtain ⟨y, hy, hR⟩ := hsome b hv
      obtain ⟨z, hz, hR'⟩ := ih hR (hok.2 u hu) hrest
      refine ⟨z, ?_, hR'⟩
      rw [Option.toList_some, List.singleton_append]
      simpa only [exec, hy] using hz

/-- **The rule for simulations.** If every operation of a system is a run of a simpler one on what the simpler one sees,
a run of the system is a run of the simpler one. -/
theorem exec_simulates {step : σ → α → Option σ} {simpler : τ → β → Option τ} (view : σ → τ)
    (hstep : ∀ s a t, step s a = some t → ∃ bs, exec simpler (view s) bs = some (view t)) {as : List α} {s t : σ}
    (h : exec step s as = some t) : ∃ bs, exec simpler (view s) bs = some (view t) := by
  induction as generalizing s with
  | nil =>
    obtain rfl := Option.some.inj h
    exact ⟨[], rfl⟩
  | cons a as ih =>
    obtain ⟨u, hu, hrest⟩ := exec_cons h
    obtain ⟨bs, hbs⟩ := hstep s a u hu
    obtain ⟨cs, hcs⟩ := ih hrest
    exact ⟨bs ++ cs, by rw [exec_append hbs, hcs]⟩

/-! ## Threads -/

/-- a sum over all threads when thread `i` changes its state from `f i` to `v` -/
theorem sum_update {ι : Type*} [Fintype ι] [DecidableEq ι] (f : ι → β) (i : ι) (v : β) (g : β → ℕ) :
    (∑ j, g (Function.update f i v j)) + g (f i) = (∑ j, g (f j)) + g v := by
  have h1 := Finset.add_sum_erase Finset.univ (fun j => g (Function.update f i v j)) (Finset.mem_univ i)
  have h2 := Finset.add_sum_erase Finset.univ (fun j => g (f j)) (Finset.mem_univ i)
  have h3 : ∑ j ∈ Finset.univ.erase i, g (Function.update f i v j) = ∑ j ∈ Finset.univ.erase i, g (f j) :=
    Finset.sum_congr rfl fun j hj => by rw [Function.update_of_ne (Finset.ne_of_mem_erase hj)]
  rw [Function.update_self, h3] at h1
  omega

end WebServer.Run
