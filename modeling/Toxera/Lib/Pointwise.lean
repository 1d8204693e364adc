import Mathlib.Data.List.Nodup

/-!
# Maps and states changed one cell at a time

A partial map that is given a value holds that value or what it held before.
-/

namespace Pointwise

universe u v w
variable {σ : Type u} {ι : Type v} {α : Type w} (get : σ → ι → α)

theorem foldl_cell (body : σ → ι → σ) (act : ι → α → α)
    (here : ∀ s j, get (body s j) j = act j (get s j))
    (elsewhere : ∀ s j i, i ≠ j → get (body s j) i = get s i)
    {l : List ι} (distinct : l.Nodup) (s : σ) (i : ι) :
    (i ∈ l → get (l.foldl body s) i = act i (get s i)) ∧
    (i ∉ l → get (l.foldl body s) i = get s i) := by
  induction l generalizing s with
  | nil => simp
  | cons j rest ih =>
    obtain ⟨hj, hrest⟩ := List.nodup_cons.mp distinct
    obtain ⟨visited, skipped⟩ := ih hrest (body s j)
    constructor
    · intro hi
      rcases List.mem_cons.mp hi with rfl | hi'
      · rw [List.foldl_cons, skipped hj, here]
      · have hne : i ≠ j := by rintro rfl; exact hj hi'
        rw [List.foldl_cons, visited hi', elsewhere s j i hne]
    · grind

theorem foldlM_cell {m : Type u → Type*} [Monad m] [LawfulMonad m] (body : σ → ι → m σ)
    (pre : ι → α → Prop) (post : ι → α → α → Prop)
    (keep : σ → σ → Prop) (refl : ∀ s, keep s s)
    (trans : ∀ s t r, keep s t → keep t r → keep s r)
    (step : ∀ s j, pre j (get s j) → ∃ t, body s j = pure t ∧ post j (get s j) (get t j) ∧
      keep s t ∧ ∀ i, i ≠ j → get t i = get s i)
    {l : List ι} (distinct : l.Nodup) (s : σ) (ready : ∀ j ∈ l, pre j (get s j)) :
    ∃ t, l.foldlM body s = pure t ∧ keep s t ∧
      (∀ j ∈ l, post j (get s j) (get t j)) ∧ ∀ i, i ∉ l → get t i = get s i := by
  induction l generalizing s with
  | nil => exact ⟨s, List.foldlM_nil, refl s, by simp, by simp⟩
  | cons j rest ih =>
    obtain ⟨hj, hrest⟩ := List.nodup_cons.mp distinct
    obtain ⟨m, hbody, hpost, hkeep, hother⟩ := step s j (ready j List.mem_cons_self)
    have ne_of_mem : ∀ i ∈ rest, i ≠ j := by rintro i hi rfl; exact hj hi
    obtain ⟨t, hfold, hkeep', hposts, hothers⟩ := ih hrest m (by
      intro i hi
      rw [hother i (ne_of_mem i hi)]
      exact ready i (List.mem_cons_of_mem j hi))
    refine ⟨t, ?_, trans s m t hkeep hkeep', ?_, ?_⟩
    · grind
    · intro i hi
      rcases List.mem_cons.mp hi with rfl | hi'
      · rw [hothers i hj]
        exact hpost
      · grind
    · grind

theorem foldlM_ok_iff {ε : Type*} (body : σ → ι → Except ε σ) (pre : α → Prop)
    (here : ∀ s j, (∃ t, body s j = .ok t) ↔ pre (get s j))
    (elsewhere : ∀ s j t i, body s j = .ok t → i ≠ j → get t i = get s i)
    {l : List ι} (distinct : l.Nodup) (s : σ) :
    (∃ t, l.foldlM body s = .ok t) ↔ ∀ j ∈ l, pre (get s j) := by
  induction l generalizing s with
  | nil => exact ⟨fun _ j hj => (by cases hj), fun _ => ⟨s, rfl⟩⟩
  | cons j rest ih =>
    obtain ⟨hj, hrest⟩ := List.nodup_cons.mp distinct
    rw [List.forall_mem_cons, ← here, List.foldlM_cons]
    cases hbody : body s j with
    | error e => exact ⟨fun ⟨t, ht⟩ => (by cases ht), fun ⟨⟨t, ht⟩, _⟩ => (by cases ht)⟩
    | ok m =>
      have same : ∀ i ∈ rest, get m i = get s i := by grind
      refine (ih hrest m).trans ⟨fun h => ⟨⟨m, rfl⟩, ?_⟩, fun h => ?_⟩
      · grind
      · grind

section Update
variable [DecidableEq ι] {m : ι → Option α} {i j : ι} {a b : α}

theorem update_some (h : Function.update m i (some a) j = some b) :
    j = i ∧ b = a ∨ j ≠ i ∧ m j = some b := by
  by_cases hj : j = i
  · grind
  · grind

theorem update_defined {P : ι → Prop} (defined : ∀ j, m j ≠ none ↔ P j) (hi : P i) (a : α)
    (j : ι) : Function.update m i (some a) j ≠ none ↔ P j := by
  by_cases hj : j = i
  · subst j
    simpa using hi
  · rw [Function.update_of_ne hj]
    exact defined j

end Update

end Pointwise
