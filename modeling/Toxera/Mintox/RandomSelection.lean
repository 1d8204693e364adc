import Mathlib.Algebra.BigOperators.Fin
import Toxera.Mintox.CloseNodes

/-!
# Probabilities of a random selection

`SelectRandn` of `mintox/priority_list.go` keeps a sample of `k` items while it walks over
the list.
-/

namespace PriorityList

universe u v
variable {i n : Nat}

variable {κ : Type u} {α : Type v} {k m : Nat}

abbrev Outcome (k m : Nat) := (x : Fin m) → Fin (x.val + k)

def Outcome.draws (pos : 0 < k) (ω : Outcome k m) : Draws k :=
  fun x => if h : x < m then ω ⟨x, h⟩ else ⟨0, Nat.lt_of_lt_of_le pos (Nat.le_add_left k x)⟩

def Outcome.add (ω : Outcome k m) (j : Fin (m + k)) : Outcome k (m + 1) :=
  Fin.snoc (α := fun x => Fin (x.val + k)) ω j

/-- The list with its places for its items, which tells items of one value apart. -/
def numbered (l : PriorityList κ α) : PriorityList κ Nat :=
  { max := l.max, keys := ∅, lst := List.range l.lst.length }

def selectionProbability (l : PriorityList κ α) (pos : 0 < k) (i : Nat) : ℚ :=
  (Finset.univ.filter fun ω : Outcome k (l.lst.length - k) =>
      i ∈ l.numbered.selectRandn (ω.draws pos)).card /
    Fintype.card (Outcome k (l.lst.length - k))

theorem Outcome.draws_add_lt (pos : 0 < k) (ω : Outcome k m) (j : Fin (m + k)) {x : Nat}
    (before : x < m) : (ω.add j).draws pos x = ω.draws pos x := by
  rw [draws, draws, dif_pos before, dif_pos (Nat.lt_succ_of_lt before)]
  exact Fin.snoc_castSucc (α := fun x => Fin (x.val + k)) j ω ⟨x, before⟩

theorem Outcome.draws_add_last (pos : 0 < k) (ω : Outcome k m) (j : Fin (m + k)) :
    (ω.add j).draws pos m = j := by
  rw [draws, dif_pos (Nat.lt_succ_self m)]
  exact Fin.snoc_last (α := fun x => Fin (x.val + k)) j ω

theorem sum_outcomes (f : Outcome k (m + 1) → ℕ) :
    ∑ ω, f ω = ∑ ω : Outcome k m, ∑ j : Fin (m + k), f (ω.add j) := by
  rw [← (Fin.snocEquiv fun x : Fin (m + 1) => Fin (x.val + k)).sum_comp, Fintype.sum_prod_type,
    Finset.sum_comm]
  rfl

theorem card_outcomes (k m : Nat) :
    Fintype.card (Outcome k (m + 1)) = Fintype.card (Outcome k m) * (m + k) := by
  simp only [Outcome, Fintype.card_pi, Fintype.card_fin, Fin.prod_univ_castSucc, Fin.val_castSucc,
    Fin.val_last]

theorem replaceDrawn_congr {draw draw' : Draws k} (rest : List α) (x : Nat) (slts : List α)
    (same : ∀ y < x + rest.length, draw y = draw' y) :
    replaceDrawn draw x slts rest = replaceDrawn draw' x slts rest := by
  induction rest generalizing x slts with
  | nil => rfl
  | cons item rest ih =>
    rw [replaceDrawn, replaceDrawn, same x (by simp)]
    exact ih (x + 1) _ fun y hy => same y (by simp only [List.length_cons]; omega)

theorem replaceDrawn_snoc (draw : Draws k) (rest : List α) (x : Nat) (slts : List α) (item : α) :
    replaceDrawn draw x slts (rest ++ [item]) =
      if (draw (x + rest.length)).val < k then
        (replaceDrawn draw x slts rest).set (draw (x + rest.length)) item
      else replaceDrawn draw x slts rest := by
  induction rest generalizing x slts with
  | nil => rfl
  | cons first rest ih => grind [replaceDrawn]

theorem replaceDrawn_length (draw : Draws k) (rest : List α) (x : Nat) (slts : List α) :
    (replaceDrawn draw x slts rest).length = slts.length := by
  induction rest generalizing x slts with
  | nil => rfl
  | cons item rest ih =>
    rw [replaceDrawn, ih]
    split_ifs <;> simp

theorem replaceDrawn_nodup (draw : Draws k) {first rest : List α} (nodup : (first ++ rest).Nodup) :
    (replaceDrawn draw 0 first rest).Nodup ∧ ∀ a ∈ replaceDrawn draw 0 first rest,
      a ∈ first ++ rest := by
  induction rest using List.reverseRecOn with
  | nil =>
    rw [List.append_nil] at nodup ⊢
    exact ⟨nodup, fun a ha => ha⟩
  | append_singleton rest item ih =>
    rw [← List.append_assoc] at nodup ⊢
    obtain ⟨old, -, new⟩ := List.nodup_append.mp nodup
    obtain ⟨distinct, among⟩ := ih old
    have fresh : item ∉ replaceDrawn draw 0 first rest :=
      fun h => new item (among item h) item (List.mem_singleton_self item) rfl
    rw [replaceDrawn_snoc]
    split_ifs
    · refine ⟨distinct.set fresh, fun a ha => ?_⟩
      rcases List.mem_or_eq_of_mem_set ha with ha | rfl
      · exact List.mem_append_left _ (among a ha)
      · grind
    · grind

theorem replaceDrawn_add (pos : 0 < k) (ω : Outcome k m) (j : Fin (m + k)) (first : List α)
    {rest : List α} (rounds : rest.length = m) (item : α) :
    replaceDrawn ((ω.add j).draws pos) 0 first (rest ++ [item]) =
      if j.val < k then (replaceDrawn (ω.draws pos) 0 first rest).set j item
      else replaceDrawn (ω.draws pos) 0 first rest := by
  have before : replaceDrawn ((ω.add j).draws pos) 0 first rest =
      replaceDrawn (ω.draws pos) 0 first rest :=
    replaceDrawn_congr rest 0 first fun y hy => ω.draws_add_lt pos j (by omega)
  have last : ((ω.add j).draws pos (0 + rest.length)).val = j := by
    subst rounds
    rw [Nat.zero_add, Outcome.draws_add_last]
  rw [replaceDrawn_snoc, before, last]

theorem mem_set_iff {slts : List α} (nodup : slts.Nodup) (hi : i < slts.length) {item a : α}
    (other : a ≠ item) : a ∈ slts.set i item ↔ a ∈ slts ∧ slts[i] ≠ a := by
  constructor
  · intro ha
    obtain ⟨j, hj, at_j⟩ := List.mem_iff_getElem.mp ha
    rw [List.length_set] at hj
    rw [List.getElem_set] at at_j
    split_ifs at at_j with same
    · exact absurd at_j.symm other
    · refine ⟨at_j ▸ List.getElem_mem hj, fun h => same ?_⟩
      exact (nodup.getElem_inj_iff).mp (h.trans at_j.symm)
  · rintro ⟨ha, ne⟩
    obtain ⟨j, hj, rfl⟩ := List.mem_iff_getElem.mp ha
    have apart : i ≠ j := fun h => ne (by subst h; rfl)
    exact List.mem_iff_getElem.mpr ⟨j, by rw [List.length_set]; exact hj,
      List.getElem_set_ne apart _⟩

section Count
variable [DecidableEq α]

def hits (pos : 0 < k) (first rest : List α) (m : Nat) (item : α) : Nat :=
  ∑ ω : Outcome k m, if item ∈ replaceDrawn (ω.draws pos) 0 first rest then 1 else 0

theorem count_kept {slts : List α} (nodup : slts.Nodup) (full : slts.length = k) (room : k ≤ n)
    {item a : α} (other : a ≠ item) :
    (∑ j : Fin n, if a ∈ (if j.val < k then slts.set j item else slts) then 1 else 0) =
      if a ∈ slts then n - 1 else 0 := by
  by_cases ha : a ∈ slts
  · obtain ⟨i, hi, rfl⟩ := List.mem_iff_getElem.mp ha
    have kept (j : Fin n) : slts[i] ∈ (if j.val < k then slts.set j item else slts) ↔
        j ∈ Finset.univ.erase (⟨i, by omega⟩ : Fin n) := by
      rw [Finset.mem_erase, Fin.ne_iff_vne]
      split_ifs with small
      · rw [mem_set_iff nodup (full ▸ small) other, Ne, nodup.getElem_inj_iff]
        simp
      · grind
    simp only [kept, if_pos ha, Finset.sum_boole, Finset.filter_univ_mem]
    simp
  · rw [if_neg ha]
    refine Finset.sum_eq_zero fun j _ => if_neg ?_
    split_ifs
    · grind
    · exact ha

theorem count_entered {slts : List α} (full : slts.length = k) (room : k ≤ n) {item : α}
    (new : item ∉ slts) :
    (∑ j : Fin n, if item ∈ (if j.val < k then slts.set j item else slts) then 1 else 0) = k := by
  have entered (j : Fin n) : item ∈ (if j.val < k then slts.set j item else slts) ↔ j.val < k := by
    split_ifs with small
    · exact iff_of_true (List.mem_set (full ▸ small) item) small
    · exact iff_of_false new small
  simp only [entered, Finset.sum_boole, Nat.cast_id, Fin.card_filter_val_lt]
  exact min_eq_right room

variable {first rest : List α}

theorem hits_snoc_old (pos : 0 < k) (full : first.length = k) (rounds : rest.length = m)
    {item a : α} (nodup : (first ++ rest).Nodup) (other : a ≠ item) :
    hits pos first (rest ++ [item]) (m + 1) a = hits pos first rest m a * (m + k - 1) := by
  rw [hits, sum_outcomes, hits, Finset.sum_mul]
  refine Finset.sum_congr rfl fun ω _ => ?_
  simp only [replaceDrawn_add pos ω _ first rounds]
  rw [count_kept (replaceDrawn_nodup _ nodup).1 (by rw [replaceDrawn_length, full]) (by omega)
    other, ite_mul, one_mul, zero_mul]

theorem hits_snoc_new (pos : 0 < k) (full : first.length = k) (rounds : rest.length = m)
    {item : α} (nodup : (first ++ rest).Nodup) (new : item ∉ first ++ rest) :
    hits pos first (rest ++ [item]) (m + 1) item = k * Fintype.card (Outcome k m) := by
  rw [hits, sum_outcomes]
  simp only [replaceDrawn_add pos _ _ first rounds]
  have each (ω : Outcome k m) := count_entered (n := m + k)
    (show (replaceDrawn (ω.draws pos) 0 first rest).length = k by rw [replaceDrawn_length, full])
    (by omega) (fun h => new ((replaceDrawn_nodup _ nodup).2 item h))
  simp only [each, Finset.sum_const, Finset.card_univ, smul_eq_mul, mul_comm]

theorem hits_first (pos : 0 < k) (full : first.length = k) (nodup : (first ++ rest).Nodup)
    {a : α} (ha : a ∈ first) :
    hits pos first rest rest.length a * (rest.length + k - 1) =
      (k - 1) * Fintype.card (Outcome k rest.length) := by
  induction rest using List.reverseRecOn with
  | nil => simp [hits, replaceDrawn, ha, mul_comm]
  | append_singleton rest item ih =>
    rw [← List.append_assoc] at nodup
    obtain ⟨old, -, new⟩ := List.nodup_append.mp nodup
    have other : a ≠ item := new a (List.mem_append_left _ ha) item (List.mem_singleton_self item)
    rw [List.length_append, List.length_singleton, hits_snoc_old pos full rfl old other, ih old,
      card_outcomes, mul_assoc, show rest.length + 1 + k - 1 = rest.length + k by omega]

theorem hits_rest (pos : 0 < k) (full : first.length = k) (nodup : (first ++ rest).Nodup)
    {a : α} (ha : a ∈ rest) :
    hits pos first rest rest.length a * (rest.length + k - 1) =
      k * Fintype.card (Outcome k rest.length) := by
  induction rest using List.reverseRecOn with
  | nil => cases ha
  | append_singleton rest item ih =>
    rw [← List.append_assoc] at nodup
    obtain ⟨old, -, new⟩ := List.nodup_append.mp nodup
    rw [List.length_append, List.length_singleton, card_outcomes,
      show rest.length + 1 + k - 1 = rest.length + k by omega]
    by_cases last : a = item
    · subst last
      have fresh : a ∉ first ++ rest := fun h => new a h a (List.mem_singleton_self a) rfl
      rw [hits_snoc_new pos full rfl old fresh, mul_assoc]
    · grind [hits_snoc_old]

end Count

section Probability
variable {l : PriorityList κ α}

theorem selectionProbability_eq (pos : 0 < k) (enough : k ≤ l.lst.length) (i : Nat) :
    l.selectionProbability pos i =
      hits pos ((List.range l.lst.length).take k) ((List.range l.lst.length).drop k)
          (l.lst.length - k) i / Fintype.card (Outcome k (l.lst.length - k)) := by
  have full : ¬ (l.numbered.lst.take k).length < k := by simp [numbered, enough]
  simp only [selectionProbability, selectRandn, if_neg full, hits, Finset.sum_boole, Nat.cast_id]
  rfl

theorem card_outcome_ne_zero (pos : 0 < k) (m : Nat) : (Fintype.card (Outcome k m) : ℚ) ≠ 0 := by
  have (x : Fin m) : Nonempty (Fin (x.val + k)) := ⟨⟨0, by omega⟩⟩
  exact Nat.cast_ne_zero.mpr Fintype.card_ne_zero

theorem selectionProbability_of_hits (pos : 0 < k) (more : k < l.lst.length) {c : Nat}
    (count : hits pos ((List.range l.lst.length).take k) ((List.range l.lst.length).drop k)
      (l.lst.length - k) i * (l.lst.length - k + k - 1) =
      c * Fintype.card (Outcome k (l.lst.length - k))) :
    l.selectionProbability pos i = c / (l.lst.length - 1) := by
  have others : (l.lst.length - 1 : ℚ) = (l.lst.length - 1 : ℕ) := by
    rw [Nat.cast_sub (by omega), Nat.cast_one]
  have some_other : ((l.lst.length - 1 : ℕ) : ℚ) ≠ 0 := Nat.cast_ne_zero.mpr (by omega)
  rw [selectionProbability_eq pos more.le, others,
    div_eq_div_iff (card_outcome_ne_zero pos _) some_other]
  rw [Nat.sub_add_cancel more.le] at count
  exact_mod_cast count

theorem range_split (n k : Nat) :
    ((List.range n).take k ++ (List.range n).drop k).Nodup := by
  rw [List.take_append_drop]
  exact List.nodup_range

theorem selectionProbability_first (pos : 0 < k) (more : k < l.lst.length) (hi : i < k) :
    l.selectionProbability pos i = (k - 1 : ℕ) / (l.lst.length - 1) := by
  have count := hits_first pos (by simp [more.le]) (range_split l.lst.length k)
    (show i ∈ (List.range l.lst.length).take k by
      rw [List.take_range, List.mem_range]; omega)
  rw [List.length_drop, List.length_range] at count
  exact selectionProbability_of_hits pos more count

theorem selectionProbability_rest (pos : 0 < k) (more : k < l.lst.length) (later : k ≤ i)
    (hi : i < l.lst.length) : l.selectionProbability pos i = k / (l.lst.length - 1) := by
  have count := hits_rest pos (by simp [more.le]) (range_split l.lst.length k)
    (List.mem_drop_iff_getElem.mpr ⟨i - k, by rw [List.length_range]; omega,
      by rw [List.getElem_range]; omega⟩ : i ∈ (List.range l.lst.length).drop k)
  rw [List.length_drop, List.length_range] at count
  exact selectionProbability_of_hits pos more count

theorem selectionProbability_all (pos : 0 < k) (all : k = l.lst.length) (hi : i < l.lst.length) :
    l.selectionProbability pos i = 1 := by
  have selected (ω : Outcome k (l.lst.length - k)) : i ∈ l.numbered.selectRandn (ω.draws pos) := by
    rw [selectRandn_few _ (by simp [numbered, all])]
    exact List.mem_range.mpr hi
  simp only [selectionProbability, selected, Finset.filter_true, Finset.card_univ]
  exact div_self (card_outcome_ne_zero pos _)

def twoItems : PriorityList Nat Nat := { max := 2, keys := ∅, lst := [7, 8] }

end Probability

end PriorityList
