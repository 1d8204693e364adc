import Mathlib.Algebra.Order.BigOperators.Group.Finset
import Mathlib.Data.Nat.Count
import Toxera.Bsdata.NodePool

/-!
# Health checks of the pool

`checkBatch` of `bsdata/bootstrap_data.go`, called by `CheckLoop` at every tick.
-/

namespace Bsdata

def checkInterval : Nat := 120000000000

def healthTTL : Nat := 600000000000

def checkBatchSize : Nat := 5

/-- `now.Sub(n.lastCheck) >= healthTTL`; for a node that was never checked the difference
is the largest duration. -/
def due (now : Nat) : Option Nat → Bool
  | none => true
  | some lastCheck => decide (healthTTL ≤ now - lastCheck)

def candidates (n : Nat) (lastCheck : Nat → Option Nat) (now : Nat) : List Nat :=
  (List.range n).filter fun i => due now (lastCheck i)

def batch (n : Nat) (lastCheck : Nat → Option Nat) (now : Nat) : List Nat :=
  (candidates n lastCheck now).take checkBatchSize

/-- The times of the checks after a batch; `took` is how long after the tick each one ends. -/
def checkBatch (n : Nat) (took : Nat → Nat) (now : Nat) (lastCheck : Nat → Option Nat) :
    Nat → Option Nat :=
  fun i => if i ∈ batch n lastCheck now then some (now + took i) else lastCheck i

def afterTicks (n : Nat) (took : Nat → Nat → Nat) : Nat → Nat → Option Nat
  | 0 => fun _ => none
  | k + 1 => checkBatch n (took k) (checkInterval * (k + 1)) (afterTicks n took k)

variable {n k i : Nat} {took : Nat → Nat → Nat}

theorem length_filter_range (p : Nat → Bool) (n : Nat) :
    ((List.range n).filter p).length = Nat.count (fun i => p i) n := by
  induction n with
  | zero => rfl
  | succ n ih =>
    rw [List.range_succ, List.filter_append, List.length_append, ih, Nat.count_succ]
    congr 1
    by_cases h : p n <;> simp [h]

theorem mem_take_filter_range (p : Nat → Bool) (m n i : Nat) :
    i ∈ ((List.range n).filter p).take m ↔ i < n ∧ p i ∧ Nat.count (fun i => p i) i < m := by
  induction n with
  | zero => simp
  | succ n ih =>
    rw [List.range_succ, List.filter_append, List.take_append, List.mem_append, ih,
      length_filter_range]
    by_cases last : i = n
    · subst last
      by_cases h : p i
      · rw [List.filter_cons_of_pos h]
        rcases Nat.lt_or_ge (Nat.count (fun i => p i) i) m with room | full
        · have : m - Nat.count (fun i => p i) i ≠ 0 := by omega
          obtain ⟨r, hr⟩ := Nat.exists_eq_succ_of_ne_zero this
          simp [h, room, hr]
        · simp [Nat.sub_eq_zero_of_le full, full]
      · simp [h]
    · have : i ∉ (([n].filter p).take (m - Nat.count (fun i => p i) n)) := fun mem =>
        last (List.mem_singleton.mp (List.mem_of_mem_filter (List.mem_of_mem_take mem)))
      grind

theorem mem_batch_iff {lastCheck : Nat → Option Nat} {now : Nat} :
    i ∈ batch n lastCheck now ↔ i < n ∧ due now (lastCheck i) ∧
      Nat.count (fun i => due now (lastCheck i)) i < checkBatchSize :=
  mem_take_filter_range ..

theorem count_from (a i : Nat) : Nat.count (a ≤ ·) i = i - a := by
  induction i with
  | zero => simp
  | succ i ih =>
    rw [Nat.count_succ, ih]
    split_ifs <;> omega

theorem afterTicks_front (early : k ≤ 5 ∨ k ≤ 6 ∧ ∀ k i, 0 < took k i) :
    (∀ i < n, i < 5 * k → ∃ t, afterTicks n took k i = some t ∧ checkInterval ≤ t ∧
      ((∀ k i, 0 < took k i) → checkInterval < t)) ∧
    ∀ i, 5 * k ≤ i → afterTicks n took k i = none := by
  induction k with
  | zero => simp [afterTicks]
  | succ k ih =>
    obtain ⟨done, waiting⟩ := ih (by omega)
    have dues : ∀ i < n, (due (checkInterval * (k + 1)) (afterTicks n took k i) ↔ 5 * k ≤ i) := by
      intro i inside
      rcases Nat.lt_or_ge i (5 * k) with front | back
      · obtain ⟨t, at_, low, positive⟩ := done i inside front
        rw [at_]
        simp only [due, decide_eq_true_eq]
        have : ¬ healthTTL ≤ checkInterval * (k + 1) - t := by
          rcases early with five | ⟨six, slow⟩
          · unfold checkInterval healthTTL at *
            omega
          · have := positive slow
            unfold checkInterval healthTTL at *
            omega
        omega
      · rw [waiting i back]
        exact iff_of_true rfl back
    have counts : ∀ i < n, Nat.count (fun i => due (checkInterval * (k + 1))
        (afterTicks n took k i)) i = i - 5 * k := by
      intro i inside
      rw [← count_from, Nat.count_eq_card_filter_range, Nat.count_eq_card_filter_range]
      congr 1
      refine Finset.filter_congr fun j mem => dues j ?_
      exact (Finset.mem_range.mp mem).trans inside
    have members : ∀ i, i ∈ batch n (afterTicks n took k) (checkInterval * (k + 1)) ↔
        i < n ∧ 5 * k ≤ i ∧ i < 5 * (k + 1) := by
      intro i
      rw [mem_batch_iff]
      constructor
      · rintro ⟨inside, now, few⟩
        rw [counts i inside, checkBatchSize] at few
        have := (dues i inside).mp now
        omega
      · rintro ⟨inside, low, high⟩
        rw [counts i inside, checkBatchSize]
        exact ⟨inside, (dues i inside).mpr low, by omega⟩
    refine ⟨fun i inside front => ?_, fun i back => ?_⟩
    · rw [afterTicks, checkBatch]
      split_ifs with mem
      · have first : checkInterval ≤ checkInterval * (k + 1) := Nat.le_mul_of_pos_right _ k.succ_pos
        refine ⟨_, rfl, by omega, fun slow => ?_⟩
        have := slow k i
        omega
      · rw [members] at mem
        exact done i inside (by omega)
    · rw [afterTicks, checkBatch, if_neg (by rw [members]; omega)]
      exact waiting i (by omega)

theorem covered_of_early (early : (n + 4) / 5 ≤ 5 ∨ (n + 4) / 5 ≤ 6 ∧ ∀ k i, 0 < took k i)
    (inside : i < n) : (afterTicks n took ((n + 4) / 5) i).isSome := by
  obtain ⟨t, checked, -⟩ := (afterTicks_front early).1 i inside (by omega)
  rw [checked]
  rfl

theorem exists_tick (inTime : ∀ k i, took k i < checkInterval) {t : Nat}
    (checked : afterTicks n took k i = some t) :
    ∃ m < k, i ∈ batch n (afterTicks n took m) (checkInterval * (m + 1)) ∧
      t < checkInterval * (m + 2) := by
  induction k with
  | zero => cases checked
  | succ k ih =>
    rw [afterTicks, checkBatch] at checked
    split_ifs at checked with mem
    · cases checked
      have := inTime k i
      exact ⟨k, Nat.lt_succ_self k, mem, by rw [Nat.mul_succ _ (k + 1)]; omega⟩
    · obtain ⟨m, lt, member, before⟩ := ih checked
      exact ⟨m, lt.trans (Nat.lt_succ_self k), member, before⟩

theorem not_due_recent (inTime : ∀ k i, took k i < checkInterval)
    (h : ¬ due (checkInterval * (k + 1)) (afterTicks n took k i)) :
    ∃ r < 5, i ∈ batch n (afterTicks n took (k - 1 - r)) (checkInterval * (k - 1 - r + 1)) := by
  rcases checked : afterTicks n took k i with - | t
  · rw [checked] at h
    exact absurd rfl h
  · obtain ⟨m, lt, mem, before⟩ := exists_tick inTime checked
    rw [checked] at h
    simp only [due, decide_eq_true_eq] at h
    have recent : k < m + 6 := by
      unfold checkInterval healthTTL at *
      omega
    refine ⟨k - 1 - m, by omega, ?_⟩
    have same : k - 1 - (k - 1 - m) = m := by omega
    rwa [same]

theorem length_batch_le (lastCheck : Nat → Option Nat) (now : Nat) :
    (batch n lastCheck now).toFinset.card ≤ 5 :=
  (List.toFinset_card_le _).trans (List.length_take_le _ _)

theorem five_due (inTime : ∀ k i, took k i < checkInterval) (k : Nat) :
    5 ≤ Nat.count (fun i => due (checkInterval * (k + 1)) (afterTicks n took k i)) 30 := by
  set p := fun i => due (checkInterval * (k + 1)) (afterTicks n took k i)
  have covers : (Finset.range 30).filter (fun i => ¬ p i) ⊆ (Finset.range 5).biUnion fun r =>
      (batch n (afterTicks n took (k - 1 - r)) (checkInterval * (k - 1 - r + 1))).toFinset := by
    intro i mem
    obtain ⟨r, lt, member⟩ := not_due_recent inTime (Finset.mem_filter.mp mem).2
    exact Finset.mem_biUnion.mpr ⟨r, Finset.mem_range.mpr lt, List.mem_toFinset.mpr member⟩
  have few := (Finset.card_le_card covers).trans
    (Finset.card_biUnion_le_card_mul _ _ 5 fun r _ => length_batch_le _ _)
  have split := Finset.card_filter_add_card_filter_not (s := Finset.range 30) (fun i => p i = true)
  rw [Finset.card_range] at few split
  change 5 ≤ Nat.count (fun i => p i = true) 30
  rw [Nat.count_eq_card_filter_range]
  omega

theorem never_checked (inTime : ∀ k i, took k i < checkInterval) (behind : 30 ≤ i) (k : Nat) :
    afterTicks n took k i = none := by
  induction k with
  | zero => rfl
  | succ k ih =>
    rw [afterTicks, checkBatch, if_neg, ih]
    rw [mem_batch_iff]
    rintro ⟨-, -, few⟩
    have more := (five_due (n := n) inTime k).trans (Nat.count_monotone _ behind)
    exact absurd few (Nat.not_lt.mpr more)

/-- With checks that take time and end before the next tick, all nodes of a pool are checked in as
many ticks as batches if the pool has at most thirty nodes. -/
theorem health_checks_cover_iff (n : Nat) (took : Nat → Nat → Nat)
    (inTime : ∀ k i, took k i < checkInterval) :
    (n ≤ 25 → ∀ i < n, (afterTicks n took ((n + 4) / 5) i).isSome) ∧
    ((∀ k i, 0 < took k i) →
      ((∀ i < n, (afterTicks n took ((n + 4) / 5) i).isSome) ↔ n ≤ 30)) ∧
    ∀ i, 30 ≤ i → ∀ k, afterTicks n took k i = none := by
  refine ⟨fun small i inside => ?_, fun slow => ⟨fun all => ?_, fun small i inside => ?_⟩,
    fun i behind k => never_checked inTime behind k⟩
  · exact covered_of_early (.inl (by omega)) inside
  · by_contra large
    have missed := all 30 (by omega)
    rw [never_checked inTime le_rfl] at missed
    cases missed
  · exact covered_of_early (.inr ⟨by omega, slow⟩) inside

theorem health_checks_cover_six : (afterTicks 6 (fun _ _ => 1) 2 5).isSome :=
  (health_checks_cover_iff 6 (fun _ _ => 1) fun _ _ => by decide).1 (by decide) 5 (by decide)

/-- The last of thirty-one nodes after the seven ticks that all of them need. -/
theorem thirty_first_unchecked : ¬ ∀ (n : Nat) (took : Nat → Nat → Nat),
    (∀ k i, took k i < checkInterval) →
    ∀ i < n, (afterTicks n took ((n + 4) / 5) i).isSome := by
  intro all
  have missed := all 31 (fun _ _ => 1) (fun _ _ => by decide) 30 (by decide)
  rw [never_checked (fun _ _ => by decide) le_rfl] at missed
  cases missed

end Bsdata
