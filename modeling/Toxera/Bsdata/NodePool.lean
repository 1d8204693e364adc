import Mathlib.Algebra.Order.Group.Int
import Mathlib.Algebra.Ring.Int.Defs
import Mathlib.Algebra.Ring.Nat
import Mathlib.Order.Interval.Finset.Nat

/-!
# Weighted selection of a bootstrap node

`newPool`, `updateWeight` and `Select` of `bsdata/bootstrap_data.go`.
-/

namespace Bsdata

universe u v
variable {i j : Nat} {r : Int}

variable {α : Type u} {β : Type v}

def int64 (x : Int) : Int := Int.bmod x (2 ^ 64)

theorem int64_of_fits {x : Int} (low : -2 ^ 63 ≤ x) (high : x < 2 ^ 63) : int64 x = x := by
  unfold int64
  exact Int.bmod_eq_of_le (by omega) (by omega)

structure WeightedBSNode (α : Type u) where
  bsNode : α
  weight : Int
  alive : Bool
  /-- in nanoseconds -/
  latency : Int

abbrev NodePool (α : Type u) := List (WeightedBSNode α)

def baseWeight : Int := 100

def newPool (nodes : List α) : NodePool α := nodes.map fun n => ⟨n, baseWeight, true, 0⟩

/-- The check of a node; `scaled` is the base weight times the two factors, as an `int`. -/
def updateWeight (scaled : Bool → Int → Int) (n : WeightedBSNode α) (ok : Bool) (latency : Int) :
    WeightedBSNode α :=
  let n := if ok then
      { n with alive := true, latency := int64 (int64 (int64 (n.latency * 3) + latency) |>.tdiv 4) }
    else n
  let weight := scaled ok n.latency
  { n with weight := if weight < 1 then 1 else weight }

def total (p : NodePool α) : Int := p.foldl (fun total n => int64 (total + n.weight)) 0

def pick : NodePool α → Int → Option α
  | [], _ => none
  | n :: rest, r =>
    let r := int64 (r - n.weight)
    if r < 0 then some n.bsNode else pick rest r

/-- `Select` with the number that `rand.Intn(total)` returned; nothing where it panics. -/
def select (p : NodePool α) (r : Int) : Option α :=
  (pick p r).or (p.head?.map (·.bsNode))

def Weighted (p : NodePool α) : Prop := ∀ n ∈ p, 1 ≤ n.weight

theorem Weighted.new (nodes : List α) : Weighted (newPool nodes) := by
  intro n mem
  obtain ⟨a, -, rfl⟩ := List.mem_map.mp mem
  exact (by decide : (1 : Int) ≤ baseWeight)

theorem updateWeight_pos (scaled : Bool → Int → Int) (n : WeightedBSNode α) (ok : Bool)
    (latency : Int) : 1 ≤ (updateWeight scaled n ok latency).weight := by
  simp only [updateWeight]
  split_ifs <;> omega

def checked (scaled : Bool → Int → Int) (p : NodePool α) (check : Nat × Bool × Int) : NodePool α :=
  p.modify check.1 fun n => updateWeight scaled n check.2.1 check.2.2

theorem Weighted.checked {p : NodePool α} (h : Weighted p) (scaled : Bool → Int → Int)
    (check : Nat × Bool × Int) : Weighted (checked scaled p check) := by
  intro n mem
  obtain ⟨i, there⟩ := List.mem_iff_getElem?.mp mem
  rw [Bsdata.checked, List.getElem?_modify] at there
  obtain ⟨m, old, rfl⟩ := Option.map_eq_some_iff.mp there
  split_ifs
  · exact updateWeight_pos scaled m _ _
  · exact h m (List.mem_of_getElem? old)

theorem Weighted.run (scaled : Bool → Int → Int) (nodes : List α)
    (checks : List (Nat × Bool × Int)) :
    Weighted (checks.foldl (Bsdata.checked scaled) (newPool nodes)) := by
  induction checks using List.reverseRecOn with
  | nil => exact .new nodes
  | append_singleton checks check ih =>
    rw [List.foldl_append]
    exact ih.checked scaled check

def start (p : NodePool α) (i : Nat) : Int := ((p.take i).map (·.weight)).sum

@[simp] theorem start_zero (p : NodePool α) : start p 0 = 0 := by simp [start]

@[simp] theorem start_cons_succ (n : WeightedBSNode α) (rest : NodePool α) (i : Nat) :
    start (n :: rest) (i + 1) = n.weight + start rest i := by simp [start]

theorem start_length (p : NodePool α) : start p p.length = (p.map (·.weight)).sum := by
  rw [start, List.take_length]

theorem start_succ (p : NodePool α) {n : WeightedBSNode α} (there : p[i]? = some n) :
    start p (i + 1) = start p i + n.weight := by
  simp [start, List.take_add_one, there]

theorem Weighted.tail {n : WeightedBSNode α} {rest : NodePool α} (h : Weighted (n :: rest)) :
    Weighted rest := fun m mem => h m (List.mem_cons_of_mem _ mem)

theorem Weighted.start_nonneg {p : NodePool α} (h : Weighted p) (i : Nat) : 0 ≤ start p i := by
  induction p generalizing i with
  | nil => simp [start]
  | cons n rest ih =>
    cases i with
    | zero => simp
    | succ i =>
      have first := h n List.mem_cons_self
      have later := ih h.tail i
      rw [start_cons_succ]
      omega

theorem Weighted.start_mono {p : NodePool α} (h : Weighted p) (le : i ≤ j) :
    start p i ≤ start p j := by
  induction p generalizing i j with
  | nil => simp [start]
  | cons n rest ih =>
    cases i with
    | zero => simpa using h.start_nonneg j
    | succ i =>
      obtain ⟨j, rfl⟩ := Nat.exists_eq_add_of_le' (Nat.le_trans (Nat.le_add_left 1 i) le)
      have later := ih h.tail (Nat.le_of_succ_le_succ le)
      rw [start_cons_succ, start_cons_succ]
      omega

theorem Weighted.start_le {p : NodePool α} (h : Weighted p) (i : Nat) :
    start p i ≤ start p p.length := by
  rcases Nat.le_total i p.length with le | ge
  · exact h.start_mono le
  · rw [start, start, List.take_of_length_le ge, List.take_length]

theorem exists_place (p : NodePool α) (low : 0 ≤ r) (high : r < start p p.length) :
    ∃ i < p.length, start p i ≤ r ∧ r < start p (i + 1) := by
  induction p generalizing r with
  | nil => simp at high; omega
  | cons n rest ih =>
    rw [List.length_cons, start_cons_succ] at high
    rcases Int.lt_or_le r n.weight with first | later
    · exact ⟨0, by simp, by simpa using low, by simpa using first⟩
    · grind [start_cons_succ]

def Fits (p : NodePool α) : Prop := (p.map (·.weight)).sum < 2 ^ 63

theorem total_from {p : NodePool α} (h : Weighted p) {sum : Int} (low : 0 ≤ sum)
    (fits : sum + start p p.length < 2 ^ 63) :
    p.foldl (fun total n => int64 (total + n.weight)) sum = sum + start p p.length := by
  induction p generalizing sum with
  | nil => simp
  | cons n rest ih =>
    have first := h n List.mem_cons_self
    have later := h.tail.start_nonneg rest.length
    rw [List.length_cons, start_cons_succ] at fits ⊢
    rw [List.foldl_cons, int64_of_fits (by omega) (by omega), ih h.tail (by omega) (by omega)]
    omega

theorem total_eq {p : NodePool α} (h : Weighted p) (fits : Fits p) :
    total p = start p p.length := by
  rw [Fits, ← start_length] at fits
  rw [total, total_from h (Int.le_refl 0) (by omega), Int.zero_add]

theorem pick_eq {p : NodePool α} (h : Weighted p) (fits : Fits p)
    (place : start p i ≤ r ∧ r < start p (i + 1)) : pick p r = p[i]?.map (·.bsNode) := by
  rw [Fits, ← start_length] at fits
  induction p generalizing r i with
  | nil => simp [start] at place; omega
  | cons n rest ih =>
    have first := h n List.mem_cons_self
    have later := h.tail.start_nonneg rest.length
    have low : 0 ≤ r := Int.le_trans (h.start_nonneg i) place.1
    have high := Int.lt_of_lt_of_le place.2 (h.start_le (i + 1))
    rw [List.length_cons, start_cons_succ] at fits high
    rw [pick, int64_of_fits (by omega) (by omega)]
    cases i with
    | zero =>
      have gone : r - n.weight < 0 := by simp at place; omega
      rw [if_pos gone]
      rfl
    | succ i =>
      rw [start_cons_succ, start_cons_succ] at place
      have nonneg := h.tail.start_nonneg i
      rw [if_neg (by omega), ih (i := i) h.tail (by omega) (by omega), List.getElem?_cons_succ]

def numbered (p : NodePool α) : NodePool Nat := p.mapIdx fun i n => { n with bsNode := i }

theorem numbered_weights (p : NodePool α) :
    (numbered p).map (·.weight) = p.map (·.weight) := by
  refine List.ext_getElem (by simp [numbered]) fun i h _ => ?_
  simp [numbered]

theorem start_numbered (p : NodePool α) (i : Nat) : start (numbered p) i = start p i := by
  rw [start, start, List.map_take, List.map_take, numbered_weights]

theorem Weighted.numbered {p : NodePool α} (h : Weighted p) : Weighted (numbered p) := by
  intro n mem
  have weight := List.mem_map_of_mem (f := (·.weight)) mem
  rw [numbered_weights] at weight
  obtain ⟨m, old, eq⟩ := List.mem_map.mp weight
  exact eq ▸ h m old

theorem pick_numbered {p : NodePool α} (h : Weighted p) (fits : Fits p) (lt : i < p.length)
    (place : start p i ≤ r ∧ r < start p (i + 1)) : pick (numbered p) r = some i := by
  have fits' : Fits (numbered p) := by rwa [Fits, numbered_weights]
  rw [← start_numbered, ← start_numbered p] at place
  rw [pick_eq h.numbered fits' place]
  simp [numbered, lt]

theorem pick_numbered_iff {p : NodePool α} (h : Weighted p) (fits : Fits p) {r : Nat}
    (lt : i < p.length) (high : (r : Int) < total p) :
    pick (numbered p) r = some i ↔ start p i ≤ r ∧ r < start p (i + 1) := by
  constructor
  · intro picked
    rw [total_eq h fits] at high
    obtain ⟨j, ltj, place⟩ := exists_place p (Int.natCast_nonneg r) high
    have same : some j = some i := (pick_numbered h fits ltj place).symm.trans picked
    cases same
    exact place
  · exact pick_numbered h fits lt

theorem card_between {low high bound : Nat} (below : high ≤ bound) :
    ((Finset.range bound).filter fun r => low ≤ r ∧ r < high).card = high - low := by
  have same : (Finset.range bound).filter (fun r => low ≤ r ∧ r < high) = Finset.Ico low high := by
    grind
  rw [same, Nat.card_Ico]

theorem exists_pick {p : NodePool α} (h : Weighted p) (fits : Fits p) {r : Nat}
    (high : r < total p) : ∃ i, ∃ lt : i < p.length,
      pick (numbered p) r = some i ∧ pick p r = some (p.get ⟨i, lt⟩).bsNode := by
  rw [total_eq h fits] at high
  obtain ⟨i, lt, place⟩ := exists_place p (Int.natCast_nonneg r) high
  refine ⟨i, lt, pick_numbered h fits lt place, ?_⟩
  rw [pick_eq h fits place, List.getElem?_eq_getElem lt]
  rfl

theorem select_eq_pick {p : NodePool α} (picked : (pick p r).isSome) : select p r = pick p r := by
  obtain ⟨n, eq⟩ := Option.isSome_iff_exists.mp picked
  rw [select, eq, Option.some_or]

theorem total_pos {p : NodePool α} (nonempty : p ≠ []) (h : Weighted p) (fits : Fits p) :
    0 < total p := by
  obtain ⟨n, rest, rfl⟩ := List.exists_cons_of_ne_nil nonempty
  have first := h n List.mem_cons_self
  have later := h.tail.start_nonneg rest.length
  rw [total_eq h fits, List.length_cons, start_cons_succ]
  omega

theorem card_numbers {p : NodePool α} (h : Weighted p) (fits : Fits p) (lt : i < p.length) :
    (((Finset.range (total p).toNat).filter
      fun r : Nat => pick (numbered p) r = some i).card : Int) = (p.get ⟨i, lt⟩).weight := by
  have there : p[i]? = some (p.get ⟨i, lt⟩) := List.getElem?_eq_getElem lt
  have next := start_succ p there
  have low := h.start_nonneg i
  have weight := h _ (List.mem_of_getElem? there)
  have high := h.start_le (i + 1)
  have sum := total_eq h fits
  have same : (Finset.range (total p).toNat).filter
        (fun r : Nat => pick (numbered p) r = some i) =
      (Finset.range (total p).toNat).filter
        (fun r => (start p i).toNat ≤ r ∧ r < (start p (i + 1)).toNat) := by
    refine Finset.filter_congr fun r mem => ?_
    rw [Finset.mem_range] at mem
    rw [pick_numbered_iff h fits lt (by omega)]
    omega
  rw [same, card_between (by omega)]
  omega

/-- The loop always returns, and a node has as many numbers as its weight says. -/
theorem select_shares (p : NodePool α) (nonempty : p ≠ []) (positive : Weighted p)
    (fits : Fits p) :
    0 < total p ∧
    (∀ r : Nat, r < total p → (pick p r).isSome) ∧
    ∀ (i : Nat) (lt : i < p.length),
      (((Finset.range (total p).toNat).filter
        fun r : Nat => select (numbered p) r = some i).card : Int) = (p.get ⟨i, lt⟩).weight ∧
      ∀ r : Nat, r < total p → select (numbered p) r = some i →
        select p r = some (p.get ⟨i, lt⟩).bsNode := by
  have selected : ∀ r : Nat, r < total p → select (numbered p) r = pick (numbered p) r := by
    grind [exists_pick, select_eq_pick]
  refine ⟨total_pos nonempty positive fits, ?_, fun i lt => ⟨?_, ?_⟩⟩
  · grind [exists_pick]
  · rw [← card_numbers positive fits lt]
    congr 2
    refine Finset.filter_congr fun r mem => ?_
    rw [Finset.mem_range] at mem
    rw [selected r (by omega)]
  · intro r high picked
    obtain ⟨j, ltj, place, node⟩ := exists_pick positive fits high
    rw [selected r high, place] at picked
    cases picked
    rw [select_eq_pick (Option.isSome_of_eq_some node), node]

def twoNodes : NodePool String := [⟨"a", 100, true, 0⟩, ⟨"b", 3, true, 0⟩]

theorem select_two_nodes :
    ((Finset.range 103).filter fun r : Nat => select (numbered twoNodes) r = some 1).card = 3 ∧
    select twoNodes 102 = some "b" := by
  have shares := select_shares twoNodes (by decide) (by unfold Weighted; decide)
    (by unfold Fits; decide)
  have second := shares.2.2 1 (by decide)
  exact ⟨Int.ofNat_inj.mp second.1, second.2 102 (by decide) (by decide)⟩

end Bsdata
