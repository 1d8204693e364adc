import Mathlib.Data.List.Basic
import Mathlib.Order.Lattice

/-!
# Binary heaps without tie-breaking

A binary heap kept in a list, level by level, with the smallest rank at the front.
-/

namespace BinaryHeap

universe u v
variable {fuel index : Nat}

variable {α : Type u} {β : Type v}

def swap (i j : Nat) (xs : List α) : List α :=
  match xs[i]?, xs[j]? with
  | some x, some y => (xs.set i y).set j x
  | _, _ => xs

theorem swap_perm (i j : Nat) (xs : List α) : (swap i j xs).Perm xs := by
  unfold swap
  split
  · rename_i x y hx hy
    obtain ⟨hi, rfl⟩ := List.getElem?_eq_some_iff.mp hx
    obtain ⟨hj, rfl⟩ := List.getElem?_eq_some_iff.mp hy
    exact List.set_set_perm hi hj
  · exact List.Perm.refl xs

@[simp] theorem swap_length (i j : Nat) (xs : List α) : (swap i j xs).length = xs.length :=
  (swap_perm i j xs).length_eq

variable [LinearOrder β] (rank : α → β)

def siftUp : Nat → Nat → List α → List α
  | 0, _, xs => xs
  | fuel + 1, index, xs =>
    let parent := (index - 1) / 2
    match xs[parent]?, xs[index]? with
    | some p, some x =>
      if rank x < rank p then siftUp fuel parent (swap index parent xs) else xs
    | _, _ => xs

/-- The place of the child with the smaller rank, the left one if there is no difference. -/
def smallerChild (index : Nat) (xs : List α) : Nat :=
  match xs[2 * index + 1]?, xs[2 * index + 2]? with
  | some l, some r => if rank r < rank l then 2 * index + 2 else 2 * index + 1
  | _, _ => 2 * index + 1

def siftDown : Nat → Nat → List α → List α
  | 0, _, xs => xs
  | fuel + 1, index, xs =>
    let child := smallerChild rank index xs
    match xs[child]?, xs[index]? with
    | some c, some x =>
      if rank c < rank x then siftDown fuel child (swap index child xs) else xs
    | _, _ => xs

def push (xs : List α) (item : α) : List α := siftUp rank xs.length xs.length (xs ++ [item])

def pop : List α → Option (α × List α)
  | [] => none
  | x :: rest => some (x, siftDown rank rest.length 0 (rest.getLast?.toList ++ rest.dropLast))

variable {rank}

theorem siftUp_perm (fuel index : Nat) (xs : List α) : (siftUp rank fuel index xs).Perm xs := by
  induction fuel generalizing index xs with
  | zero => exact List.Perm.refl xs
  | succ fuel ih =>
    simp only [siftUp]
    split
    · split_ifs
      · exact (ih _ _).trans (swap_perm ..)
      · exact List.Perm.refl xs
    · exact List.Perm.refl xs

theorem siftDown_perm (fuel index : Nat) (xs : List α) :
    (siftDown rank fuel index xs).Perm xs := by
  induction fuel generalizing index xs with
  | zero => exact List.Perm.refl xs
  | succ fuel ih =>
    simp only [siftDown]
    split
    · split_ifs
      · exact (ih _ _).trans (swap_perm ..)
      · exact List.Perm.refl xs
    · exact List.Perm.refl xs

theorem push_perm (xs : List α) (item : α) : (push rank xs item).Perm (item :: xs) :=
  (siftUp_perm ..).trans List.perm_append_comm

theorem pop_perm {xs rest : List α} {x : α} (h : pop rank xs = some (x, rest)) :
    xs.Perm (x :: rest) := by
  cases xs with
  | nil => cases h
  | cons y ys =>
    cases h
    refine List.Perm.cons x (List.Perm.trans ?_ (siftDown_perm ..).symm)
    rcases List.eq_nil_or_concat ys with rfl | ⟨front, last, rfl⟩
    · exact List.Perm.refl []
    · simp

@[simp] theorem push_length (xs : List α) (item : α) :
    (push rank xs item).length = xs.length + 1 := (push_perm xs item).length_eq

theorem pop_length {xs rest : List α} {x : α} (h : pop rank xs = some (x, rest)) :
    xs.length = rest.length + 1 := (pop_perm h).length_eq

theorem pop_eq_none {xs : List α} : pop rank xs = none ↔ xs = [] := by
  cases xs <;> simp [pop]

theorem siftUp_stays {xs : List α} {x : α} (here : xs[index]? = some x)
    (least : ∀ y ∈ xs, rank y ≤ rank x) : siftUp rank fuel index xs = xs := by
  cases fuel with
  | zero => rfl
  | succ fuel =>
    simp only [siftUp, here]
    split
    · grind
    · rfl

theorem push_last {xs : List α} {item : α} (last : ∀ y ∈ xs, rank y ≤ rank item) :
    push rank xs item = xs ++ [item] := by
  refine siftUp_stays (x := item) (by simp) ?_
  intro y hy
  rcases List.mem_append.mp hy with hy | hy
  · exact last y hy
  · rw [List.mem_singleton.mp hy]

theorem push_pair (x item : α) :
    push rank [x] item = if rank item < rank x then [item, x] else [x, item] := by
  simp [push, siftUp, swap]

theorem siftDown_level {xs : List α} (level : ∀ x ∈ xs, ∀ y ∈ xs, rank x = rank y) :
    siftDown rank fuel index xs = xs := by
  cases fuel with
  | zero => rfl
  | succ fuel =>
    simp only [siftDown]
    split
    · grind
    · rfl

theorem pop_level {x : α} {rest : List α}
    (level : ∀ a ∈ rest, ∀ b ∈ rest, rank a = rank b) :
    pop rank (x :: rest) = some (x, rest.getLast?.toList ++ rest.dropLast) := by
  rw [pop, siftDown_level]
  have mem : ∀ a ∈ rest.getLast?.toList ++ rest.dropLast, a ∈ rest := by
    intro a ha
    rcases List.mem_append.mp ha with ha | ha
    · exact List.mem_of_getLast? (Option.mem_toList.mp ha)
    · exact List.dropLast_subset rest ha
  exact fun a ha b hb => level a (mem a ha) b (mem b hb)

end BinaryHeap
