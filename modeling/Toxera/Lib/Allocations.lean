import Mathlib.Tactic.Ring

/-!
# Programs that allocate and may panic

A program passes on the number of bytes that have been allocated so far and ends early
with a panic.
-/

namespace Allocations

abbrev Alloc := StateT Nat Option

def maxInt : Nat := 2 ^ 63 - 1

def abort {α : Type} : Alloc α := fun _ => none

def make (n : Nat) : Alloc Unit := fun used => if n ≤ maxInt then some ((), used + n) else none

variable {α β : Type} {p : Alloc α} {f : α → Alloc β} {a : α} {b : β} {m n : Nat}

def Takes (p : Alloc α) (a : α) (n : Nat) : Prop := ∀ used, p.run used = some (a, used + n)

def Panics (p : Alloc α) : Prop := ∀ used, p.run used = none

def Within (p : Alloc α) (a : α) (bound : Nat) : Prop := ∃ n ≤ bound, Takes p a n

theorem Takes.pure (a : α) : Takes (pure a) a 0 := fun _ => rfl

theorem Takes.make (fits : n ≤ maxInt) : Takes (make n) () n := fun _ => if_pos fits

theorem Takes.bind (first : Takes p a m) (second : Takes (f a) b n) :
    Takes (p >>= f) b (m + n) := by
  intro used
  rw [StateT.run_bind, first used]
  exact (second (used + m)).trans (by rw [Nat.add_assoc])

theorem Takes.unique {a' : α} (h : Takes p a m) (h' : Takes p a' n) : a = a' ∧ m = n := by
  have both := (h 0).symm.trans (h' 0)
  rw [Nat.zero_add, Nat.zero_add] at both
  exact Prod.mk.inj (Option.some.inj both)

theorem Panics.make (large : maxInt < n) : Panics (make n) := fun _ => if_neg (Nat.not_le.mpr large)

theorem Panics.bind (first : Panics p) : Panics (p >>= f) := by
  intro used
  rw [StateT.run_bind, first used]
  rfl

theorem Takes.bind_panics (first : Takes p a m) (second : Panics (f a)) : Panics (p >>= f) := by
  intro used
  rw [StateT.run_bind, first used]
  exact second (used + m)

theorem Panics.not_within (h : Panics p) : ¬ Within p a n := by
  rintro ⟨m, -, h'⟩
  cases (h 0).symm.trans (h' 0)

theorem Takes.within_iff (h : Takes p a m) : Within p a n ↔ m ≤ n := by
  constructor
  · rintro ⟨k, le, h'⟩
    rwa [(h.unique h').2]
  · exact fun le => ⟨m, le, h⟩

def text (s : List α) : Alloc (List α) := do
  make s.length
  return s

theorem Takes.text {s : List α} (fits : s.length ≤ maxInt) : Takes (text s) s s.length :=
  (Takes.make fits).bind (f := fun _ => return s) (.pure s)

def sub (s : List α) (low high : Nat) : Alloc (List α) :=
  if low ≤ high ∧ high ≤ s.length then return (s.drop low).take (high - low) else abort

theorem Takes.sub {s : List α} {low high : Nat} (le : low ≤ high) (within : high ≤ s.length) :
    Takes (sub s low high) ((s.drop low).take (high - low)) 0 := by
  rw [Allocations.sub, if_pos ⟨le, within⟩]
  exact .pure _

def nextslicecap (cap : Nat) : Nat :=
  if cap = 0 then 1 else if cap < 256 then 2 * cap else cap + (cap + 768) / 4

def grow (size len cap : Nat) : Alloc Nat :=
  if len < cap then return cap
  else do
    make (size * nextslicecap cap)
    return nextslicecap cap

theorem Takes.grow (size : Nat) {len cap : Nat} (held : len ≤ cap) (twice : cap ≤ 2 * len)
    (fits : size * (2 * (len + 1)) ≤ maxInt) : ∃ cap' n, Takes (grow size len cap) cap' n ∧
      len + 1 ≤ cap' ∧ cap' ≤ 2 * (len + 1) ∧ n + 5 * size * cap ≤ 5 * size * cap' := by
  by_cases room : len < cap
  · refine ⟨cap, 0, ?_, room, by omega, by omega⟩
    rw [Allocations.grow, if_pos room]
    exact .pure cap
  · obtain rfl : len = cap := by omega
    have more : len + 1 ≤ nextslicecap len ∧ nextslicecap len ≤ 2 * (len + 1) ∧
        5 * len ≤ 4 * nextslicecap len := by
      rw [nextslicecap]
      split_ifs <;> omega
    obtain ⟨above, below, quarter⟩ := more
    refine ⟨nextslicecap len, size * nextslicecap len + 0, ?_, above, below, ?_⟩
    · rw [Allocations.grow, if_neg room]
      exact (Takes.make (Nat.le_trans (Nat.mul_le_mul_left size below) fits)).bind (.pure _)
    · calc size * nextslicecap len + 0 + 5 * size * len
          = size * nextslicecap len + size * (5 * len) := by ring
        _ ≤ size * nextslicecap len + size * (4 * nextslicecap len) :=
            Nat.add_le_add_left (Nat.mul_le_mul_left size quarter) _
        _ = 5 * size * nextslicecap len := by ring

end Allocations
