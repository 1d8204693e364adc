import Mathlib.Data.List.Basic

/-!
# Buffered channels

A channel holds at most its capacity, and it is closed at most once.
-/

universe u

@[ext] structure Chan (α : Type u) where
  cap : Nat
  buf : List α
  closed : Bool
  le_cap : buf.length ≤ cap

namespace Chan
variable {α : Type u}

def make (n : Nat) : Chan α := ⟨n, [], false, Nat.zero_le n⟩

def len (c : Chan α) : Nat := c.buf.length

def trySend (c : Chan α) (x : α) : Option (Chan α) :=
  if c.closed then none
  else if room : c.buf.length < c.cap then
    some ⟨c.cap, c.buf ++ [x], c.closed, by rw [List.length_append]; exact room⟩
  else some c

def recv (c : Chan α) : Option (α × Chan α) :=
  match h : c.buf with
  | [] => none
  | x :: rest => some (x, ⟨c.cap, rest, c.closed, by
      have := c.le_cap; rw [h, List.length_cons] at this; omega⟩)

def close (c : Chan α) : Option (Chan α) :=
  if c.closed then none else some { c with closed := true }

theorem trySend_spec {c c' : Chan α} {x : α} (h : c.trySend x = some c') :
    c.closed = false ∧ c'.closed = false ∧ c'.cap = c.cap ∧
      c'.buf = if c.buf.length < c.cap then c.buf ++ [x] else c.buf := by
  unfold trySend at h
  split_ifs at h with open_ room
  · cases h
    simp_all
  · cases h
    simp_all

theorem trySend_isSome {c : Chan α} (h : c.closed = false) (x : α) :
    ∃ c', c.trySend x = some c' := by
  unfold trySend
  split_ifs with closed room
  · simp [h] at closed
  · exact ⟨_, rfl⟩
  · exact ⟨_, rfl⟩

theorem recv_spec {c c' : Chan α} {x : α} (h : c.recv = some (x, c')) :
    c.buf = x :: c'.buf ∧ c'.closed = c.closed ∧ c'.cap = c.cap := by
  unfold recv at h
  split at h
  · cases h
  · grind

end Chan
