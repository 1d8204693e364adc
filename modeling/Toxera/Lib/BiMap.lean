import Mathlib.Logic.Function.Basic

/-!
# Maps in both directions

A map with its inverse.
-/

universe u v

structure BiMap (α : Type u) (β : Type v) where
  forward : α → Option β
  inverse : β → Option α
  agree : ∀ k v, forward k = some v ↔ inverse v = some k

namespace BiMap

variable {α : Type u} {β : Type v} [DecidableEq α] [DecidableEq β] {m : BiMap α β}

def empty : BiMap α β := ⟨fun _ => none, fun _ => none, by simp⟩

def remove (m : BiMap α β) (k : α) : BiMap α β where
  forward := Function.update m.forward k none
  inverse v := if m.forward k = some v then none else m.inverse v
  agree j w := by
    have here := m.agree j w
    have there := m.agree k w
    grind [Function.update_apply]

def removeValue (m : BiMap α β) (v : β) : BiMap α β where
  forward k := if m.inverse v = some k then none else m.forward k
  inverse := Function.update m.inverse v none
  agree j w := by
    have here := m.agree j w
    have there := m.agree j v
    grind [Function.update_apply]

def without (m : BiMap α β) (k : α) (v : β) : BiMap α β := (m.remove k).removeValue v

theorem forward_without (k : α) (v : β) (j : α) : (m.without k v).forward j =
    if j = k ∨ m.forward j = some v then none else m.forward j := by
  have here := m.agree j v
  have there := m.agree k v
  simp only [without, removeValue, remove]
  grind [Function.update_apply]

theorem inverse_without (k : α) (v : β) : (m.without k v).inverse v = none :=
  Function.update_self ..

def put (m : BiMap α β) (k : α) (v : β) : BiMap α β where
  forward := Function.update (m.without k v).forward k (some v)
  inverse := Function.update (m.without k v).inverse v (some k)
  agree j w := by
    have here := (m.without k v).agree j w
    have old := (m.without k v).agree k w
    have other := (m.without k v).agree j v
    have key : (m.without k v).forward k = none := by simp [forward_without]
    have value := inverse_without (m := m) k v
    grind [Function.update_apply]

theorem forward_put (k : α) (v : β) (j : α) : (m.put k v).forward j =
    if j = k then some v else if m.forward j = some v then none else m.forward j := by
  simp only [put, Function.update_apply, forward_without]
  grind

@[simp] theorem forward_put_self (k : α) (v : β) : (m.put k v).forward k = some v :=
  Function.update_self ..

theorem forward_put_of_ne {k j : α} {v : β} (ne : j ≠ k) (other : m.forward j ≠ some v) :
    (m.put k v).forward j = m.forward j := by
  rw [forward_put, if_neg ne, if_neg other]

theorem forward_put_eq {k j : α} {v w : β} (ne : j ≠ k) (h : (m.put k v).forward j = some w) :
    m.forward j = some w := by
  rw [forward_put, if_neg ne] at h
  grind

theorem forward_remove (k j : α) :
    (m.remove k).forward j = if j = k then none else m.forward j :=
  Function.update_apply ..

theorem removeValue_of_inverse {v : β} (h : m.inverse v = none) (j : α) :
    (m.removeValue v).forward j = m.forward j := by
  simp [removeValue, h]

theorem inverse_remove {k : α} {v : β} (h : m.forward k = some v) :
    (m.remove k).inverse v = none := if_pos h

end BiMap
