import Mathlib.Data.List.Basic

/-!
# Mutexes that are not re-entrant

A chain of calls is executed together with the list of the mutexes it holds.
-/

namespace Locks

universe u
variable {μ : Type u} {α : Type u}

inductive Stuck (μ : Type u) where
  | selfLock (m : μ)
  /-- a mutex is unlocked that is not locked -/
  | notLocked (m : μ)
  | panic
  deriving DecidableEq

abbrev Chain (μ : Type u) := StateT (List μ) (Except (Stuck μ))

def stop (why : Stuck μ) : Chain μ α := fun _ => .error why

section

variable {β : Type u} {x : Chain μ α} {f : α → Chain μ β} {held held' : List μ} {a : α}

theorem bind_ok (h : x.run held = .ok (a, held')) : (x >>= f).run held = (f a).run held' := by
  rw [StateT.run_bind, h]
  rfl

theorem bind_error {why : Stuck μ} (h : x.run held = .error why) :
    (x >>= f).run held = .error why := by
  rw [StateT.run_bind, h]
  rfl

end

variable [DecidableEq μ]

def lock (m : μ) : Chain μ PUnit := fun held =>
  if m ∈ held then .error (.selfLock m) else .ok (⟨⟩, m :: held)

def unlock (m : μ) : Chain μ PUnit := fun held =>
  if m ∈ held then .ok (⟨⟩, held.erase m) else .error (.notLocked m)

def locked (m : μ) (body : Chain μ α) : Chain μ α := do
  lock m
  let a ← body
  unlock m
  return a

variable {m : μ} {body : Chain μ α} {held : List μ} {a : α}

theorem locked_self (mem : m ∈ held) : (locked m body).run held = .error (.selfLock m) :=
  bind_error (if_pos mem)

theorem locked_ok (free : m ∉ held) (h : body.run (m :: held) = .ok (a, m :: held)) :
    (locked m body).run held = .ok (a, held) := by
  have taken : (lock m).run held = .ok (⟨⟩, m :: held) := if_neg free
  have released : (unlock m).run (m :: held) = .ok (⟨⟩, held) := by
    show (if m ∈ m :: held then _ else _) = _
    rw [if_pos List.mem_cons_self, List.erase_cons_head]
  rw [locked, bind_ok taken, bind_ok h, bind_ok released]
  rfl

theorem locked_error {why : Stuck μ} (free : m ∉ held) (h : body.run (m :: held) = .error why) :
    (locked m body).run held = .error why := by
  have taken : (lock m).run held = .ok (⟨⟩, m :: held) := if_neg free
  rw [locked, bind_ok taken, bind_error h]

end Locks
