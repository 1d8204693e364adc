import Toxera.Lib.Exec

/-!
# Saving a file of `toxsave`

`save` of `toxsave/toxsave.v`: the data is written to a second file, an existing file is
removed, and the second file is renamed.
-/

namespace Toxsave

open Exec

abbrev Bytes := List UInt8

abbrev Files := String → Option Bytes

inductive Point where
  | start | written | removed | returned | writeFailed | rmFailed | renameFailed
  deriving DecidableEq

structure State where
  point : Point
  files : Files

/-- An operation succeeds or fails; a write also fails after some of the bytes. -/
inductive Event where
  | ok | fail | short (n : Nat)
  deriving DecidableEq

def tmp (path : String) : String := path ++ ".new"

def next (data : Bytes) (path : String) (s : State) (e : Event) : Option State :=
  match s.point, e with
  | .start, .ok => some ⟨.written, Function.update s.files (tmp path) (some data)⟩
  | .start, .fail => some ⟨.writeFailed, s.files⟩
  | .start, .short n =>
    some ⟨.writeFailed, Function.update s.files (tmp path) (some (data.take n))⟩
  | .written, .ok =>
    if (s.files path).isSome then some ⟨.removed, Function.update s.files path none⟩
    else some ⟨.removed, s.files⟩
  | .written, .fail => some ⟨.rmFailed, s.files⟩
  | .removed, .ok => some ⟨.returned,
      Function.update (Function.update s.files (tmp path) none) path (s.files (tmp path))⟩
  | .removed, .fail => some ⟨.renameFailed, s.files⟩
  | _, _ => none

theorem tmp_ne (path : String) : tmp path ≠ path := by
  intro same
  have lengths := congrArg String.length same
  rw [tmp, String.length_append] at lengths
  exact absurd lengths (Nat.ne_of_gt (Nat.lt_add_of_pos_right (by decide)))

def Holds (old data : Bytes) (path : String) (s : State) : Prop :=
  match s.point with
  | .start | .writeFailed | .rmFailed => s.files path = some old
  | .written => s.files path = some old ∧ s.files (tmp path) = some data
  | .removed => s.files path = none ∧ s.files (tmp path) = some data
  | .renameFailed => s.files path = none
  | .returned => s.files path = some data

theorem Holds.next {old data : Bytes} {path : String} {s t : State} (e : Event)
    (h : Holds old data path s) (step : next data path s e = some t) : Holds old data path t := by
  have other := tmp_ne path
  obtain ⟨point, files⟩ := s
  cases point <;> cases e <;> simp only [Toxsave.next, Option.some.injEq, reduceCtorEq] at step
  case written.ok =>
    have there : (files path).isSome := Option.isSome_of_eq_some h.1
    rw [if_pos there] at step
    cases step
    exact ⟨Function.update_self .., (Function.update_of_ne other ..).trans h.2⟩
  all_goals
    subst step
    simp_all [Holds, Function.update_of_ne other.symm]

/-- The path holds the old or the new data unless `save` stops between removing and
renaming. -/
theorem save_atomic_iff (fs : Files) (path : String) (old data : Bytes)
    (there : fs path = some old) (es : List Event) (s : State)
    (run : exec (next data path) ⟨.start, fs⟩ es = some s) :
    (s.files path = some old ∨ s.files path = some data ↔
      s.point ≠ .removed ∧ s.point ≠ .renameFailed) ∧
    (s.point = .returned → s.files path = some data) := by
  have holds : Holds old data path s :=
    exec_invariant (fun _ e _ => Holds.next e) (s := ⟨.start, fs⟩) there run
  obtain ⟨point, files⟩ := s
  cases point <;> simp_all [Holds]

def savedFiles : Files := fun p => if p = "save" then some [1] else none

theorem save_returns : ∃ s, exec (next [2] "save") ⟨.start, savedFiles⟩ [.ok, .ok, .ok] = some s ∧
    s.files "save" = some [2] :=
  ⟨_, rfl, (save_atomic_iff savedFiles "save" [1] [2] rfl [.ok, .ok, .ok] _ rfl).2 rfl⟩

/-- The file cannot be renamed: neither the old nor the new data is left at the path. -/
theorem save_loses : ∃ s,
    exec (next [2] "save") ⟨.start, savedFiles⟩ [.ok, .ok, .fail] = some s ∧
    s.files "save" = none := ⟨_, rfl, by decide⟩

-- only a rename that fails leads to `renameFailed`, and it changes no file
theorem Holds.next_tmp {old data : Bytes} {path : String} {s t : State} (e : Event)
    (h : Holds old data path s) (step : Toxsave.next data path s e = some t)
    (failed : t.point = .renameFailed) : t.files (tmp path) = some data := by
  obtain ⟨point, files⟩ := s
  cases point <;> cases e <;> simp only [Toxsave.next, Option.some.injEq, reduceCtorEq] at step
  case removed.fail =>
    subst step
    exact h.2
  all_goals grind

/-- Wherever `save` stops, the old or the new data is complete in one of the two files. -/
theorem save_recoverable (fs : Files) (path : String) (old data : Bytes)
    (there : fs path = some old) (es : List Event) (s : State)
    (run : exec (next data path) ⟨.start, fs⟩ es = some s) :
    s.files path = some old ∨ s.files path = some data ∨ s.files (tmp path) = some data := by
  have start : Holds old data path ⟨.start, fs⟩ := there
  obtain ⟨holds, kept⟩ : Holds old data path s ∧
      (s.point = .renameFailed → s.files (tmp path) = some data) :=
    exec_invariant (P := fun s => Holds old data path s ∧
        (s.point = .renameFailed → s.files (tmp path) = some data))
      (fun _ e _ h step => ⟨h.1.next e step, h.1.next_tmp e step⟩) ⟨start, (nomatch ·)⟩ run
  obtain ⟨point, files⟩ := s
  cases point <;> simp_all [Holds]

theorem save_recoverable_lost : ∃ s,
    exec (next [2] "save") ⟨.start, savedFiles⟩ [.ok, .ok, .fail] = some s ∧
    (s.files "save" = some [1] ∨ s.files "save" = some [2] ∨ s.files (tmp "save") = some [2]) :=
  ⟨_, rfl, save_recoverable savedFiles "save" [1] [2] rfl [.ok, .ok, .fail] _ rfl⟩

end Toxsave
