import Toxera.Lib.Exec
import Toxera.Lib.Pointwise

/-!
# Insert before check

Parties leave a record each and afterwards look for the record of their counterpart;
whoever finds it marks both.
-/

namespace Rendezvous

open Exec Pointwise

universe u
variable {Q : Type u}

inductive Phase where
  | waiting
  | inserted
  | done
  deriving DecidableEq

structure State (Q : Type u) where
  phase : Q → Option Phase
  met : Q → Bool

inductive Act (Q : Type u) where
  | insert (q : Q)
  | check (q : Q)

def State.present (s : State Q) (q : Q) : Bool :=
  s.phase q = some .inserted || s.phase q = some .done

def State.mark [DecidableEq Q] (s : State Q) (q c : Q) : Q → Bool :=
  if s.present c then fun q' => s.met q' || q' = q || q' = c else s.met

def step [DecidableEq Q] (rev : Q → Q) (s : State Q) : Act Q → Option (State Q)
  | .insert q =>
    if s.phase q = some .waiting then
      some { s with phase := Function.update s.phase q (some .inserted) }
    else none
  | .check q =>
    if s.phase q = some .inserted then
      some ⟨Function.update s.phase q (some .done), s.mark q (rev q)⟩
    else none

theorem step_insert [DecidableEq Q] {rev : Q → Q} {s : State Q} {q : Q}
    (h : s.phase q = some .waiting) : step rev s (.insert q) =
      some { s with phase := Function.update s.phase q (some .inserted) } :=
  if_pos h

theorem step_check [DecidableEq Q] {rev : Q → Q} {s : State Q} {q : Q}
    (h : s.phase q = some .inserted) : step rev s (.check q) =
      some ⟨Function.update s.phase q (some .done), s.mark q (rev q)⟩ :=
  if_pos h

def start (asked : Q → Bool) : State Q :=
  ⟨fun q => if asked q then some .waiting else none, fun _ => false⟩

/-- Two parties that are done have met, and nobody meets a party that never asked. -/
structure Sound (rev : Q → Q) (asked : Q → Bool) (s : State Q) : Prop where
  party : ∀ q, s.phase q ≠ none ↔ asked q = true
  found : ∀ q, s.phase q = some .done → s.phase (rev q) = some .done → s.met q = true
  both : ∀ q, s.met q = true → asked (rev q) = true

theorem start_sound (rev : Q → Q) (asked : Q → Bool) : Sound rev asked (start asked) := by
  refine ⟨?_, ?_, ?_⟩
  · intro q
    cases h : asked q <;> simp [start, h]
  · intro q h
    cases hq : asked q <;> simp [start, hq] at h
  · intro q h
    simp [start] at h

theorem present_asked {rev : Q → Q} {asked : Q → Bool} {s : State Q} (sound : Sound rev asked s)
    {q : Q} (h : s.present q = true) : asked q = true := by
  apply (sound.party q).mp
  intro hnone
  simp [State.present, hnone] at h

theorem step_sound [DecidableEq Q] {rev : Q → Q} (inv : ∀ q, rev (rev q) = q)
    {asked : Q → Bool} {s t : State Q} {a : Act Q} (sound : Sound rev asked s)
    (h : step rev s a = some t) : Sound rev asked t := by
  cases a with
  | insert q =>
    simp only [step] at h
    split_ifs at h with waiting
    cases h
    have askedq : asked q = true := (sound.party q).mp (by rw [waiting]; simp)
    refine ⟨update_defined sound.party askedq _, ?_, sound.both⟩
    intro q' h1 h2
    have other : ∀ r, Function.update s.phase q (some Phase.inserted) r = some .done →
        s.phase r = some .done := by
      intro r hr
      rcases update_some hr with ⟨-, phase⟩ | ⟨-, done⟩
      · cases phase
      · exact done
    exact sound.found q' (other q' h1) (other _ h2)
  | check q =>
    simp only [step] at h
    split_ifs at h with inserted
    cases h
    have askedq : asked q = true := (sound.party q).mp (by rw [inserted]; simp)
    -- marks are only added
    have grows : ∀ r, s.met r = true → s.mark q (rev q) r = true := by
      intro r hr
      unfold State.mark
      split_ifs
      · simp [hr]
      · exact hr
    refine ⟨update_defined sound.party askedq _, ?_, ?_⟩
    · intro q' h1 h2
      change s.mark q (rev q) q' = true
      have old : ∀ r, r ≠ q → Function.update s.phase q (some Phase.done) r = some .done →
          s.phase r = some .done := by
        intro r hr h
        rwa [Function.update_of_ne hr] at h
      by_cases hq : q' = q
      · subst q'
        have here : s.present (rev q) = true := by
          by_cases hr : rev q = q
          · simp [State.present, hr, inserted]
          · simp [State.present, old (rev q) hr h2]
        simp [State.mark, here]
      · have done' := old q' hq h1
        by_cases hr : rev q' = q
        · grind [State.mark, State.present]
        · exact grows q' (sound.found q' done' (old _ hr h2))
    · intro q' h
      change s.mark q (rev q) q' = true at h
      unfold State.mark at h
      split_ifs at h with here
      · simp only [Bool.or_eq_true, decide_eq_true_eq] at h
        rcases h with (h | rfl) | rfl
        · exact sound.both q' h
        · exact present_asked sound here
        · rw [inv]; exact askedq
      · exact sound.both q' h

theorem met_iff_asked [DecidableEq Q] {rev : Q → Q} (inv : ∀ q, rev (rev q) = q)
    {asked : Q → Bool} {s : State Q} {acts : List (Act Q)}
    (run : exec (step rev) (start asked) acts = some s)
    (finished : ∀ q, asked q = true → s.phase q = some .done) {q : Q} (hq : asked q = true) :
    s.met q = true ↔ asked (rev q) = true := by
  have sound := exec_invariant (P := Sound rev asked) (fun _ _ _ h => step_sound inv h)
    (start_sound rev asked) run
  exact ⟨sound.both q, fun h => sound.found q (finished q hq) (finished _ h)⟩

end Rendezvous
