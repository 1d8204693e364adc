import Toxera.Lib.Exec

/-!
# The last write of a history

Events write to a register, clear it or leave it alone.
-/

universe u v

namespace LastWrite
variable {ε : Type u} {β : Type v} (writes : ε → Option (Option β))

def value (es : List ε) : Option β := es.foldl (fun v e => (writes e).getD v) none

@[simp] theorem value_nil : value writes [] = none := rfl

theorem value_snoc (es : List ε) (e : ε) :
    value writes (es ++ [e]) = (writes e).getD (value writes es) := by
  simp [value, List.foldl_append]

variable {writes}

theorem value_eq_some_iff {es : List ε} {b : β} :
    value writes es = some b ↔ ∃ pre e post, es = pre ++ e :: post ∧
      writes e = some (some b) ∧ ∀ f ∈ post, writes f = none := by
  induction es using List.reverseRecOn with
  | nil => simp
  | append_singleton es e ih =>
    rw [value_snoc]
    constructor
    · intro h
      cases hw : writes e with
      | none =>
        rw [hw, Option.getD_none, ih] at h
        obtain ⟨pre, f, post, rfl, hf, quiet⟩ := h
        refine ⟨pre, f, post ++ [e], by simp, hf, ?_⟩
        intro g hg
        rcases List.mem_append.mp hg with hg | hg
        · exact quiet g hg
        · rw [List.mem_singleton.mp hg]
          exact hw
      | some w => grind
    · rintro ⟨pre, f, post, cut, hf, quiet⟩
      rcases Exec.split_snoc cut with ⟨rfl, rfl, rfl⟩ | ⟨front, rfl, rfl⟩
      · rw [hf, Option.getD_some]
      · grind

end LastWrite
