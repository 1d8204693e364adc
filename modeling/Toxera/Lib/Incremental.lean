import Mathlib.Data.List.Basic

/-!
# Parsing a stream that arrives in pieces

A parser takes one item off the front of what has arrived, or asks for more.
-/

namespace Incremental

universe u v

variable {fuel : Nat}

def rounds {σ : Type u} {ε : Type v} (round : σ → Option (σ × Option ε)) :
    Nat → σ → Option (σ × List ε)
  | 0, _ => none
  | fuel + 1, c =>
    (round c).bind fun r =>
      match r.2 with
      | none => some (r.1, [])
      | some e => (rounds round fuel r.1).map fun r' => (r'.1, e :: r'.2)

theorem rounds_stop {σ : Type u} {ε : Type v} {round : σ → Option (σ × Option ε)} {c c' : σ}
    (h : round c = some (c', none)) (fuel : Nat) :
    rounds round (fuel + 1) c = some (c', []) := by
  simp [rounds, h]

theorem rounds_go {σ : Type u} {ε : Type v} {round : σ → Option (σ × Option ε)} {c c' c'' : σ}
    {e : ε} {es : List ε} (h : round c = some (c', some e))
    (rest : rounds round fuel c' = some (c'', es)) :
    rounds round (fuel + 1) c = some (c'', e :: es) := by
  simp [rounds, h, rest]

variable {α : Type u} {β : Type v}

structure Parser (α : Type u) (β : Type v) where
  take : List α → Option (β × List α)
  stable : ∀ {xs b rest}, take xs = some (b, rest) → ∀ ys, take (xs ++ ys) = some (b, rest ++ ys)
  consumes : ∀ {xs b rest}, take xs = some (b, rest) → rest.length < xs.length

variable {P : Parser α β}

/-- The items in front of a stream and what is left when the parser asks for more. -/
inductive Drains (P : Parser α β) : List α → List β → List α → Prop
  | stop {xs : List α} : P.take xs = none → Drains P xs [] xs
  | item {xs xs' : List α} {b : β} {bs : List β} {rest : List α} :
      P.take xs = some (b, xs') → Drains P xs' bs rest → Drains P xs (b :: bs) rest

theorem Drains.settled {xs rest : List α} {bs : List β} (h : Drains P xs bs rest) :
    P.take rest = none := by
  induction h with
  | stop h => exact h
  | item _ _ ih => exact ih

theorem Drains.functional {xs rest rest' : List α} {bs bs' : List β} (h : Drains P xs bs rest)
    (h' : Drains P xs bs' rest') : bs = bs' ∧ rest = rest' := by
  induction h generalizing bs' rest' with
  | stop h =>
    cases h' with
    | stop => exact ⟨rfl, rfl⟩
    | item h1 _ => rw [h] at h1; cases h1
  | item h _ ih =>
    cases h' with
    | stop h1 => rw [h] at h1; cases h1
    | item h1 h2 => grind

theorem Drains.append {xs ys rest rest' : List α} {bs bs' : List β} (h : Drains P xs bs rest)
    (h' : Drains P (rest ++ ys) bs' rest') : Drains P (xs ++ ys) (bs ++ bs') rest' := by
  induction h with
  | stop _ => exact h'
  | item h _ ih => exact .item (P.stable h ys) (ih h')

theorem exists_drains (P : Parser α β) (xs : List α) : ∃ bs rest, Drains P xs bs rest := by
  induction hn : xs.length using Nat.strongRecOn generalizing xs with
  | ind n ih =>
    cases h : P.take xs with
    | none => exact ⟨[], xs, .stop h⟩
    | some r =>
      obtain ⟨b, xs'⟩ := r
      obtain ⟨bs, rest, hd⟩ := ih xs'.length (hn ▸ P.consumes h) xs' rfl
      exact ⟨b :: bs, rest, .item h hd⟩

theorem Drains.split {xs ys rest : List α} {bs : List β} (h : Drains P (xs ++ ys) bs rest) :
    ∃ bs₁ bs₂ kept, bs = bs₁ ++ bs₂ ∧ Drains P xs bs₁ kept ∧ Drains P (kept ++ ys) bs₂ rest := by
  obtain ⟨bs₁, kept, first⟩ := exists_drains P xs
  obtain ⟨bs₂, rest', second⟩ := exists_drains P (kept ++ ys)
  obtain ⟨rfl, rfl⟩ := h.functional (first.append second)
  exact ⟨bs₁, bs₂, kept, rfl, first, second⟩

theorem drains_encoded {enc : β → List α} {bs : List β} (empty : P.take [] = none)
    (decodes : ∀ b ∈ bs, ∀ ys, P.take (enc b ++ ys) = some (b, ys)) :
    Drains P (bs.map enc).flatten bs [] := by
  induction bs with
  | nil => exact .stop empty
  | cons b bs ih =>
    rw [List.map_cons, List.flatten_cons]
    exact .item (decodes b (by simp) _) (ih fun b' hb' => decodes b' (by simp [hb']))

theorem Drains.empty_or_item {xs : List α} {bs : List β} (h : Drains P xs bs []) :
    (xs = [] ∧ bs = []) ∨ ∃ b bs' rest, bs = b :: bs' ∧ P.take xs = some (b, rest) := by
  cases h with
  | stop h => exact Or.inl ⟨rfl, rfl⟩
  | item h _ => exact Or.inr ⟨_, _, _, rfl, h⟩

end Incremental
