import Mathlib.Data.List.Basic

/-!
# Streams that arrive in pieces

A stream is given here by what single reads find: a list of pieces, at the end of which it
has ended.
-/

universe u

namespace Pieces
variable {α : Type u}

inductive ReadError where
  | eof
  | unexpectedEof
  deriving DecidableEq, Repr

def fill : List (List α) → Nat → List α × List (List α)
  | pieces, 0 => ([], pieces)
  | [], _ + 1 => ([], [])
  | piece :: rest, n + 1 =>
    if piece.length ≤ n + 1 then
      let r := fill rest (n + 1 - piece.length)
      (piece ++ r.1, r.2)
    else (piece.take (n + 1), piece.drop (n + 1) :: rest)

def readFull (pieces : List (List α)) (n : Nat) :
    List α × List (List α) × Option ReadError :=
  let r := fill pieces n
  (r.1, r.2,
    if r.1.length = n then none
    else if r.1.length = 0 then some .eof
    else some .unexpectedEof)

theorem fill_spec (pieces : List (List α)) (n : Nat) :
    (fill pieces n).1 = pieces.flatten.take n ∧
      (fill pieces n).2.flatten = pieces.flatten.drop n := by
  induction pieces generalizing n with
  | nil => cases n <;> simp [fill]
  | cons piece rest ih =>
    cases n with
    | zero => simp [fill]
    | succ n =>
      simp only [fill, List.flatten_cons]
      split_ifs with short
      · obtain ⟨taken, left⟩ := ih (n + 1 - piece.length)
        rw [taken, left, List.take_append, List.drop_append, List.take_of_length_le short,
          List.drop_of_length_le short, List.nil_append]
        exact ⟨rfl, rfl⟩
      · grind

theorem readFull_ok {pieces : List (List α)} {n : Nat} (enough : n ≤ pieces.flatten.length) :
    ∃ rest, readFull pieces n = (pieces.flatten.take n, rest, none) ∧
      rest.flatten = pieces.flatten.drop n := by
  obtain ⟨taken, left⟩ := fill_spec pieces n
  have full : (fill pieces n).1.length = n := by
    rw [taken, List.length_take]
    omega
  refine ⟨(fill pieces n).2, ?_, left⟩
  simp only [readFull, if_pos full]
  rw [taken]

theorem readFull_eof {pieces : List (List α)} {n : Nat} (ended : pieces.flatten = [])
    (asks : 0 < n) : ∃ rest, readFull pieces n = ([], rest, some .eof) ∧ rest.flatten = [] := by
  obtain ⟨taken, left⟩ := fill_spec pieces n
  rw [ended, List.take_nil] at taken
  rw [ended, List.drop_nil] at left
  refine ⟨(fill pieces n).2, ?_, left⟩
  simp only [readFull, taken, List.length_nil, if_neg (Nat.ne_of_lt asks), if_true]

end Pieces
