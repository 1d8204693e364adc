import Mathlib.Data.List.Basic

/-!
# A buffered reader over a queue

A reader keeps at most `size` elements of what it has taken from an underlying queue,
which hands out what it has and reports its end when it is empty.
-/

universe u

structure BufReader (α : Type u) where
  size : Nat
  buf : List α
  src : List α
  eof : Bool
  le_size : buf.length ≤ size

namespace BufReader
variable {n : Nat}

variable {α : Type u}

def make (n : Nat) : BufReader α := ⟨n, [], [], false, Nat.zero_le n⟩

inductive PeekError where
  | eof
  | bufferFull
  deriving DecidableEq

def contents (b : BufReader α) : List α := b.buf ++ b.src

def fill (b : BufReader α) : BufReader α where
  size := b.size
  buf := b.buf ++ b.src.take (b.size - b.buf.length)
  src := b.src.drop (b.size - b.buf.length)
  eof := b.eof || b.src.isEmpty
  le_size := by
    have := b.le_size
    simp only [List.length_append, List.length_take]
    omega

def Short (b : BufReader α) (n : Nat) : Prop :=
  b.buf.length < n ∧ b.buf.length < b.size ∧ b.eof = false

instance (b : BufReader α) (n : Nat) : Decidable (b.Short n) := instDecidableAnd

def fillTo (n : Nat) : Nat → BufReader α → BufReader α
  | 0, b => b
  | fuel + 1, b => if b.Short n then fillTo n fuel b.fill else b

/-- The loop ends after two rounds: the first empties the queue, fills the buffer
or finds the end. -/
def peek (b : BufReader α) (n : Nat) : BufReader α × Except PeekError (List α) :=
  let b := fillTo n 2 b
  if n > b.size then (b, .error .bufferFull)
  else if b.buf.length < n then
    if b.eof then ({ b with eof := false }, .error .eof) else (b, .error .bufferFull)
  else (b, .ok (b.buf.take n))

def copyOut (b : BufReader α) (n : Nat) : BufReader α × List α :=
  (⟨b.size, b.buf.drop n, b.src, b.eof, by
    have := b.le_size
    simp only [List.length_drop]
    omega⟩, b.buf.take n)

def refill (b : BufReader α) : BufReader α :=
  ⟨b.size, b.src.take b.size, b.src.drop b.size, b.eof, List.length_take_le _ _⟩

def read (b : BufReader α) (n : Nat) : BufReader α × List α :=
  if b.buf.isEmpty then
    if n = 0 ∨ b.eof then ({ b with eof := false }, [])
    else if n ≥ b.size then ({ b with src := b.src.drop n }, b.src.take n)
    else b.refill.copyOut n
  else if n = 0 then (b, [])
  else b.copyOut n

def write (b : BufReader α) (p : List α) : BufReader α := { b with src := b.src ++ p }

@[simp] theorem contents_write (b : BufReader α) (p : List α) :
    (b.write p).contents = b.contents ++ p := by
  simp [contents, write]

@[simp] theorem contents_fill (b : BufReader α) : b.fill.contents = b.contents := by
  simp [contents, fill]

theorem fill_of_empty {b : BufReader α} (h : b.src = []) :
    b.fill.buf = b.buf ∧ b.fill.src = [] ∧ b.fill.eof = true := by
  simp [fill, h]

structure Filled (b b' : BufReader α) (n : Nat) : Prop where
  size : b'.size = b.size
  contents : b'.contents = b.contents
  enough : ¬ b'.Short n
  ended : b'.eof = true → b'.src = [] ∧ b'.buf.length < n

theorem fillTo_filled (b : BufReader α) (live : b.eof = false) (n : Nat) :
    Filled b (fillTo n 2 b) n := by
  by_cases short : b.Short n
  · by_cases again : b.fill.Short n
    · -- the first round has emptied the queue, the second finds its end
      have src : b.fill.src = [] := by
        have := again.2.1
        simp only [fill, List.length_append, List.length_take] at this
        simp only [fill, List.drop_eq_nil_iff]
        omega
      have two : fillTo n 2 b = b.fill.fill := by
        rw [fillTo, if_pos short, fillTo, if_pos again, fillTo]
      obtain ⟨buf, src', eof⟩ := fill_of_empty src
      refine ⟨by rw [two]; rfl, by simp [two], ?_, ?_⟩
      · rw [two]
        intro h
        exact absurd h.2.2 (by simp [eof])
      · intro _
        rw [two, buf]
        exact ⟨src', again.1⟩
    · have one : fillTo n 2 b = b.fill := by
        rw [fillTo, if_pos short, fillTo, if_neg again]
      refine ⟨by rw [one]; rfl, by simp [one], by rwa [one], ?_⟩
      rw [one]
      intro eof
      have src : b.src = [] := by simpa [fill, live] using eof
      obtain ⟨buf, src', -⟩ := fill_of_empty src
      rw [buf]
      exact ⟨src', short.1⟩
  · have zero : fillTo n 2 b = b := by rw [fillTo, if_neg short]
    refine ⟨by rw [zero], by rw [zero], by rwa [zero], ?_⟩
    rw [zero, live]
    intro eof
    cases eof

theorem peek_spec (b : BufReader α) (live : b.eof = false) (small : n ≤ b.size) :
    ∃ b', b.peek n = (b', if n ≤ b.contents.length then .ok (b.contents.take n)
        else .error .eof) ∧
      b'.size = b.size ∧ b'.contents = b.contents ∧ b'.eof = false ∧
      (n ≤ b.contents.length → n ≤ b'.buf.length) := by
  obtain ⟨size, same, enough, ended⟩ := fillTo_filled b live n
  have split : b.contents = (fillTo n 2 b).buf ++ (fillTo n 2 b).src := same.symm
  simp only [peek]
  rw [if_neg (by rw [size]; omega)]
  by_cases few : (fillTo n 2 b).buf.length < n
  · -- the buffer is not full, so the loop has met the end
    have eof : (fillTo n 2 b).eof = true := by
      by_contra hne
      refine enough ⟨few, by rw [size]; omega, by simpa using hne⟩
    have total : ¬ n ≤ b.contents.length := by grind
    rw [if_pos few, if_pos eof, if_neg total]
    exact ⟨_, rfl, size, same, rfl, fun h => absurd h total⟩
  · have live' : (fillTo n 2 b).eof = false := by
      by_contra hne
      exact few (ended (by simpa using hne)).2
    have total : n ≤ b.contents.length := by
      rw [split, List.length_append]
      omega
    rw [if_neg few, if_pos total]
    refine ⟨_, ?_, size, same, live', fun _ => Nat.le_of_not_lt few⟩
    rw [split, List.take_append_of_le_length (by omega)]

theorem read_spec (b : BufReader α) (pos : 0 < n) (buffered : n ≤ b.buf.length) :
    (b.read n).1.size = b.size ∧ (b.read n).1.contents = b.contents.drop n ∧
    (b.read n).1.eof = b.eof ∧ (b.read n).2 = b.contents.take n := by
  have nonempty : ¬ b.buf.isEmpty = true := by grind
  rw [read, if_neg nonempty, if_neg (by omega)]
  refine ⟨rfl, ?_, rfl, ?_⟩
  · simp only [contents, copyOut, List.drop_append_of_le_length buffered]
  · simp only [contents, copyOut, List.take_append_of_le_length buffered]

end BufReader
