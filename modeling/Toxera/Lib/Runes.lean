import Mathlib.Data.List.Basic
import Mathlib.Order.Basic

/-!
# Strings as runes

A Go string is a string of bytes.
-/

namespace Runes

variable {hi lo s0 : UInt8} {s : List UInt8} {size : Nat}

def runeError : Nat := 0xFFFD

/-- The size of the encoding that a byte starts and the range of its second byte. -/
def lead (s0 : UInt8) : Option (Nat × UInt8 × UInt8) :=
  if s0 < 0xC2 then none
  else if s0 < 0xE0 then some (2, 0x80, 0xBF)
  else if s0 = 0xE0 then some (3, 0xA0, 0xBF)
  else if s0 = 0xED then some (3, 0x80, 0x9F)
  else if s0 < 0xF0 then some (3, 0x80, 0xBF)
  else if s0 = 0xF0 then some (4, 0x90, 0xBF)
  else if s0 < 0xF4 then some (4, 0x80, 0xBF)
  else if s0 = 0xF4 then some (4, 0x80, 0x8F)
  else none

def low (b : UInt8) : Nat := b.toNat % 64

def Continues (b : UInt8) : Prop := 0x80 ≤ b ∧ b ≤ 0xBF

instance (b : UInt8) : Decidable (Continues b) := instDecidableAnd

/-- The rest of an encoding that starts with `s0`, whose second byte must be in a range. -/
def decodeTail (s0 : UInt8) : Nat × UInt8 × UInt8 → List UInt8 → Option Nat
  | (2, lo, hi), b1 :: _ =>
    if lo ≤ b1 ∧ b1 ≤ hi then some (s0.toNat % 32 * 64 + low b1) else none
  | (3, lo, hi), b1 :: b2 :: _ =>
    if (lo ≤ b1 ∧ b1 ≤ hi) ∧ Continues b2 then
      some ((s0.toNat % 16 * 64 + low b1) * 64 + low b2)
    else none
  | (4, lo, hi), b1 :: b2 :: b3 :: _ =>
    if (lo ≤ b1 ∧ b1 ≤ hi) ∧ Continues b2 ∧ Continues b3 then
      some (((s0.toNat % 8 * 64 + low b1) * 64 + low b2) * 64 + low b3)
    else none
  | _, _ => none

def decodeRune : List UInt8 → Nat × Nat
  | [] => (runeError, 0)
  | s0 :: rest =>
    if s0 < 0x80 then (s0.toNat, 1)
    else match lead s0 with
      | none => (runeError, 1)
      | some first =>
        match decodeTail s0 first rest with
        | none => (runeError, 1)
        | some rune => (rune, first.1)

def runesAfter : Nat → List UInt8 → List Nat
  | _, [] => []
  | 0, s0 :: rest =>
    (decodeRune (s0 :: rest)).1 :: runesAfter ((decodeRune (s0 :: rest)).2 - 1) rest
  | skip + 1, _ :: rest => runesAfter skip rest

def runes (s : List UInt8) : List Nat := runesAfter 0 s

theorem runes_cons_ascii (ascii : s0 < 0x80) (rest : List UInt8) :
    runes (s0 :: rest) = s0.toNat :: runes rest := by
  have one : decodeRune (s0 :: rest) = (s0.toNat, 1) := if_pos ascii
  rw [runes, runesAfter, one]
  rfl

theorem runes_ascii (ascii : ∀ b ∈ s, b < 0x80) : runes s = s.map UInt8.toNat := by
  induction s with
  | nil => rfl
  | cons s0 rest ih =>
    rw [runes_cons_ascii (ascii s0 List.mem_cons_self), List.map_cons,
      ih fun b hb => ascii b (List.mem_cons_of_mem _ hb)]

theorem lead_spec (h : lead s0 = some (size, lo, hi)) :
    0x80 ≤ lo.toNat ∧ hi.toNat ≤ 0xBF ∧
      (size = 2 ∧ 2 ≤ s0.toNat % 32 ∨ size = 3 ∧ (1 ≤ s0.toNat % 16 ∨ 0xA0 ≤ lo.toNat) ∨
        size = 4 ∧ (1 ≤ s0.toNat % 8 ∨ 0x90 ≤ lo.toNat)) := by
  unfold lead at h
  simp only [UInt8.lt_iff_toNat_lt, ← UInt8.toNat_inj, UInt8.reduceToNat] at h
  split_ifs at h <;>
  · obtain ⟨rfl, rfl, rfl⟩ := by simpa using h
    refine ⟨by decide, by decide, ?_⟩
    simp <;> omega

theorem decodeTail_high {rest : List UInt8} {rune : Nat} (starts : lead s0 = some (size, lo, hi))
    (h : decodeTail s0 (size, lo, hi) rest = some rune) : 0x80 ≤ rune := by
  obtain ⟨lo_le, le_hi, range⟩ := lead_spec starts
  have second : ∀ b1 : UInt8, lo ≤ b1 ∧ b1 ≤ hi → lo.toNat - 0x80 ≤ low b1 := by
    intro b1 ⟨above, below⟩
    rw [UInt8.le_iff_toNat_le] at above below
    unfold low
    omega
  rcases range with ⟨rfl, payload⟩ | ⟨rfl, payload⟩ | ⟨rfl, payload⟩
  · match rest, h with
    | b1 :: _, h => grind [decodeTail]
  · match rest, h with
    | b1 :: b2 :: _, h => grind [decodeTail]
  · match rest, h with
    | b1 :: b2 :: b3 :: _, h => grind [decodeTail]

theorem decodeRune_high (high : ¬ s0 < 0x80) (rest : List UInt8) :
    0x80 ≤ (decodeRune (s0 :: rest)).1 := by
  rw [decodeRune, if_neg high]
  cases starts : lead s0 with
  | none => exact Nat.le_of_ble_eq_true rfl
  | some first =>
    cases tail : decodeTail s0 first rest with
    | none => simp [tail, runeError]
    | some rune =>
      simp only [tail]
      exact decodeTail_high starts tail

theorem exists_high_rune (high : ∃ b ∈ s, ¬ b < 0x80) : ∃ rune ∈ runes s, 0x80 ≤ rune := by
  induction s with
  | nil => grind
  | cons s0 rest ih =>
    by_cases ascii : s0 < 0x80
    · obtain ⟨b, hb, out⟩ := high
      have later : b ∈ rest := by
        rcases List.mem_cons.mp hb with rfl | hb
        · exact absurd ascii out
        · exact hb
      obtain ⟨rune, hr, big⟩ := ih ⟨b, later, out⟩
      rw [runes_cons_ascii ascii]
      exact ⟨rune, List.mem_cons_of_mem _ hr, big⟩
    · exact ⟨_, List.mem_cons_self, decodeRune_high ascii rest⟩

end Runes
