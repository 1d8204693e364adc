import Mathlib.Data.List.Basic
import Mathlib.Tactic.Ring

/-!
# Variable-length integers

Numbers in base 128, least significant digit first, where every byte but the last has its
high bit set.
-/

namespace Varint

variable {bs buf rest : List UInt8} {i v x : Nat}

def maxVarintLen64 : Nat := 10

def uvarintLoop : Nat → Nat → List UInt8 → Nat × Int
  | _, _, [] => (0, 0)
  | i, x, b :: buf =>
    if i = maxVarintLen64 then (0, -(i + 1))
    else if b < 128 then
      if i = maxVarintLen64 - 1 ∧ 1 < b then (0, -(i + 1))
      else (x + b.toNat * 128 ^ i, i + 1)
    else uvarintLoop (i + 1) (x + b.toNat % 128 * 128 ^ i) buf

/-- The value and the number of bytes read, which is not positive if there is none. -/
def uvarint (buf : List UInt8) : Nat × Int := uvarintLoop 0 0 buf

inductive Base128 : List UInt8 → Nat → Prop
  | last {b : UInt8} (high : b < 128) : Base128 [b] b.toNat
  | more {b : UInt8} {bs : List UInt8} {v : Nat} (high : ¬ b < 128) (rest : Base128 bs v) :
      Base128 (b :: bs) (b.toNat % 128 + 128 * v)

structure Spells (bs : List UInt8) (v : Nat) : Prop where
  digits : Base128 bs v
  short : bs.length ≤ maxVarintLen64
  fits : v < 2 ^ 64

theorem Base128.length_pos (h : Base128 bs v) : 0 < bs.length := by
  cases h <;> exact Nat.succ_pos _

theorem Base128.mod_eight (h : Base128 bs v) : ∃ b cs, bs = b :: cs ∧ v % 8 = b.toNat % 8 := by
  cases h with
  | last _ => exact ⟨_, _, rfl, rfl⟩
  | more _ _ => exact ⟨_, _, rfl, by omega⟩

theorem Base128.last_of_lt (small : v < 128) : Base128 [UInt8.ofNat v] v := by
  have digit : (UInt8.ofNat v).toNat = v := UInt8.toNat_ofNat_of_lt' (lt_trans small (by decide))
  have high : (UInt8.ofNat v).toNat < 128 := by rwa [digit]
  have base := Base128.last (b := UInt8.ofNat v) high
  rwa [digit] at base

theorem Base128.more_of_div (rest : Base128 bs (v / 128)) :
    Base128 (UInt8.ofNat (v % 128 + 128) :: bs) v := by
  have low : v % 128 < 128 := Nat.mod_lt v (by decide)
  have digit : (UInt8.ofNat (v % 128 + 128)).toNat = v % 128 + 128 :=
    UInt8.toNat_ofNat_of_lt' (show v % 128 + 128 < 256 by omega)
  have high : ¬ (UInt8.ofNat (v % 128 + 128)).toNat < 128 := by
    rw [digit]
    omega
  have base := Base128.more high rest
  rwa [digit, Nat.add_mod_right, Nat.mod_mod, Nat.mod_add_div] at base

theorem Spells.single (small : v < 128) : Spells [UInt8.ofNat v] v :=
  ⟨.last_of_lt small, show 1 ≤ 10 by decide, lt_trans small (by decide)⟩

theorem Spells.length_pos (h : Spells bs v) : 0 < bs.length :=
  h.digits.length_pos

theorem shift_digit (x digit v i : Nat) :
    x + digit * 128 ^ i + v * 128 ^ (i + 1) = x + (digit + 128 * v) * 128 ^ i := by
  ring

theorem uvarintLoop_append (h : Base128 bs v) (rest : List UInt8)
    (short : i + bs.length ≤ maxVarintLen64) (fits : x + v * 128 ^ i < 2 ^ 64) :
    uvarintLoop i x (bs ++ rest) = (x + v * 128 ^ i, ((i + bs.length : Nat) : Int)) := by
  induction h generalizing i x with
  | @last b high =>
    have hi : i ≠ maxVarintLen64 := by
      rw [List.length_singleton] at short
      omega
    -- a tenth digit above 1 would not fit
    have digit : ¬ (i = maxVarintLen64 - 1 ∧ 1 < b) := by
      rintro ⟨rfl, big⟩
      have : 1 < b.toNat := big
      have : maxVarintLen64 - 1 = 9 := rfl
      rw [this] at fits
      omega
    rw [List.singleton_append, uvarintLoop, if_neg hi, if_pos high, if_neg digit]
    rfl
  | @more b bs v high _ ih =>
    rw [List.length_cons] at short
    have hi : i ≠ maxVarintLen64 := by omega
    rw [List.cons_append, uvarintLoop, if_neg hi, if_neg high,
      ih (by omega) (by rwa [shift_digit]), shift_digit, List.length_cons]
    congr 2
    omega

theorem uvarint_append (h : Spells bs v) (rest : List UInt8) :
    uvarint (bs ++ rest) = (v, (bs.length : Int)) := by
  have fits : 0 + v * 128 ^ 0 < 2 ^ 64 := by
    rw [Nat.zero_add, pow_zero, Nat.mul_one]
    exact h.fits
  rw [uvarint, uvarintLoop_append h.digits rest (by rw [Nat.zero_add]; exact h.short) fits,
    Nat.zero_add, Nat.zero_add, pow_zero, Nat.mul_one]

theorem digit_lt {digit : Nat} (acc : x < 128 ^ i) (small : digit < 128) :
    x + digit * 128 ^ i < 128 ^ (i + 1) := by
  have top := Nat.mul_le_mul_right (128 ^ i) small
  rw [Nat.succ_mul] at top
  rw [pow_succ, Nat.mul_comm (128 ^ i)]
  omega

theorem uvarintLoop_cases (buf : List UInt8) (hi : i ≤ maxVarintLen64) (acc : x < 128 ^ i) :
    (uvarintLoop i x buf).2 ≤ 0 ∨
      ∃ bs rest v, buf = bs ++ rest ∧ Base128 bs v ∧ i + bs.length ≤ maxVarintLen64 ∧
        x + v * 128 ^ i < 2 ^ 64 := by
  induction buf generalizing i x with
  | nil => exact Or.inl le_rfl
  | cons b buf ih =>
    rw [uvarintLoop]
    split_ifs with full high big
    · exact Or.inl (by omega)
    · exact Or.inl (by omega)
    · refine Or.inr ⟨[b], buf, b.toNat, rfl, .last high, ?_, ?_⟩
      · rw [List.length_singleton]
        omega
      · rcases Nat.lt_or_ge i 9 with low | ninth
        · calc x + b.toNat * 128 ^ i < 128 ^ (i + 1) := digit_lt acc high
            _ ≤ 128 ^ 9 := Nat.pow_le_pow_right (by decide) low
            _ < 2 ^ 64 := by decide
        · have : i = 9 := by
            have : maxVarintLen64 = 10 := rfl
            omega
          subst this
          have small : ¬ 1 < b.toNat := fun one => big ⟨rfl, one⟩
          omega
    · have acc' := digit_lt acc (Nat.mod_lt b.toNat (by decide))
      rcases ih (by omega) acc' with none | ⟨bs, rest, v, split, digits, short, fits⟩
      · exact Or.inl none
      · refine Or.inr ⟨b :: bs, rest, _, by rw [split]; rfl, .more high digits, ?_, ?_⟩
        · rw [List.length_cons]
          omega
        · rwa [← shift_digit]

theorem uvarint_cases (buf : List UInt8) :
    (uvarint buf).2 ≤ 0 ∨
      ∃ bs rest v, buf = bs ++ rest ∧ Spells bs v ∧ uvarint buf = (v, (bs.length : Int)) := by
  rcases uvarintLoop_cases buf (Nat.zero_le _) (by decide : 0 < 128 ^ 0) with
    none | ⟨bs, rest, v, rfl, digits, short, fits⟩
  · exact Or.inl none
  · rw [Nat.zero_add] at short fits
    rw [pow_zero, Nat.mul_one] at fits
    have spells : Spells bs v := ⟨digits, short, fits⟩
    exact Or.inr ⟨bs, rest, v, rfl, spells, uvarint_append spells rest⟩

def Broken (buf : List UInt8) : Prop := ∀ bs rest v, Spells bs v → buf ≠ bs ++ rest

theorem Broken.uvarint_le (h : Broken buf) : (uvarint buf).2 ≤ 0 := by
  rcases uvarint_cases buf with none | ⟨bs, rest, v, split, spells, -⟩
  · exact none
  · exact absurd split (h bs rest v spells)

theorem broken_or_spells (buf : List UInt8) :
    Broken buf ∨ ∃ bs rest v, buf = bs ++ rest ∧ Spells bs v := by
  by_cases h : ∃ bs rest v, buf = bs ++ rest ∧ Spells bs v
  · exact Or.inr h
  · exact Or.inl fun bs rest v spells split => h ⟨bs, rest, v, split, spells⟩

theorem broken_of_uvarint (none : (uvarint buf).2 ≤ 0) : Broken buf := by
  rintro bs rest v spells rfl
  have pos := spells.length_pos
  rw [uvarint_append spells] at none
  omega

theorem Spells.unique {bs' rest' : List UInt8} {v' : Nat} (h : Spells bs v) (h' : Spells bs' v')
    (same : bs ++ rest = bs' ++ rest') : bs = bs' ∧ v = v' ∧ rest = rest' := by
  have read := uvarint_append h rest
  rw [same, uvarint_append h', Prod.mk.injEq, Int.natCast_inj] at read
  obtain ⟨front, back⟩ := List.append_inj same read.2.symm
  exact ⟨front, read.1.symm, back⟩

theorem Spells.truncated (h : Spells (bs ++ rest) v) (cut : rest ≠ []) : Broken bs := by
  rintro bs' rest' v' spells rfl
  have same : bs' ++ rest' ++ rest ++ [] = bs' ++ (rest' ++ rest) := by
    rw [List.append_nil, List.append_assoc]
  have nothing := (h.unique spells same).2.2
  exact cut (List.append_eq_nil_iff.mp nothing.symm).2

end Varint
