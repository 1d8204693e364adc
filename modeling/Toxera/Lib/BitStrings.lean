import Mathlib.Data.List.Basic
import Mathlib.Tactic.NormNum.Basic

/-!
# Bytes as bits

The bits of a text of bytes, the highest bit of a byte first, and eight bits that are
pushed into a byte one after the other.
-/

namespace BitStrings

def digit (b : Bool) : UInt8 := if b then 1 else 0

def byteBits (b : UInt8) : List Bool := (List.range 8).map fun j => b.toNat.testBit (7 - j)

def bits (data : List UInt8) : List Bool := data.flatMap byteBits

def ofBits (l : List Bool) : UInt8 := l.foldl (fun byte b => (byte <<< 1) ||| digit b) 0

@[simp] theorem byteBits_length (b : UInt8) : (byteBits b).length = 8 := by simp [byteBits]

@[simp] theorem bits_length (data : List UInt8) : (bits data).length = 8 * data.length := by
  induction data with
  | nil => rfl
  | cons b data ih => grind [bits, byteBits_length]

theorem bits_append (front back : List UInt8) : bits (front ++ back) = bits front ++ bits back :=
  List.flatMap_append

theorem bits_take (data : List UInt8) (n : Nat) :
    bits (data.take n) = (bits data).take (8 * n) := by
  conv_rhs => rw [← List.take_append_drop n data, bits_append]
  rcases Nat.le_total n data.length with le | ge
  · grind [bits_length]
  · rw [List.drop_of_length_le ge, List.take_of_length_le ge, show bits [] = [] from rfl,
      List.append_nil, List.take_of_length_le]
    rw [bits_length]
    omega

theorem bits_replicate_zero (n : Nat) :
    bits (List.replicate n 0) = List.replicate (8 * n) false := by
  induction n with
  | zero => rfl
  | succ n ih =>
    rw [List.replicate_succ, bits, List.flatMap_cons, ← bits, ih, Nat.mul_succ, Nat.add_comm,
      List.replicate_add]
    rfl

theorem forall_byte {p : UInt8 → Prop} (h : ∀ n < 256, p (UInt8.ofNat n)) (b : UInt8) : p b := by
  have := h b.toNat b.toNat_lt
  rwa [UInt8.ofNat_toNat] at this

theorem byteBits_complement (b : UInt8) : byteBits (~~~ b) = (byteBits b).map not := by
  revert b
  apply forall_byte
  decide +kernel

theorem bits_complement (data : List UInt8) :
    bits (data.map fun b => ~~~ b) = (bits data).map not := by
  rw [bits, bits, List.flatMap_map, List.map_flatMap]
  exact List.flatMap_congr fun b _ => byteBits_complement b

theorem byteBits_ofBits {l : List Bool} (len : l.length = 8) : byteBits (ofBits l) = l := by
  have all : ∀ a b c d e f g h : Bool,
      byteBits (ofBits [a, b, c, d, e, f, g, h]) = [a, b, c, d, e, f, g, h] := by decide +kernel
  match l, len with
  | [a, b, c, d, e, f, g, h], _ => exact all a b c d e f g h

theorem bits_eq_map (data : List UInt8) :
    bits data = (List.range (8 * data.length)).map fun idx =>
      (data.getD (idx / 8) 0).toNat.testBit (7 - idx % 8) := by
  induction data with
  | nil => rfl
  | cons b data ih =>
    rw [bits, List.flatMap_cons, ← bits, ih, List.length_cons, Nat.mul_succ, Nat.add_comm,
      List.range_add, List.map_append, List.map_map]
    congr 1
    refine List.map_congr_left fun idx _ => ?_
    rw [Function.comp_apply, Nat.add_mod_left, Nat.add_div_left idx (by decide)]
    rfl

end BitStrings
