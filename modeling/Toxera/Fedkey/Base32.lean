import Toxera.Fedkey.Encodings
import Toxera.Lib.BitStrings

/-!
# Base 32 by bits

A letter of `base32_encode` and `base32_yggdrasil` of `fedkey/keyring.c` stands for five
bits of the input.
-/

namespace Fedkey

open BaseEncoding BitStrings

def fromBits (l : List Bool) : Nat := l.foldl (fun n b => 2 * n + b.toNat) 0

def fiveBits (l : List Bool) (i : Nat) : Nat :=
  fromBits (((l ++ List.replicate 4 false).drop (5 * i)).take 5)

def groups (l : List Bool) : List Nat :=
  (List.range ((l.length + 4) / 5)).map (fiveBits l)

theorem fiveBits_append_left {front : List Bool} (back : List Bool) {i : Nat}
    (inside : 5 * i + 5 ≤ front.length) : fiveBits (front ++ back) i = fiveBits front i := by
  have cut : ∀ rest : List Bool, ((front ++ rest).drop (5 * i)).take 5 =
      (front.drop (5 * i)).take 5 := by
    intro rest
    rw [List.drop_append_of_le_length (by omega), List.take_append_of_le_length]
    rw [List.length_drop]
    omega
  rw [fiveBits, fiveBits, List.append_assoc, cut, cut]

theorem groups_append {front : List Bool} {n : Nat} (len : front.length = 5 * n)
    (back : List Bool) : groups (front ++ back) = groups front ++ groups back := by
  have count : (5 * n + back.length + 4) / 5 = n + (back.length + 4) / 5 := by omega
  have count' : (5 * n + 4) / 5 = n := by omega
  rw [groups, groups, groups, List.length_append, len, count, count', List.range_add,
    List.map_append, List.map_map]
  congr 1
  · refine List.map_congr_left fun i mem => fiveBits_append_left back ?_
    have := List.mem_range.mp mem
    omega
  · refine List.map_congr_left fun i _ => ?_
    have later : 5 * (n + i) = front.length + 5 * i := by omega
    rw [Function.comp_apply, fiveBits, later, List.append_assoc, List.drop_length_add_append]
    rfl

theorem byteBits_eq (b : UInt8) : byteBits b =
    [b.toNat.testBit 7, b.toNat.testBit 6, b.toNat.testBit 5, b.toNat.testBit 4,
      b.toNat.testBit 3, b.toNat.testBit 2, b.toNat.testBit 1, b.toNat.testBit 0] := rfl

theorem block32_number5 (a b c d e : UInt8) : block32 (number5 a b c d e) =
    [a.toNat / 8, a.toNat % 8 * 4 + b.toNat / 64, b.toNat / 2 % 32,
      b.toNat % 2 * 16 + c.toNat / 16, c.toNat % 16 * 2 + d.toNat / 128, d.toNat / 4 % 32,
      d.toNat % 4 * 8 + e.toNat / 32, e.toNat % 32] := by
  have := a.toNat_lt
  have := b.toNat_lt
  have := c.toNat_lt
  have := d.toNat_lt
  have := e.toNat_lt
  simp only [block32, number5, List.cons.injEq, and_true]
  refine ⟨?_, ?_, ?_, ?_, ?_, ?_, ?_, ?_⟩ <;> omega

theorem groups_block (a b c d e : UInt8) :
    groups (bits [a, b, c, d, e]) = block32 (number5 a b c d e) := by
  have := a.toNat_lt
  have := b.toNat_lt
  have := c.toNat_lt
  have := d.toNat_lt
  have := e.toNat_lt
  have count : groups (bits [a, b, c, d, e]) =
      [0, 1, 2, 3, 4, 5, 6, 7].map (fiveBits (bits [a, b, c, d, e])) := by
    have eight : (8 * [a, b, c, d, e].length + 4) / 5 = 8 := by simp
    rw [groups, bits_length, eight]
    rfl
  rw [block32_number5, count]
  simp only [List.map_cons, List.map_nil, fiveBits, Nat.reduceMul, fromBits, bits,
    List.flatMap_cons, List.flatMap_nil, byteBits_eq, List.cons_append, List.nil_append,
    List.drop_succ_cons, List.drop_zero, List.take_succ_cons, List.take_zero, List.foldl_cons,
    List.foldl_nil, Nat.toNat_testBit, List.cons.injEq, and_true]
  refine ⟨?_, ?_, ?_, ?_, ?_, ?_, ?_, ?_⟩ <;> omega

theorem groups_padded (data zeros : List UInt8) (blank : bits zeros = List.replicate
    (8 * zeros.length) false) (more : zeros ≠ []) :
    groups (bits data) = (groups (bits (data ++ zeros))).take ((8 * data.length + 4) / 5) := by
  have four : 4 ≤ 8 * zeros.length := by
    have := List.length_pos_of_ne_nil more
    omega
  rw [groups, groups, ← List.map_take, List.take_range, bits_length, bits_length,
    List.length_append, Nat.min_eq_left (by omega)]
  refine List.map_congr_left fun i mem => ?_
  have last := List.mem_range.mp mem
  -- the group ends within four zeros behind the data
  have cut : ∀ rest : List Bool, ((bits data ++ List.replicate 4 false ++ rest).drop (5 * i)).take 5
      = ((bits data ++ List.replicate 4 false).drop (5 * i)).take 5 := by
    intro rest
    rw [List.drop_append_of_le_length, List.take_append_of_le_length]
    · simp
      omega
    · simp
      omega
  have zeros_eq : List.replicate (8 * zeros.length) false ++ List.replicate 4 false =
      List.replicate 4 false ++ List.replicate (8 * zeros.length) false := by
    rw [List.replicate_append_replicate, List.replicate_append_replicate, Nat.add_comm]
  rw [fiveBits, fiveBits, bits_append, blank, List.append_assoc, zeros_eq, ← List.append_assoc, cut]

theorem groups_partial (data zeros : Bytes) (a b c d e : UInt8) {n : Nat}
    (fill : data ++ zeros = [a, b, c, d, e]) (count : (8 * data.length + 4) / 5 = n)
    (blank : bits zeros = List.replicate (8 * zeros.length) false) (more : zeros ≠ []) :
    (block32 (number5 a b c d e)).take n = groups (bits data) := by
  rw [groups_padded data zeros blank more, fill, groups_block, count]

theorem quintets_eq_groups (data : Bytes) : quintets data = groups (bits data) := by
  fun_induction quintets data with
  | case1 a b c d e rest ih =>
    have front : (bits [a, b, c, d, e]).length = 5 * 8 := bits_length _
    rw [ih, ← groups_block, ← groups_append front, ← bits_append]
    rfl
  | case2 a b c d =>
    exact groups_partial [a, b, c, d] [0] a b c d 0 rfl (by simp) (by decide) (by simp)
  | case3 a b c =>
    exact groups_partial [a, b, c] [0, 0] a b c 0 0 rfl (by simp) (by decide) (by simp)
  | case4 a b =>
    exact groups_partial [a, b] [0, 0, 0] a b 0 0 0 rfl (by simp) (by decide) (by simp)
  | case5 a =>
    exact groups_partial [a] [0, 0, 0, 0] a 0 0 0 0 rfl (by simp) (by decide) (by simp)
  | case6 => rfl

theorem fiveBits_lt (l : List Bool) (i : Nat) : fiveBits l i < 32 := by
  have five : ∀ l : List Bool, l.length ≤ 5 → fromBits l < 32 := by
    intro l len
    match l, len with
    | [], _ | [a], _ | [a, b], _ | [a, b, c], _ | [a, b, c, d], _ | [a, b, c, d, e], _ =>
      simp only [fromBits, List.foldl_cons, List.foldl_nil]
      grind [Bool.toNat_lt]
  exact five _ (List.length_take_le ..)

/-- The text has a letter for every five bits, and the letter is that of its bits. -/
def ExactText (alphabet data text : Bytes) : Prop :=
  text.length = (8 * data.length + 4) / 5 ∧
    ∀ i < (8 * data.length + 4) / 5, text[i]? = alphabet[fiveBits (bits data) i]?

theorem exactText_quintets {alphabet : Bytes} (size : alphabet.length = 32) (data : Bytes) :
    ExactText alphabet data (spell alphabet (quintets data)) := by
  have count : (quintets data).length = (8 * data.length + 4) / 5 := by
    rw [quintets_eq_groups, groups, List.length_map, List.length_range, bits_length]
  refine ⟨by rw [spell_length, count], fun i inside => ?_⟩
  have place : fiveBits (bits data) i < alphabet.length := size ▸ fiveBits_lt _ i
  have here : i < ((bits data).length + 4) / 5 := by rwa [bits_length]
  rw [quintets_eq_groups, spell, List.getElem?_map, groups, List.getElem?_map,
    List.getElem?_range here, List.getElem?_eq_getElem place, Option.map_some, Option.map_some,
    List.getD_eq_getElem _ _ place]

theorem base32With_exact_iff {alphabet : Bytes} (size : alphabet.length = 32) (data : Bytes) :
    (∃ text, C.base32With alphabet data = some text ∧ ExactText alphabet data text) ↔
      (8 * data.length + 4) / 5 < 2 ^ 31 := by
  constructor
  · rintro ⟨text, written, length, -⟩
    rw [C.base32With] at written
    split_ifs at written with counted
    rw [← Option.some.inj written, spell_length] at length
    exact length ▸ counted
  · exact fun short => ⟨_, C.base32With_eq alphabet short, exactText_quintets size data⟩

/-- Both encoders write exactly the letters of their input where an `int` can count them. -/
theorem base32_exact_iff (data : Bytes) :
    ((∃ text, C.base32Encode data = some text ∧ ExactText base32Alphabet data text) ↔
      (8 * data.length + 4) / 5 < 2 ^ 31) ∧
    ((∃ text, C.base32Yggdrasil data = some text ∧ ExactText C.yggAlphabet data text) ↔
      (8 * data.length + 4) / 5 < 2 ^ 31) :=
  ⟨base32With_exact_iff (by decide) data, base32With_exact_iff (by decide) data⟩

/-- Of an input of 2³¹ bytes nothing is read: its length is negative as an `int`. -/
theorem base32_nothing_read :
    C.base32Encode (List.replicate (2 ^ 31) 0) = some [] ∧
    C.base32Yggdrasil (List.replicate (2 ^ 31) 0) = some [] ∧
      (8 * (List.replicate (2 ^ 31) (0 : UInt8)).length + 4) / 5 ≠ 0 := by
  have nothing : C.readable (List.replicate (2 ^ 31) 0) = [] := by
    rw [C.readable, List.length_replicate]
    exact List.take_zero
  refine ⟨?_, ?_, by rw [List.length_replicate]; decide⟩
  · rw [C.base32Encode, C.base32With, nothing, C.base32Loop_done]
    rfl
  · rw [C.base32Yggdrasil, C.base32With, nothing, C.base32Loop_done]
    rfl

end Fedkey
