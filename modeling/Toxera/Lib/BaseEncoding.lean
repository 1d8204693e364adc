import Mathlib.Data.List.DropRight
import Mathlib.Data.List.GetD
import Mathlib.Data.Nat.Digits.Lemmas

/-!
# Bytes as text

The standard encodings of bytes in base 32 and base 64: the bits of the bytes in groups of
five or six, each group a letter of an alphabet, the last group filled up with zero bits
and the text with `=` to whole blocks.
-/

namespace BaseEncoding

variable {alphabet : List UInt8} {b c : UInt8}

def ascii (s : String) : List UInt8 := s.toList.map fun c => UInt8.ofNat c.toNat

theorem ascii_ofList (l : List Char) :
    ascii (String.ofList l) = l.map fun c => UInt8.ofNat c.toNat := by
  rw [ascii, String.toList_ofList]

theorem not_mem_ascii {l : List Char} (h : c ∉ l.map fun c => UInt8.ofNat c.toNat) :
    c ∉ ascii (String.ofList l) := by
  rwa [ascii_ofList]

def padding : UInt8 := 61

def spell (alphabet : List UInt8) (digits : List Nat) : List UInt8 :=
  digits.map fun d => alphabet.getD d 0

theorem not_mem_spell (h : c ∉ alphabet) (zero : c ≠ 0) (digits : List Nat) :
    c ∉ spell alphabet digits := by
  intro mem
  obtain ⟨d, -, rfl⟩ := List.mem_map.mp mem
  rcases Nat.lt_or_ge d alphabet.length with inside | outside
  · grind
  · grind

@[simp] theorem spell_length (alphabet : List UInt8) (digits : List Nat) :
    (spell alphabet digits).length = digits.length := List.length_map ..

def number5 (a b c d e : UInt8) : Nat :=
  (((a.toNat * 256 + b.toNat) * 256 + c.toNat) * 256 + d.toNat) * 256 + e.toNat

def block32 (n : Nat) : List Nat :=
  [n / 34359738368 % 32, n / 1073741824 % 32, n / 33554432 % 32, n / 1048576 % 32,
    n / 32768 % 32, n / 1024 % 32, n / 32 % 32, n % 32]

def quintets : List UInt8 → List Nat
  | a :: b :: c :: d :: e :: rest => block32 (number5 a b c d e) ++ quintets rest
  | [a, b, c, d] => (block32 (number5 a b c d 0)).take 7
  | [a, b, c] => (block32 (number5 a b c 0 0)).take 5
  | [a, b] => (block32 (number5 a b 0 0 0)).take 4
  | [a] => (block32 (number5 a 0 0 0 0)).take 2
  | [] => []

def padding32 (size : Nat) : Nat :=
  match size % 5 with
  | 1 => 6
  | 2 => 4
  | 3 => 3
  | 4 => 1
  | _ => 0

def base32 (alphabet data : List UInt8) : List UInt8 :=
  spell alphabet (quintets data) ++ List.replicate (padding32 data.length) padding

theorem quintets_length (data : List UInt8) :
    (quintets data).length = (8 * data.length + 4) / 5 := by
  fun_induction quintets data with
  | case1 a b c d e rest ih =>
    rw [List.length_append, ih]
    simp only [block32, List.length_cons, List.length_nil]
    omega
  | _ => simp [block32]

def number3 (a b c : UInt8) : Nat := (a.toNat * 256 + b.toNat) * 256 + c.toNat

def block64 (n : Nat) : List Nat := [n / 262144 % 64, n / 4096 % 64, n / 64 % 64, n % 64]

def sextets : List UInt8 → List Nat
  | a :: b :: c :: rest => block64 (number3 a b c) ++ sextets rest
  | [a, b] => (block64 (number3 a b 0)).take 3
  | [a] => (block64 (number3 a 0 0)).take 2
  | [] => []

def padding64 (size : Nat) : Nat :=
  match size % 3 with
  | 1 => 2
  | 2 => 1
  | _ => 0

def base64 (alphabet data : List UInt8) : List UInt8 :=
  spell alphabet (sextets data) ++ List.replicate (padding64 data.length) padding

theorem sextets_length (data : List UInt8) :
    (sextets data).length = (4 * data.length + 2) / 3 := by
  fun_induction sextets data with
  | case1 a b c rest ih => grind [block64]
  | _ => simp [block64]

def trimPadding (text : List UInt8) : List UInt8 := text.rdropWhile (· == padding)

theorem trimPadding_append {text : List UInt8} (h : padding ∉ text) (n : Nat) :
    trimPadding (text ++ List.replicate n padding) = text := by
  induction n with
  | zero =>
    rw [List.replicate_zero, List.append_nil, trimPadding, List.rdropWhile_eq_self_iff]
    intro some_ last
    rw [← beq_iff_eq.mp last] at h
    exact h (List.getLast_mem some_)
  | succ n ih =>
    rw [List.replicate_succ', ← List.append_assoc, trimPadding, List.rdropWhile_concat,
      if_pos (beq_self_eq_true _)]
    exact ih

theorem trimPadding_base32 (h : padding ∉ alphabet) (data : List UInt8) :
    trimPadding (base32 alphabet data) = spell alphabet (quintets data) :=
  trimPadding_append (not_mem_spell h (by decide) _) _

theorem trimPadding_base64 (h : padding ∉ alphabet) (data : List UInt8) :
    trimPadding (base64 alphabet data) = spell alphabet (sextets data) :=
  trimPadding_append (not_mem_spell h (by decide) _) _

def value (data : List UInt8) : Nat := data.foldl (fun n b => 256 * n + b.toNat) 0

def base58 (alphabet data : List UInt8) : List UInt8 :=
  (spell alphabet (Nat.digits 58 (value data) ++ (data.takeWhile (· = 0)).map fun _ => 0)).reverse

theorem value_snoc (data : List UInt8) (b : UInt8) :
    value (data ++ [b]) = 256 * value data + b.toNat := List.foldl_append ..

theorem value_lt (data : List UInt8) : value data < 256 ^ data.length := by
  induction data using List.reverseRecOn with
  | nil => exact Nat.one_pos
  | append_singleton data b ih =>
    rw [value_snoc, List.length_append, List.length_singleton, Nat.pow_succ]
    have := b.toNat_lt
    omega

theorem takeWhile_length_le {α : Type*} (p : α → Bool) (l : List α) :
    (l.takeWhile p).length ≤ l.length := (List.takeWhile_prefix p).length_le

theorem base58_length_le (alphabet data : List UInt8) :
    (base58 alphabet data).length ≤ 3 * data.length := by
  have digits : (Nat.digits 58 (value data)).length ≤ 2 * data.length := by
    refine (Nat.digits_length_le_iff (by decide) _).mpr ?_
    calc value data < 256 ^ data.length := value_lt data
      _ ≤ (58 ^ 2) ^ data.length := Nat.pow_le_pow_left (by decide) _
      _ = 58 ^ (2 * data.length) := (Nat.pow_mul ..).symm
  have zeros := takeWhile_length_le (· = 0) data
  rw [base58, List.length_reverse, spell_length, List.length_append, List.length_map]
  omega

theorem base58_zero_head (alphabet rest : List UInt8) :
    (base58 alphabet (0 :: rest)).head? = some (alphabet.getD 0 0) := by
  have last : ((0 :: rest).takeWhile (· = 0)).map (fun _ => 0) =
      List.replicate (rest.takeWhile (· = 0)).length 0 ++ [0] := by
    rw [List.takeWhile_cons_of_pos rfl, List.map_cons, List.map_const', ← List.replicate_succ,
      List.replicate_succ']
  rw [base58, List.head?_reverse, last, ← List.append_assoc, spell, List.map_append,
    List.map_singleton, List.getLast?_concat]

theorem value_cons (b : UInt8) (rest : List UInt8) :
    value (b :: rest) = b.toNat * 256 ^ rest.length + value rest := by
  induction rest using List.reverseRecOn with
  | nil => simp [value]
  | append_singleton rest c ih =>
    rw [← List.cons_append, value_snoc, value_snoc, ih, List.length_append, List.length_singleton,
      Nat.pow_succ]
    ring

theorem value_pos (h : b ≠ 0) (rest : List UInt8) : value (b :: rest) ≠ 0 := by
  have some_ : 0 < b.toNat * 256 ^ rest.length :=
    Nat.mul_pos (Nat.pos_of_ne_zero fun zero => h (UInt8.toNat_inj.mp zero))
      (Nat.pow_pos (by decide))
  rw [value_cons]
  omega

theorem base58_head (h : b ≠ 0) (alphabet rest : List UInt8) :
    ∃ d, d ≠ 0 ∧ d < 58 ∧ (base58 alphabet (b :: rest)).head? = some (alphabet.getD d 0) := by
  have some_ : Nat.digits 58 (value (b :: rest)) ≠ [] :=
    Nat.digits_ne_nil_iff_ne_zero.mpr (value_pos h rest)
  refine ⟨(Nat.digits 58 (value (b :: rest))).getLast some_,
    Nat.getLast_digit_ne_zero 58 (value_pos h rest),
    Nat.digits_lt_base (by decide) (List.getLast_mem some_), ?_⟩
  rw [base58, List.head?_reverse, List.takeWhile_cons_of_neg (by simpa using h), List.map_nil,
    List.append_nil, spell, List.getLast?_map, List.getLast?_eq_getLast_of_ne_nil some_]
  rfl

end BaseEncoding
