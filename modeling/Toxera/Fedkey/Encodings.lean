import Toxera.Lib.BaseEncoding

/-!
# The encoders of the two keyrings

`base32_encode`, `base32_yggdrasil`, `base64_encode`, `base58_encode` and `bin_to_hex` of
`fedkey/keyring.c` and `base32Encode` and `base58Encode` of `fedkey/keyring.go`.
-/

namespace Fedkey

open BaseEncoding

abbrev Bytes := List UInt8

def base32Alphabet : Bytes := ascii "ABCDEFGHIJKLMNOPQRSTUVWXYZ234567"

def base64Alphabet : Bytes :=
  ascii "ABCDEFGHIJKLMNOPQRSTUVWXYZabcdefghijklmnopqrstuvwxyz0123456789+/"

def base58Alphabet : Bytes :=
  ascii "123456789ABCDEFGHJKLMNPQRSTUVWXYZabcdefghijkmnopqrstuvwxyz"

namespace C

def pushByte (buffer : Int) (d : UInt8) : Int := Int.bmod (buffer * 256 + d.toNat) 4294967296

def digitAt (buffer : Int) (bits : Nat) : Nat := (buffer / 2 ^ bits % 32).toNat

def lastDigit (buffer : Int) (bits : Nat) : Nat := (buffer * 2 ^ (5 - bits) % 32).toNat

def base32Loop (data : Bytes) (bits : Nat) (buffer : Int) : List Nat :=
  if bits < 5 then
    match data with
    | d :: rest =>
      let buffer := pushByte buffer d
      digitAt buffer (bits + 3) :: base32Loop rest (bits + 3) buffer
    | [] => if 0 < bits then [lastDigit buffer bits] else []
  else digitAt buffer (bits - 5) :: base32Loop data (bits - 5) buffer
termination_by 8 * data.length + bits

/-- The bytes that `i < (int)len` lets the loop read. -/
def readable (data : Bytes) : Bytes := data.take (Int.bmod data.length 4294967296).toNat

/-- What the loop writes with an alphabet; none if `pos`, an `int`, overflows. -/
def base32With (alphabet data : Bytes) : Option Bytes :=
  let digits := base32Loop (readable data) 0 0
  if digits.length < 2147483648 then some (spell alphabet digits) else none

def base32Encode (data : Bytes) : Option Bytes := base32With base32Alphabet data

def yggAlphabet : Bytes := ascii "ybndrfg8ejkmcpqxot1uwisza345h769"

def base32Yggdrasil (data : Bytes) : Option Bytes := base32With yggAlphabet data

def base64Encode (data : Bytes) (outLen : Nat) : Bytes :=
  let text := base64 base64Alphabet data
  trimPadding (if outLen ≤ text.length then text.take (outLen - 1) else text)

def base58Encode (data : Bytes) : Option Bytes :=
  let text := base58 base58Alphabet data
  if text.length < 256 then some text else none

def hexDigits : Bytes := ascii "0123456789abcdef"

def binToHex (bin : Bytes) : Bytes :=
  bin.flatMap fun b => spell hexDigits [b.toNat / 16, b.toNat % 16]

end C

namespace Go

def base32Encode (data : Bytes) : Bytes := trimPadding (base32 base32Alphabet data)

def base58Encode (data : Bytes) : Bytes := base58 base58Alphabet data

end Go

namespace C

variable {bits : Nat} {data : Bytes} {buffer : Int}

theorem base32Loop_read (h : bits < 5) (d : UInt8) (rest : Bytes) :
    base32Loop (d :: rest) bits buffer = digitAt (pushByte buffer d) (bits + 3) ::
      base32Loop rest (bits + 3) (pushByte buffer d) := by
  rw [base32Loop, if_pos h]

theorem base32Loop_emit (h : 5 ≤ bits) :
    base32Loop data bits buffer = digitAt buffer (bits - 5) ::
      base32Loop data (bits - 5) buffer := by
  rw [base32Loop.eq_def, if_neg (Nat.not_lt.mpr h)]

theorem base32Loop_done : base32Loop [] 0 buffer = [] := by
  rw [base32Loop]
  rfl

theorem pushByte_mod (buffer : Int) (d : UInt8) :
    pushByte buffer d % 4294967296 = (buffer * 256 + d.toNat) % 4294967296 :=
  Int.bmod_emod

theorem base32Loop_block (a b c d e : UInt8) (rest : Bytes) (buffer : Int) : ∃ buffer',
    base32Loop (a :: b :: c :: d :: e :: rest) 0 buffer =
      block32 (number5 a b c d e) ++ base32Loop rest 0 buffer' := by
  rw [base32Loop_read (by decide), base32Loop_read (by decide), base32Loop_emit (by decide),
    base32Loop_read (by decide), base32Loop_read (by decide), base32Loop_emit (by decide),
    base32Loop_read (by decide), base32Loop_emit (by decide)]
  have ha := pushByte_mod buffer a
  generalize pushByte buffer a = A at ha
  have hb := pushByte_mod A b
  generalize pushByte A b = B at hb
  have hc := pushByte_mod B c
  generalize pushByte B c = C at hc
  have hd := pushByte_mod C d
  generalize pushByte C d = D at hd
  have he := pushByte_mod D e
  generalize pushByte D e = E at he
  have := a.toNat_lt
  have := b.toNat_lt
  have := c.toNat_lt
  have := d.toNat_lt
  have := e.toNat_lt
  refine ⟨E, ?_⟩
  simp only [block32, number5, digitAt, List.cons_append, List.nil_append, List.cons.injEq,
    Nat.reduceAdd, Nat.reduceSub, and_true]
  refine ⟨?_, ?_, ?_, ?_, ?_, ?_, ?_, ?_⟩ <;> omega

theorem lastDigit_eq (h : bits < 5) (pos : 0 < bits) (buffer : Int) :
    lastDigit buffer bits = digitAt (pushByte buffer 0) (bits + 3) := by
  have pushed := pushByte_mod buffer 0
  generalize pushByte buffer 0 = B at pushed
  rw [UInt8.toNat_zero] at pushed
  unfold lastDigit digitAt
  interval_cases bits <;> omega

theorem base32Loop_take (data zeros : Bytes) (bits : Nat) (buffer : Int) :
    base32Loop data bits buffer = (base32Loop (data ++ 0 :: zeros) bits buffer).take
      ((8 * data.length + bits + 4) / 5) := by
  fun_induction base32Loop data bits buffer with
  | case1 bits buffer h d rest pushed ih =>
    rw [List.cons_append, base32Loop_read h, ih, List.length_cons,
      show (8 * (rest.length + 1) + bits + 4) / 5 = (8 * rest.length + (bits + 3) + 4) / 5 + 1 by
        omega]
    rfl
  | case2 bits buffer h pos =>
    rw [List.nil_append, base32Loop_read h, lastDigit_eq h pos, List.length_nil,
      show (8 * 0 + bits + 4) / 5 = 0 + 1 by omega]
    rfl
  | case3 bits buffer h zero =>
    rw [List.length_nil, show (8 * 0 + bits + 4) / 5 = 0 by omega, List.take_zero]
  | case4 data bits buffer h ih =>
    rw [base32Loop_emit (Nat.not_lt.mp h), ih,
      show (8 * data.length + bits + 4) / 5 = (8 * data.length + (bits - 5) + 4) / 5 + 1 by omega]
    rfl

theorem base32Loop_partial (data zeros : Bytes) (a b c d e : UInt8) (buffer : Int) {n : Nat}
    (fill : data ++ 0 :: zeros = [a, b, c, d, e]) (count : (8 * data.length + 0 + 4) / 5 = n) :
    base32Loop data 0 buffer = (block32 (number5 a b c d e)).take n := by
  obtain ⟨buffer', block⟩ := base32Loop_block a b c d e [] buffer
  rw [base32Loop_take data zeros, fill, block, base32Loop_done, List.append_nil, count]

theorem base32Loop_eq (data : Bytes) (buffer : Int) :
    base32Loop data 0 buffer = quintets data := by
  fun_induction quintets data generalizing buffer with
  | case1 a b c d e rest ih =>
    obtain ⟨buffer', block⟩ := base32Loop_block a b c d e rest buffer
    rw [block, ih]
  | case2 a b c d => exact base32Loop_partial [a, b, c, d] [] a b c d 0 buffer rfl (by simp)
  | case3 a b c => exact base32Loop_partial [a, b, c] [0] a b c 0 0 buffer rfl (by simp)
  | case4 a b => exact base32Loop_partial [a, b] [0, 0] a b 0 0 0 buffer rfl (by simp)
  | case5 a => exact base32Loop_partial [a] [0, 0, 0] a 0 0 0 0 buffer rfl (by simp)
  | case6 => exact base32Loop_done

/-- An input whose letters an `int` can count is read to its end. -/
theorem base32With_eq (alphabet : Bytes) (short : (8 * data.length + 4) / 5 < 2147483648) :
    base32With alphabet data = some (spell alphabet (quintets data)) := by
  have len : Int.bmod data.length 4294967296 = data.length :=
    Int.bmod_eq_of_le (by omega) (by omega)
  have all : readable data = data := by
    rw [readable, len, Int.toNat_natCast, List.take_length]
  have size : (quintets data).length < 2147483648 := by
    rw [quintets_length]
    omega
  rw [base32With, all, base32Loop_eq]
  exact if_pos size

end C

theorem base58Alphabet_eq : base58Alphabet =
    [49, 50, 51, 52, 53, 54, 55, 56, 57, 65, 66, 67, 68, 69, 70, 71, 72, 74, 75, 76, 77, 78, 80, 81,
      82, 83, 84, 85, 86, 87, 88, 89, 90, 97, 98, 99, 100, 101, 102, 103, 104, 105, 106, 107, 109,
      110, 111, 112, 113, 114, 115, 116, 117, 118, 119, 120, 121, 122] :=
  ascii_ofList _

theorem base58Alphabet_length : base58Alphabet.length = 58 := by
  rw [base58Alphabet_eq]
  rfl

theorem base58Alphabet_nodup : base58Alphabet.Nodup := by
  have sorted : base58Alphabet.Pairwise (· < ·) := by
    rw [base58Alphabet_eq]
    exact List.isChain_iff_pairwise.mp (by decide)
  exact sorted.imp fun less => UInt8.ne_of_lt less

theorem base58Alphabet_getD_inj {d e : Nat} (hd : d < 58) (he : e < 58)
    (same : base58Alphabet.getD d 0 = base58Alphabet.getD e 0) : d = e := by
  rw [← base58Alphabet_length] at hd he
  rw [List.getD_eq_getElem _ _ hd, List.getD_eq_getElem _ _ he] at same
  exact (base58Alphabet_nodup.getElem_inj_iff).mp same

theorem padding_not_mem_base32Alphabet : padding ∉ base32Alphabet := not_mem_ascii (by decide)

theorem padding_not_mem_base64Alphabet : padding ∉ base64Alphabet := not_mem_ascii (by decide)

theorem base32Encode_agree {data : Bytes} (short : (8 * data.length + 4) / 5 < 2147483648) :
    C.base32Encode data = some (Go.base32Encode data) := by
  rw [C.base32Encode, Go.base32Encode, C.base32With_eq _ short,
    trimPadding_base32 padding_not_mem_base32Alphabet]

theorem base58Encode_agree {data : Bytes} (short : data.length ≤ 85) :
    C.base58Encode data = some (Go.base58Encode data) := by
  have size := base58_length_le base58Alphabet data
  exact if_pos (by omega)

end Fedkey
