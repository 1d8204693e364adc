import Toxera.Fedkey.Encodings
import Toxera.Lib.Radix

/-!
# The BLS keys of a seed

`bls12_381_keygen` of `fedkey/keyring.c` and `blsKeyGen` of `fedkey/keyring.go` with their
HKDF, over one HMAC.
-/

namespace Fedkey

open BaseEncoding Radix

structure Hmac where
  sum : Bytes → Bytes → Bytes
  sum_length : ∀ key data, (sum key data).length = 32

structure KeyRing where
  seed : Bytes
  seed_length : seed.length = 48

def groupOrder : Nat := 0x73eda753299d7d483339d80809a1d80553bda402fffe5bfeffffffff00000001

def bigEndian (width n : Nat) : Bytes := (littleEndian width n).reverse

namespace C

def hkdfExtract (h : Hmac) (salt : Bytes) (saltLen : Nat) (ikm : Bytes) (ikmLen : Nat) : Bytes :=
  h.sum (salt.take saltLen) (ikm.take ikmLen)

def hkdfExpandLoop (h : Hmac) (prk : Bytes) (outLen : Nat) (t : Bytes) (counter : UInt8)
    (written : Nat) : Bytes :=
  if written < outLen then
    let t := h.sum prk (if 0 < written then t ++ [counter] else [counter])
    let copy := min (outLen - written) 32
    t.take copy ++ hkdfExpandLoop h prk outLen t (counter + 1) (written + copy)
  else []
termination_by outLen - written

def hkdfExpand (h : Hmac) (prk : Bytes) (outLen : Nat) : Bytes :=
  hkdfExpandLoop h prk outLen (List.replicate 32 0) 1 0

def salt : Bytes := ascii "BLS-SIG-KEYGEN-SALT-" ++ [0]

def bls12381Keygen (h : Hmac) (kr : KeyRing) : Bytes :=
  let prk := hkdfExtract h salt (salt.length - 1) kr.seed 32
  let okm := hkdfExpand h prk 48
  bigEndian 32 (value okm % groupOrder)

end C

def KeyRing.raw (kr : KeyRing) : Bytes := kr.seed.take 32

namespace Go

def hkdfExtract (h : Hmac) (salt ikm : Bytes) : Bytes := h.sum salt ikm

def hkdfExpandLoop (h : Hmac) (prk : Bytes) (length : Nat) (t out : Bytes) (counter : UInt8) :
    Bytes :=
  if out.length < length then
    let t := h.sum prk (t ++ [counter])
    hkdfExpandLoop h prk length t (out ++ t) (counter + 1)
  else out
termination_by length - out.length
decreasing_by
  rw [List.length_append, h.sum_length]
  omega

def hkdfExpand (h : Hmac) (prk : Bytes) (length : Nat) : Bytes :=
  (hkdfExpandLoop h prk length [] [] 1).take length

def blsKeyGen (h : Hmac) (ikm : Bytes) : Bytes :=
  let prk := hkdfExtract h (ascii "BLS-SIG-KEYGEN-SALT-") ikm
  let okm := hkdfExpand h prk 48
  bigEndian 32 (value okm % groupOrder)

def limb (b : Bytes) (i count : Nat) : UInt64 :=
  (List.range count).foldl (fun limb j =>
    if i * 8 + j < b.length then
      limb ||| ((b.getD (b.length - 1 - (i * 8 + j)) 0).toUInt64 <<< UInt64.ofNat (j * 8))
    else limb) 0

def frFromBytes (b : Bytes) : List UInt64 :=
  (List.range 4).map fun i => if i * 8 < b.length then limb b i 8 else 0

end Go

section
variable {h : Hmac} {prk : Bytes}

theorem hkdfExpandLoop_done {n w : Nat} {t : Bytes} {c : UInt8} (le : n ≤ w) :
    C.hkdfExpandLoop h prk n t c w = [] := by
  rw [C.hkdfExpandLoop, if_neg (Nat.not_lt.mpr le)]

theorem hkdfExpandLoop_eq (n : Nat) (t u out : Bytes) (c : UInt8)
    (before : (if 0 < out.length then t else []) = u) (le : out.length ≤ n) :
    (Go.hkdfExpandLoop h prk n u out c).take n =
      out ++ C.hkdfExpandLoop h prk n t c out.length := by
  fun_induction Go.hkdfExpandLoop h prk n u out c generalizing t with
  | case1 u out c more t' ih =>
    have block : h.sum prk (if 0 < out.length then t ++ [c] else [c]) = t' := by grind
    have size : t'.length = 32 := h.sum_length _ _
    have longer : (out ++ t').length = out.length + 32 := by rw [List.length_append, size]
    rw [C.hkdfExpandLoop, if_pos more]
    simp only [block]
    rcases Nat.lt_or_ge 32 (n - out.length) with whole | last
    · grind
    · -- the last block: both stop, and it is cut here or there
      have all : ¬ (out ++ t').length < n := by omega
      rw [Go.hkdfExpandLoop, if_neg all, Nat.min_eq_left last,
        hkdfExpandLoop_done (by omega), List.append_nil, List.take_append,
        List.take_of_length_le more.le]
  | case2 u out c done => grind [hkdfExpandLoop_done]

theorem hkdfExpand_agree (n : Nat) : C.hkdfExpand h prk n = Go.hkdfExpand h prk n :=
  (hkdfExpandLoop_eq n (List.replicate 32 0) [] [] 1 rfl (Nat.zero_le n)).symm

end

theorem value_reverse (l : Bytes) : value l.reverse = ofLittleEndian l := by
  induction l with
  | nil => rfl
  | cons b rest ih =>
    rw [List.reverse_cons, value_snoc, ih, ofLittleEndian, ofLittleEndian, List.map_cons,
      Nat.ofDigits_cons, Nat.add_comm]

theorem value_bigEndian {width n : Nat} (fits : n < 256 ^ width) :
    value (bigEndian width n) = n := by
  rw [bigEndian, value_reverse, ofLittleEndian_littleEndian fits]

theorem or_byte {x : UInt64} {c : UInt8} {j : Nat} (small : x.toNat < 256 ^ j) (lt : j < 8) :
    (x ||| (c.toUInt64 <<< UInt64.ofNat (j * 8))).toNat = x.toNat + 256 ^ j * c.toNat := by
  have power : 256 ^ j = 2 ^ (j * 8) := by
    rw [Nat.mul_comm, pow_mul]
    rfl
  have shift : (UInt64.ofNat (j * 8)).toNat % 64 = j * 8 := by
    rw [UInt64.toNat_ofNat', Nat.mod_eq_of_lt (show j * 8 < 2 ^ 64 by omega)]
    omega
  have fits : c.toNat <<< (j * 8) < 2 ^ 64 := by
    have byte : c.toNat < 2 ^ 8 := c.toNat_lt
    calc c.toNat <<< (j * 8) < 2 ^ 8 * 2 ^ (j * 8) := by
          rw [Nat.shiftLeft_eq]
          exact Nat.mul_lt_mul_of_pos_right byte (Nat.two_pow_pos _)
      _ ≤ 2 ^ 64 := by
          rw [← pow_add]
          exact Nat.pow_le_pow_right (by decide) (by omega)
  rw [UInt64.toNat_or, UInt64.toNat_shiftLeft, shift, UInt8.toNat_toUInt64, Nat.mod_eq_of_lt fits,
    Nat.or_comm, ← Nat.shiftLeft_add_eq_or_of_lt (power ▸ small), Nat.shiftLeft_eq, ← power]
  ring

theorem limb_toNat (b : Bytes) (i : Nat) {count : Nat} (le : count ≤ 8) :
    (Go.limb b i count).toNat = ofLittleEndian ((b.reverse.drop (i * 8)).take count) := by
  induction count with
  | zero => rfl
  | succ j ih =>
    have before := ih (Nat.le_of_succ_le le)
    rw [Go.limb, List.range_succ, List.foldl_append, List.foldl_cons, List.foldl_nil, ← Go.limb]
    split_ifs with more
    · have there : (b.reverse.drop (i * 8))[j]? = some (b.getD (b.length - 1 - (i * 8 + j)) 0) := by
        rw [List.getElem?_drop, List.getElem?_reverse more,
          List.getElem?_eq_getElem (by omega), List.getD_eq_getElem _ _ (by omega)]
      have len : ((b.reverse.drop (i * 8)).take j).length = j := by grind
      have small := ofLittleEndian_lt ((b.reverse.drop (i * 8)).take j)
      rw [len, ← before] at small
      rw [or_byte small le, before, List.take_add_one, there, Option.toList_some,
        ofLittleEndian_append, len]
      simp [ofLittleEndian]
    · rw [before, List.take_of_length_le, List.take_of_length_le] <;>
        rw [List.length_drop, List.length_reverse] <;> omega

theorem ofDigits_limbs (l : Bytes) (count : Nat) :
    Nat.ofDigits (2 ^ 64)
        ((List.range count).map fun i => ofLittleEndian ((l.drop (i * 8)).take 8)) =
      ofLittleEndian (l.take (count * 8)) := by
  induction count with
  | zero => rfl
  | succ count ih =>
    rw [List.range_succ, List.map_append, Nat.ofDigits_append, ih, List.length_map,
      List.length_range, List.map_singleton, Nat.ofDigits_singleton, Nat.succ_mul, List.take_add,
      ofLittleEndian_append]
    rcases Nat.le_total (count * 8) l.length with le | ge
    · have power : (2 ^ 64) ^ count = 256 ^ (count * 8) := by
        rw [Nat.mul_comm count, pow_mul]
        rfl
      rw [List.length_take, Nat.min_eq_left le, power]
    · rw [List.drop_of_length_le ge]
      rfl

theorem frFromBytes_value {b : Bytes} (len : b.length ≤ 32) :
    Nat.ofDigits (2 ^ 64) ((Go.frFromBytes b).map UInt64.toNat) = value b := by
  have limbs : (Go.frFromBytes b).map UInt64.toNat =
      (List.range 4).map fun i => ofLittleEndian ((b.reverse.drop (i * 8)).take 8) := by
    rw [Go.frFromBytes, List.map_map]
    refine List.map_congr_left fun i _ => ?_
    rw [Function.comp_apply]
    split_ifs with more
    · exact limb_toNat b i (Nat.le_refl 8)
    · rw [List.drop_of_length_le (by rw [List.length_reverse]; omega)]
      rfl
  rw [limbs, ofDigits_limbs, List.take_of_length_le (by simpa using len), ← value_reverse,
    List.reverse_reverse]

theorem groupOrder_lt : groupOrder < 256 ^ 32 := by decide +kernel

/-- The keys of both languages are the same, below the group order, and the limbs of the
scalar have the value of the key. -/
theorem bls_keys_agree (h : Hmac) (kr : KeyRing) :
    C.bls12381Keygen h kr = Go.blsKeyGen h kr.raw ∧
    (Go.blsKeyGen h kr.raw).length = 32 ∧
    value (Go.blsKeyGen h kr.raw) < groupOrder ∧
    (Go.frFromBytes (Go.blsKeyGen h kr.raw)).length = 4 ∧
    Nat.ofDigits (2 ^ 64) ((Go.frFromBytes (Go.blsKeyGen h kr.raw)).map UInt64.toNat) =
      value (Go.blsKeyGen h kr.raw) ∧
    ∀ (prk : Bytes) (length : Nat), length ≤ 8160 →
      C.hkdfExpand h prk length = Go.hkdfExpand h prk length := by
  have salt : C.salt.take (C.salt.length - 1) = ascii "BLS-SIG-KEYGEN-SALT-" := by decide
  have size : (Go.blsKeyGen h kr.raw).length = 32 := by
    rw [Go.blsKeyGen, bigEndian, List.length_reverse, littleEndian_length]
  refine ⟨?_, size, ?_, by simp [Go.frFromBytes], frFromBytes_value size.le, ?_⟩
  · rw [C.bls12381Keygen, C.hkdfExtract, salt, hkdfExpand_agree]
    rfl
  · have small := Nat.mod_lt (value (Go.hkdfExpand h
      (Go.hkdfExtract h (ascii "BLS-SIG-KEYGEN-SALT-") kr.raw) 48)) (by decide : 0 < groupOrder)
    rw [Go.blsKeyGen, value_bigEndian (small.trans groupOrder_lt)]
    exact small
  · exact fun prk length _ => hkdfExpand_agree length

end Fedkey
