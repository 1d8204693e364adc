import Toxera.Fedkey.Identifiers
import Toxera.Relayhub.CircuitRoundTrip
import Toxera.Relayhub.Identify

/-!
# The varints of `fedkey` and `relayhub`

`protoVarint` of `fedkey/keyring.go`, `proto_varint` of `fedkey/keyring.c` and
`encodeVarint` of `relayhub`, which is the `PutUvarint` of the standard library.
-/

namespace Varints

open Fedkey hiding Bytes
open Relayhub

def protoVarintC (v : UInt64) : Bytes :=
  if 0x7F < v then (v ||| 0x80).toUInt8 :: protoVarintC (v >>> 7) else [v.toUInt8]
termination_by v.toNat
decreasing_by
  rename_i more
  have := UInt64.lt_iff_toNat_lt.mp more
  rw [UInt64.toNat_shiftRight]
  change v.toNat >>> 7 < v.toNat
  rw [Nat.shiftRight_eq_div_pow]
  exact Nat.div_lt_self (lt_of_le_of_lt (Nat.zero_le _) this) (by decide)

theorem low_byte (v : Nat) : UInt8.ofNat v ||| 0x80 = UInt8.ofNat (v % 128 + 128) := by
  have bits : ∀ b : UInt8, b ||| 0x80 = UInt8.ofNat (b.toNat % 128 + 128) := by
    intro b
    obtain ⟨n⟩ := b
    revert n
    decide +kernel
  rw [bits, UInt8.toNat_ofNat', Nat.mod_mod_of_dvd _ (by decide : 128 ∣ 2 ^ 8)]

theorem putUvarint_eq_protoVarint {n v : Nat} (fits : v < 128 ^ (n + 1)) :
    putUvarint (n + 1) v = protoVarint v := by
  induction n generalizing v with
  | zero =>
    have small : v < 128 := fits
    rw [putUvarint, if_pos small, protoVarint_small (Nat.le_of_lt_succ small)]
  | succ n ih =>
    rw [putUvarint, protoVarint]
    by_cases small : v < 128
    · rw [if_pos small, if_neg (by omega)]
    · have rest : v / 128 < 128 ^ (n + 1) := by
        rw [Nat.div_lt_iff_lt_mul (by decide)]
        exact fits
      rw [if_neg small, if_pos (by omega), low_byte, ih rest]

theorem encodeVarint_eq_protoVarint (v : UInt64) :
    encodeVarint v.toNat = protoVarint v.toNat :=
  putUvarint_eq_protoVarint (lt_trans v.toNat_lt (by decide : 2 ^ 64 < 128 ^ (9 + 1)))

theorem protoVarintC_eq (v : UInt64) : protoVarintC v = protoVarint v.toNat := by
  fun_induction protoVarintC v with
  | case1 v more ih =>
    have large : 127 < v.toNat := UInt64.lt_iff_toNat_lt.mp more
    have half : (v >>> 7).toNat = v.toNat / 128 := by
      rw [UInt64.toNat_shiftRight]
      exact Nat.shiftRight_eq_div_pow _ 7
    have byte : (v ||| 0x80).toUInt8 = UInt8.ofNat v.toNat ||| 0x80 := by
      rw [UInt64.toUInt8_or]
      rfl
    rw [protoVarint, if_pos large, ih, half, byte]
  | case2 v more =>
    have small : v.toNat ≤ 127 := Nat.not_lt.mp fun large => more (UInt64.lt_iff_toNat_lt.mpr large)
    rw [protoVarint_small small]
    rfl

theorem protoVarint_spells (v : UInt64) : Varint.Spells (protoVarint v.toNat) v.toNat :=
  encodeVarint_eq_protoVarint v ▸ encodeVarint_spells v.toNat_lt

/-- All encoders write the same bytes, and the decoder reads them back whatever follows. -/
theorem varints_agree (v : UInt64) (rest : Bytes) :
    protoVarint v.toNat = encodeVarint v.toNat ∧ protoVarintC v = encodeVarint v.toNat ∧
    (encodeVarint v.toNat).length ≤ 10 ∧
    decodeVarint (encodeVarint v.toNat ++ rest) = (v, ((encodeVarint v.toNat).length : Int)) ∧
    -- the message of a public key: two fields, and then the end
    ∀ key : Bytes, (Go.protoVarintField 1 v.toNat ++ Go.protoLenDelim 2 key).length < 2 ^ 63 →
      ∃ d₁ d₂ d₃ d₄,
        (newPbDecoder (Go.protoVarintField 1 v.toNat ++ Go.protoLenDelim 2 key)).decodeTag =
          some (.ok (1, 0), d₁) ∧
        d₁.readVarint = some (.ok v, d₂) ∧ d₂.decodeTag = some (.ok (2, 2), d₃) ∧
        d₃.readBytes = some (.ok key, d₄) ∧ d₄.decodeTag = some (.error "EOF", d₄) := by
  have spells := encodeVarint_spells v.toNat_lt
  refine ⟨(encodeVarint_eq_protoVarint v).symm,
    (protoVarintC_eq v).trans (encodeVarint_eq_protoVarint v).symm, spells.short, ?_, ?_⟩
  · rw [decodeVarint_append spells, UInt64.ofNat_toNat]
  · intro key int
    have size : (UInt64.ofNat key.length).toNat = key.length := by
      refine UInt64.toNat_ofNat_of_lt' ?_
      rw [List.length_append, Go.protoLenDelim, List.length_append] at int
      change key.length < 2 ^ 64
      omega
    have key_spells := protoVarint_spells (UInt64.ofNat key.length)
    rw [size] at key_spells
    have parts : Go.protoVarintField 1 v.toNat ++ Go.protoLenDelim 2 key =
        protoVarint (1 * 8 + 0) ++ (protoVarint v.toNat ++ (protoVarint (2 * 8 + 2) ++
          (protoVarint key.length ++ (key ++ [])))) := by
      simp only [Go.protoVarintField, Go.protoLenDelim, List.append_assoc, List.append_nil]
    rw [parts] at int ⊢
    refine ⟨_, _, _, _, PbDecoder.decodeTag_after (n := 1) (protoVarint_spells 8) (by decide) [] _,
      PbDecoder.readVarint_after (protoVarint_spells v) _ _,
      PbDecoder.decodeTag_after (n := 2) (protoVarint_spells 18) (by decide) _ _,
      PbDecoder.readBytes_after key_spells ?_, ?_⟩
    · simpa only [List.append_assoc, List.nil_append] using int
    · rw [PbDecoder.decodeTag, if_pos]
      simp [PbDecoder.after]

end Varints
