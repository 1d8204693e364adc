import Toxera.GoTox.Packet
import Toxera.Lib.Radix

/-!
# The increments of nonces

`incrNonce` of `go-tox-tcpclient/crypto.go` and the increments of `CBNonce` in
`mintox/crypto_core1.go` and `crypto_core2.go`.
-/

namespace NonceIncrements

open CryptoCore Radix

def sodiumIncrement (b : Bytes) : Bytes := littleEndian b.length (ofLittleEndian b + 1)

theorem iterate_sodiumIncrement_length (n : Nat) (b : Bytes) :
    (sodiumIncrement^[n] b).length = b.length := by
  induction n with
  | zero => rfl
  | succ n ih => rw [Function.iterate_succ_apply', sodiumIncrement, littleEndian_length, ih]

def incrn1 (nonce : CBNonce) (n : Nat) : CBNonce :=
  ⟨(sodiumIncrement^[n] nonce.val.reverse).reverse, by
    rw [List.length_reverse, iterate_sodiumIncrement_length, List.length_reverse, nonce.property]⟩

def incr1 (nonce : CBNonce) : CBNonce := incrn1 nonce 1

def incrn2 (nonce : CBNonce) (n : Nat) : CBNonce := incr^[n] nonce

theorem ofLittleEndian_littleEndian_mod (width n : Nat) :
    ofLittleEndian (littleEndian width n) = n % 256 ^ width := by
  induction width generalizing n with
  | zero => exact (Nat.mod_one n).symm
  | succ width ih =>
    have low : (UInt8.ofNat n).toNat = n % 256 := UInt8.toNat_ofNat'
    have rest := ih (n / 256)
    rw [ofLittleEndian] at rest
    rw [littleEndian, ofLittleEndian, List.map_cons, Nat.ofDigits_cons, rest, low,
      pow_succ' 256 width, Nat.mod_mul]

theorem ofLittleEndian_iterate (n : Nat) (b : Bytes) :
    ofLittleEndian (sodiumIncrement^[n] b) = (ofLittleEndian b + n) % 256 ^ b.length := by
  induction n with
  | zero => exact (Nat.mod_eq_of_lt (ofLittleEndian_lt b)).symm
  | succ n ih =>
    rw [Function.iterate_succ_apply', sodiumIncrement, ofLittleEndian_littleEndian_mod, ih,
      iterate_sodiumIncrement_length, Nat.mod_add_mod, Nat.add_assoc]

theorem beVal_incrn1 (nonce : CBNonce) (n : Nat) :
    beVal (incrn1 nonce n).val = (beVal nonce.val + n) % 256 ^ nonceSize := by
  have value := ofLittleEndian_iterate n nonce.val.reverse
  rw [List.length_reverse, nonce.property] at value
  rw [beVal, incrn1, List.reverse_reverse]
  exact value

theorem beVal_inj {m n : CBNonce} (same : beVal m.val = beVal n.val) : m = n := by
  have reversed : m.val.reverse = n.val.reverse := ofLittleEndian_inj
    (by rw [List.length_reverse, List.length_reverse, m.property, n.property]) same
  exact Subtype.ext (List.reverse_injective reversed)

theorem incrn1_eq (nonce : CBNonce) (n : Nat) : incrn1 nonce n = incr^[n] nonce :=
  beVal_inj ((beVal_incrn1 nonce n).trans (beVal_iterate_incr nonce n).symm)

/-- One increment gives the same bytes in all three implementations, and any number of them
adds to the value. -/
theorem nonce_increments_agree (nonce : CBNonce) (n : Nat) :
    GoTox.incrNonce nonce = incr nonce ∧ incr1 nonce = incr nonce ∧
    beVal (incr nonce).val = (beVal nonce.val + 1) % 2 ^ 192 ∧
    beVal (incrn1 nonce n).val = (beVal nonce.val + n) % 2 ^ 192 ∧
    beVal (incrn2 nonce n).val = (beVal nonce.val + n) % 2 ^ 192 := by
  have modulus : 256 ^ nonceSize = 2 ^ 192 := by decide
  rw [← modulus]
  exact ⟨GoTox.incrNonce_eq_incr nonce, incrn1_eq nonce 1, beVal_incr nonce,
    beVal_incrn1 nonce n, beVal_iterate_incr nonce n⟩

end NonceIncrements
