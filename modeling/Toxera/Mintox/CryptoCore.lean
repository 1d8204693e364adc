import Mathlib.Data.List.Nodup
import Mathlib.Data.Nat.Digits.Defs

/-!
# Keys, nonces and the box

The byte-level data of `mintox/crypto_core0.go` and `crypto_core2.go`.
-/

namespace CryptoCore

abbrev Bytes := List UInt8

def publicKeySize : Nat := 32
def nonceSize : Nat := 24
def macSize : Nat := 16

abbrev CryptoKey := {b : Bytes // b.length = publicKeySize}
abbrev CBNonce := {b : Bytes // b.length = nonceSize}

def newCryptoKey (b : Bytes) : Option CryptoKey :=
  if h : b.length = publicKeySize then some ⟨b, h⟩ else none

def newCBNonce (b : Bytes) : Option CBNonce :=
  if h : b.length = nonceSize then some ⟨b, h⟩ else none

@[simp] theorem newCryptoKey_val (k : CryptoKey) : newCryptoKey k.val = some k := by
  simp [newCryptoKey, k.property]

@[simp] theorem newCBNonce_val (n : CBNonce) : newCBNonce n.val = some n := by
  simp [newCBNonce, n.property]

theorem newCryptoKey_eq_some {b : Bytes} {k : CryptoKey} (h : newCryptoKey b = some k) :
    k.val = b := by
  unfold newCryptoKey at h
  split_ifs at h
  exact congrArg Subtype.val (Option.some.inj h).symm

def incrLoop : UInt16 → Bytes → Bytes
  | _, [] => []
  | c, b :: rest =>
    let sum := c + b.toUInt16
    sum.toUInt8 :: incrLoop (sum >>> 8) rest

theorem incrLoop_length (c : UInt16) (b : Bytes) : (incrLoop c b).length = b.length := by
  induction b generalizing c with
  | nil => rfl
  | cons x rest ih => simp [incrLoop, ih]

def incr2le (n : Bytes) : Bytes := (incrLoop 1 n.reverse).reverse

/-- The increment in use: `Incr` is `Incr2` and so `Incr2le` in the configuration built. -/
def incr (n : CBNonce) : CBNonce :=
  ⟨incr2le n.val, by simp [incr2le, incrLoop_length, n.property]⟩

def beVal (b : Bytes) : Nat := Nat.ofDigits 256 (b.reverse.map UInt8.toNat)

theorem beVal_lt (b : Bytes) : beVal b < 256 ^ b.length := by
  have h := Nat.ofDigits_lt_base_pow_length (b := 256) (l := b.reverse.map UInt8.toNat)
    (by decide) (by
      intro d hd
      obtain ⟨x, -, rfl⟩ := List.mem_map.mp hd
      exact x.toNat_lt)
  simpa [beVal] using h

theorem beVal_cons (x : UInt8) (b : Bytes) :
    beVal (x :: b) = x.toNat * 256 ^ b.length + beVal b := by
  rw [beVal, List.reverse_cons, List.map_append, Nat.ofDigits_append, List.length_map,
    List.length_reverse, List.map_singleton, Nat.ofDigits_singleton, Nat.add_comm, Nat.mul_comm,
    beVal]

theorem beVal_digits (n k : Nat) :
    beVal ((List.range k).map fun i => UInt8.ofNat (n / 256 ^ (k - 1 - i) % 256)) =
      n % 256 ^ k := by
  induction k with
  | zero => simp [beVal, Nat.mod_one]
  | succ k ih =>
    have low : (List.range k).map (fun i => UInt8.ofNat (n / 256 ^ (k - (i + 1)) % 256)) =
        (List.range k).map fun i => UInt8.ofNat (n / 256 ^ (k - 1 - i) % 256) := by
      refine List.map_congr_left fun i _ => ?_
      rw [Nat.sub_sub, Nat.add_comm i 1]
    have high : (UInt8.ofNat (n / 256 ^ k % 256)).toNat = n / 256 ^ k % 256 :=
      UInt8.toNat_ofNat_of_lt' (Nat.mod_lt _ (by decide))
    rw [List.range_succ_eq_map, List.map_cons, List.map_map, beVal_cons, List.length_map,
      List.length_range]
    simp only [Function.comp_def, Nat.add_sub_cancel, Nat.sub_zero, Nat.succ_eq_add_one]
    rw [low, ih, high, Nat.mod_pow_succ, Nat.mul_comm, Nat.add_comm]

theorem incrLoop_value (b : Bytes) (c : UInt16) (hc : c.toNat ≤ 1) :
    Nat.ofDigits 256 ((incrLoop c b).map UInt8.toNat) =
      (Nat.ofDigits 256 (b.map UInt8.toNat) + c.toNat) % 256 ^ b.length := by
  induction b generalizing c with
  | nil => simp [incrLoop, Nat.mod_one]
  | cons x rest ih =>
    have hx := x.toNat_lt
    have hsum : (c + x.toUInt16).toNat = c.toNat + x.toNat := by
      rw [UInt16.toNat_add, UInt8.toNat_toUInt16]
      omega
    have hcarry : ((c + x.toUInt16) >>> 8).toNat = (c.toNat + x.toNat) / 256 := by
      rw [UInt16.toNat_shiftRight, hsum]
      simp [Nat.shiftRight_eq_div_pow]
    have hbyte : (c + x.toUInt16).toUInt8.toNat = (c.toNat + x.toNat) % 256 := by
      rw [UInt16.toNat_toUInt8, hsum]
    have tail := ih ((c + x.toUInt16) >>> 8) (by rw [hcarry]; omega)
    simp only [incrLoop, List.map_cons, Nat.ofDigits_cons, List.length_cons, hbyte, tail, hcarry]
    -- the low byte keeps its residue, the carry moves into the rest
    generalize Nat.ofDigits 256 (rest.map UInt8.toNat) = r
    rw [Nat.pow_succ', Nat.mod_mul]
    have hq : (x.toNat + 256 * r + c.toNat) / 256 = r + (c.toNat + x.toNat) / 256 := by omega
    have hm : (x.toNat + 256 * r + c.toNat) % 256 = (c.toNat + x.toNat) % 256 := by omega
    simp [hq, hm]

theorem beVal_incr (n : CBNonce) : beVal (incr n).val = (beVal n.val + 1) % 256 ^ nonceSize := by
  have h := incrLoop_value n.val.reverse 1 (by decide)
  simpa [beVal, incr, incr2le, n.property] using h

theorem beVal_iterate_incr (n : CBNonce) (k : Nat) :
    beVal (incr^[k] n).val = (beVal n.val + k) % 256 ^ nonceSize := by
  induction k with
  | zero =>
    have hlt := beVal_lt n.val
    rw [n.property] at hlt
    simp [Nat.mod_eq_of_lt hlt]
  | succ k ih =>
    rw [Function.iterate_succ_apply', beVal_incr, ih]
    simp [Nat.add_assoc]

theorem iterate_incr_inj (n : CBNonce) {i j : Nat} (hi : i < 2 ^ 192) (hj : j < 2 ^ 192)
    (same : incr^[i] n = incr^[j] n) : i = j := by
  have vals := congrArg (fun m : CBNonce => beVal m.val) same
  simp only [beVal_iterate_incr] at vals
  have modulus : 256 ^ nonceSize = 2 ^ 192 := by decide
  rw [modulus] at vals
  omega

theorem incr_ne (n : CBNonce) : incr n ≠ n := by
  intro same
  have := iterate_incr_inj n (i := 1) (j := 0) (by decide) (by decide) same
  omega

theorem nonces_nodup (n : CBNonce) {k : Nat} (small : k ≤ 2 ^ 192) :
    ((List.range k).map fun i => incr^[i] n).Nodup := by
  refine List.Nodup.map_on ?_ List.nodup_range
  intro i hi j hj same
  rw [List.mem_range] at hi hj
  exact iterate_incr_inj n (by omega) (by omega) same

/-- The NaCl box of the imported package: key derivation, `box.Precompute`,
`SealAfterPrecomputation` and `OpenAfterPrecomputation`. -/
structure Box where
  pubkey : CryptoKey → CryptoKey
  precompute : CryptoKey → CryptoKey → CryptoKey
  sealBox : CryptoKey → CBNonce → Bytes → Bytes
  openBox : CryptoKey → CBNonce → Bytes → Option Bytes

structure Box.Lawful (B : Box) : Prop where
  shared : ∀ a b, B.precompute (B.pubkey a) b = B.precompute (B.pubkey b) a
  open_seal : ∀ k n m, B.openBox k n (B.sealBox k n m) = some m
  seal_length : ∀ k n m, (B.sealBox k n m).length = m.length + macSize

structure Box.Sealing (B : Box) : Prop where
  open_seal : ∀ k n m, B.openBox k n (B.sealBox k n m) = some m
  seal_length : ∀ k n m, (B.sealBox k n m).length = m.length + macSize

theorem Box.Lawful.sealing {B : Box} (law : B.Lawful) : B.Sealing :=
  ⟨law.open_seal, law.seal_length⟩

variable (B : Box)

def encryptDataSymmetric (k : CryptoKey) (n : CBNonce) (plain : Bytes) : Option Bytes :=
  let encrypted := B.sealBox k n plain
  if encrypted.length = plain.length + macSize then some encrypted else none

def decryptDataSymmetric (k : CryptoKey) (n : CBNonce) (encrypted : Bytes) :
    Option (Bytes × Bool) :=
  let (plain, ok) := match B.openBox k n encrypted with
    | some m => (m, true)
    | none => ([], false)
  if plain.length + macSize = encrypted.length then some (plain, ok) else none

variable {B}

theorem encrypt_lawful (law : B.Lawful) (k : CryptoKey) (n : CBNonce) (m : Bytes) :
    encryptDataSymmetric B k n m = some (B.sealBox k n m) := by
  simp [encryptDataSymmetric, law.seal_length]

theorem decrypt_lawful (law : B.Lawful) (k : CryptoKey) (n : CBNonce) (m : Bytes) :
    decryptDataSymmetric B k n (B.sealBox k n m) = some (m, true) := by
  simp [decryptDataSymmetric, law.open_seal, law.seal_length]

def keyOf (b : UInt8) : CryptoKey := ⟨List.replicate publicKeySize b, List.length_replicate⟩

def nonceOf (b : UInt8) : CBNonce := ⟨List.replicate nonceSize b, List.length_replicate⟩

def plainTag (k : CryptoKey) (n : CBNonce) : Bytes :=
  List.zipWith (· + ·) (k.val.take macSize) (n.val.drop 8)

theorem plainTag_length (k : CryptoKey) (n : CBNonce) : (plainTag k n).length = macSize := by
  simp [plainTag, k.property, n.property, publicKeySize, nonceSize, macSize]

/-- A box without secrets that satisfies the laws: the tag stands before the text. -/
def plainBox : Box where
  pubkey := id
  precompute := fun a b => ⟨List.zipWith (· + ·) a.val b.val, by
    simp [a.property, b.property]⟩
  sealBox := fun k n m => plainTag k n ++ m
  openBox := fun k n c => if c.take macSize = plainTag k n then some (c.drop macSize) else none

theorem plainBox_lawful : plainBox.Lawful where
  shared := by
    intro a b
    apply Subtype.ext
    exact List.zipWith_comm_of_comm (fun x y => UInt8.add_comm x y)
  open_seal := by
    intro k n m
    have := plainTag_length k n
    simp [plainBox, List.take_left' this, List.drop_left' this]
  seal_length := by
    intro k n m
    rw [plainBox, List.length_append, plainTag_length, Nat.add_comm]

end CryptoCore
