import Toxera.Fedkey.CtrStream
import Toxera.Lib.ModularPowers

/-!
# The RSA key of a seed

`deterministicRSA4096` of `fedkey/keyring.go` with `bigPrime` and `trialDiv`, over any
source of random bytes; `ctrSource` is the one that the code uses.
-/

namespace Fedkey

open BaseEncoding ModularPowers

variable {b x y : Bytes} {d e g j n : Nat} {ks : Nat → UInt8} {primes : Nat × Nat} {r : CtrStream}
  {α : Type}

abbrev Run := ExceptT String Option

structure ByteSource (σ : Type) where
  readFull : σ → Nat → Except String (Bytes × σ)
  readFull_length : ∀ {s n b s'}, readFull s n = .ok (b, s') → b.length = n

theorem ctrStream_length {r' : CtrStream}
    (h : (.ok (r.read ks n) : Except String (Bytes × CtrStream)) = .ok (b, r')) : b.length = n := by
  injection h with h
  rw [← CtrStream.read_length r n, h]

def ctrSource (ks : Nat → UInt8) : ByteSource CtrStream :=
  ⟨fun r n => .ok (r.read ks n), ctrStream_length⟩

def smallPrimes : List Nat :=
  [3, 5, 7, 11, 13, 17, 19, 23, 29, 31, 37, 41, 43, 47, 53, 59, 61, 67, 71, 73, 79, 83, 89, 97,
   101, 103, 107, 109, 113, 127, 131, 137, 139, 149, 151, 157, 163, 167, 173, 179, 181, 191, 193,
   197, 199, 211, 223, 227, 229, 233, 239, 241, 251, 257, 263, 269, 271, 277, 281, 283, 293, 307,
   311, 313, 317, 331, 337, 347, 349, 353, 359, 367, 373, 379, 383, 389, 397, 401, 409, 419, 421,
   431, 433, 439, 443, 449, 457, 461, 463, 467, 479, 487, 491, 499, 503, 509, 521, 523, 541, 547,
   557, 563, 569, 571, 577, 587, 593, 599, 601, 607, 613, 617, 619, 631, 641, 643, 647, 653, 659,
   661, 673, 677, 683, 691, 701, 709, 719, 727, 733, 739, 743, 751, 757, 761, 769, 773, 787, 797,
   809, 811, 821, 823, 827, 829, 839, 853, 857, 859, 863, 877, 881, 883, 887, 907, 911, 919, 929,
   937, 941, 947, 953, 967, 971, 977, 983, 991, 997, 1009, 1013, 1019, 1021, 1031, 1033, 1039,
   1049, 1051, 1061, 1063, 1069, 1087, 1091, 1093, 1097, 1103, 1109, 1117, 1123, 1129, 1151, 1153,
   1163, 1171, 1181, 1187, 1193, 1201, 1213, 1217, 1223, 1229, 1231, 1237, 1249, 1259, 1277, 1279,
   1283, 1289, 1291, 1297, 1301, 1303, 1307, 1319, 1321, 1327, 1361, 1367, 1373, 1381, 1399, 1409,
   1423, 1427, 1429, 1433, 1439, 1447, 1451, 1453, 1459, 1471, 1481, 1483, 1487, 1489, 1493, 1499,
   1511, 1523, 1531, 1543, 1549, 1553, 1559, 1567, 1571, 1579, 1583, 1597, 1601, 1607, 1609, 1613,
   1619, 1621, 1627, 1637, 1657, 1663, 1667, 1669, 1693, 1697, 1699, 1709, 1721, 1723, 1733, 1741,
   1747, 1753, 1759, 1777, 1783, 1787, 1789, 1801, 1811, 1823, 1831, 1847, 1861, 1867, 1871, 1873,
   1877, 1879, 1889, 1901, 1907, 1913, 1931, 1933, 1949, 1951, 1973, 1979, 1987, 1993, 1997, 1999,
   2003, 2011, 2017, 2027, 2029, 2039, 2053, 2063, 2069, 2081, 2083, 2087, 2089, 2099, 2111, 2113,
   2129, 2131, 2137, 2141, 2143, 2153, 2161, 2179, 2203, 2207, 2213, 2221, 2237, 2239, 2243, 2251,
   2267, 2269, 2273, 2281, 2287, 2293, 2297, 2309, 2311, 2333, 2339, 2341, 2347, 2351, 2357, 2371,
   2377, 2381, 2383, 2389, 2393, 2399, 2411, 2417, 2423, 2437, 2441, 2447, 2459, 2467, 2473, 2477,
   2503, 2521, 2531, 2539, 2543, 2549, 2551, 2557, 2579, 2591, 2593, 2609, 2617, 2621, 2633, 2647,
   2657, 2659, 2663, 2671, 2677, 2683, 2687, 2689, 2693, 2699, 2707, 2711, 2713, 2719, 2729, 2731,
   2741, 2749, 2753, 2767, 2777, 2789, 2791, 2797, 2801, 2803, 2819, 2833, 2837, 2843, 2851, 2857,
   2861, 2879, 2887, 2897, 2903, 2909, 2917, 2927, 2939, 2953, 2957, 2963, 2969, 2971, 2999, 3001,
   3011, 3019, 3023, 3037, 3041, 3049, 3061, 3067, 3079, 3083, 3089, 3109, 3119, 3121, 3137, 3163,
   3167, 3169, 3181, 3187, 3191, 3203, 3209, 3217, 3221, 3229, 3251, 3253, 3257, 3259, 3271, 3299,
   3301, 3307, 3313, 3319, 3323, 3329, 3331, 3343, 3347, 3359, 3361, 3371, 3373, 3389, 3391, 3407,
   3413, 3433, 3449, 3457, 3461, 3463, 3467, 3469, 3491, 3499, 3511, 3517, 3527, 3529, 3533, 3539,
   3541, 3547, 3557, 3559, 3571, 3581, 3583, 3593, 3607, 3613, 3617, 3623, 3631, 3637, 3643, 3659,
   3671, 3673, 3677, 3691, 3697, 3701, 3709, 3719, 3727, 3733, 3739, 3761, 3767, 3769, 3779, 3793,
   3797, 3803, 3821, 3823, 3833, 3847, 3851, 3853, 3863, 3877, 3881, 3889, 3907, 3911, 3917, 3919,
   3923, 3929, 3931, 3943, 3947, 3967, 3989, 4001, 4003, 4007, 4013, 4019, 4021, 4027, 4049, 4051,
   4057, 4073, 4079, 4091, 4093, 4099, 4111, 4127, 4129, 4133, 4139, 4153, 4157, 4159, 4177, 4201,
   4211, 4217, 4219, 4229, 4231, 4241, 4243, 4253, 4259, 4261, 4271, 4273, 4283, 4289, 4297, 4327,
   4337, 4339, 4349, 4357, 4363, 4373, 4391, 4397, 4409, 4421, 4423, 4441, 4447, 4451, 4457, 4463,
   4481, 4483, 4493, 4507, 4513, 4517, 4519, 4523, 4547, 4549, 4561, 4567, 4583, 4591, 4597, 4603,
   4621, 4637, 4639, 4643, 4649, 4651, 4657, 4663, 4673, 4679, 4691, 4703, 4721, 4723, 4729, 4733,
   4751, 4759, 4783, 4787, 4789, 4793, 4799, 4801, 4813, 4817, 4831, 4861, 4871, 4877, 4889, 4903,
   4909, 4919, 4931, 4933, 4937, 4943, 4951, 4957, 4967, 4969, 4973, 4987, 4993, 4999]

def trialDiv (p : Nat) : Bool := smallPrimes.all fun prime => p % prime != 0

def candidate (bits : Nat) (b : Bytes) : Nat :=
  let bytes := (bits + 7) / 8
  let excess := bytes * 8 - bits
  let b := b.modifyHead (· &&& UInt8.ofNat (0xFF >>> excess))
  let b := b.modifyHead (· ||| 0x80)
  value (b.modify (bytes - 1) (· ||| 1))

section
variable {σ : Type} (src : ByteSource σ) (probablyPrime : Nat → Bool)

def bigPrime (bits : Nat) : Nat → σ → Run (Nat × σ)
  | 0, _ => ExceptT.mk none
  | fuel + 1, s => do
    let read ← ExceptT.mk (some (src.readFull s ((bits + 7) / 8)))
    let p := candidate bits read.1
    if !trialDiv p then bigPrime bits fuel read.2
    else if probablyPrime p then pure (p, read.2)
    else bigPrime bits fuel read.2

def drawPrimes (fuel : Nat) (rand : σ) : Run (Nat × Nat) := do
  let p ← bigPrime src probablyPrime 2048 fuel rand
  let q ← bigPrime src probablyPrime 2048 fuel p.2
  if p.1 = q.1 then
    let q ← bigPrime src probablyPrime 2048 fuel q.2
    pure (p.1, q.1)
  else pure (p.1, q.1)

end

def modInverse (g n : Nat) : Option Nat :=
  if g.gcd n = 1 then some (g.gcdA n % n).toNat else none

structure PrivateKey where
  n : Nat
  e : Nat
  d : Nat
  p : Nat
  q : Nat
  dp : Nat
  dq : Nat
  qinv : Option Nat

def privateKey (p q : Nat) : Run PrivateKey :=
  let primes := if p < q then (q, p) else (p, q)
  let p := primes.1
  let q := primes.2
  match modInverse 65537 ((p - 1) * (q - 1)) with
  | none => throw "modular inverse failed"
  | some d => pure
      { n := p * q, e := 65537, d := d, p := p, q := q, dp := d % (p - 1), dq := d % (q - 1),
        qinv := modInverse q p }

def deterministicRSA4096 {σ : Type} (src : ByteSource σ) (probablyPrime : Nat → Bool) (fuel : Nat)
    (rand : σ) : Run PrivateKey := do
  let primes ← drawPrimes src probablyPrime fuel rand
  privateKey primes.1 primes.2

theorem run_bind_iff {β : Type} {x : Run α} {f : α → Run β} {b : β} :
    x >>= f = pure b ↔ ∃ a, x = pure a ∧ f a = pure b := by
  constructor
  · intro h
    match x with
    | none => cases h
    | some (.error _) => cases h
    | some (.ok a) => exact ⟨a, rfl, h⟩
  · rintro ⟨a, rfl, h⟩
    exact h

theorem run_pure_inj {a b : α} (h : (pure a : Run α) = pure b) : a = b := by
  injection h with h
  injection h

section
variable {σ : Type} {src : ByteSource σ} {probablyPrime : Nat → Bool} {bits fuel : Nat} {s s' : σ}
  {p : Nat}

theorem bigPrime_spec (h : bigPrime src probablyPrime bits fuel s = pure (p, s')) :
    probablyPrime p = true ∧ ∃ b : Bytes, b.length = (bits + 7) / 8 ∧ p = candidate bits b := by
  induction fuel generalizing s with
  | zero => cases h
  | succ fuel ih =>
    rw [bigPrime, run_bind_iff] at h
    obtain ⟨⟨b, rest⟩, read, h⟩ := h
    dsimp only at h
    split_ifs at h with divided probable
    · exact ih h
    · obtain ⟨rfl, rfl⟩ := Prod.mk.inj (run_pure_inj h)
      have ok : src.readFull s ((bits + 7) / 8) = .ok (b, rest) := by injection read
      exact ⟨probable, b, src.readFull_length ok, rfl⟩
    · exact ih h

/-- A block that passes both tests. -/
structure Accepted (probablyPrime : Nat → Bool) (x : Bytes) : Prop where
  length : x.length = 256
  divided : trialDiv (candidate 2048 x) = true
  probable : probablyPrime (candidate 2048 x) = true

/-- The next block of the source that passes both tests. -/
inductive Draws (src : ByteSource σ) (probablyPrime : Nat → Bool) : σ → Bytes → σ → Prop
  | here {s s' : σ} {b : Bytes} (read : src.readFull s 256 = .ok (b, s'))
      (passes : Accepted probablyPrime b) : Draws src probablyPrime s b s'
  | later {s s' s'' : σ} {b c : Bytes} (read : src.readFull s 256 = .ok (b, s'))
      (fails : ¬ Accepted probablyPrime b) (next : Draws src probablyPrime s' c s'') :
      Draws src probablyPrime s c s''

theorem Draws.accepted (h : Draws src probablyPrime s b s') : Accepted probablyPrime b := by
  induction h with
  | here _ passes => exact passes
  | later _ _ _ ih => exact ih

theorem Draws.eq_first {x : Bytes} {r : σ} (h : Draws src probablyPrime s b s')
    (read : src.readFull s 256 = .ok (x, r)) (passes : Accepted probablyPrime x) :
    b = x ∧ s' = r := by
  cases h with
  | here read' _ => exact Prod.mk.inj (Except.ok.inj (read'.symm.trans read))
  | later read' fails _ =>
    obtain ⟨rfl, -⟩ := Prod.mk.inj (Except.ok.inj (read'.symm.trans read))
    exact absurd passes fails

theorem draws_of_bigPrime (h : bigPrime src probablyPrime 2048 fuel s = pure (p, s')) :
    ∃ b, Draws src probablyPrime s b s' ∧ p = candidate 2048 b := by
  induction fuel generalizing s with
  | zero => cases h
  | succ fuel ih =>
    rw [bigPrime, run_bind_iff] at h
    obtain ⟨⟨b, rest⟩, read, h⟩ := h
    have ok : src.readFull s 256 = .ok (b, rest) := by injection read
    dsimp only at h
    split_ifs at h with divided probable
    · obtain ⟨c, next, eq⟩ := ih h
      exact ⟨c, .later ok (fun passes => by simp [passes.divided] at divided) next, eq⟩
    · obtain ⟨rfl, rfl⟩ := Prod.mk.inj (run_pure_inj h)
      exact ⟨b, .here ok ⟨src.readFull_length ok, by simpa using divided, probable⟩, rfl⟩
    · obtain ⟨c, next, eq⟩ := ih h
      exact ⟨c, .later ok (fun passes => probable passes.probable) next, eq⟩

theorem bigPrime_first (bits : Nat) (read : src.readFull s ((bits + 7) / 8) = .ok (b, s'))
    (divided : trialDiv (candidate bits b) = true)
    (probable : probablyPrime (candidate bits b) = true) :
    bigPrime src probablyPrime bits (fuel + 1) s = pure (candidate bits b, s') := by
  rw [bigPrime, run_bind_iff]
  exact ⟨(b, s'), congrArg some read, by simp [divided, probable]⟩

end

/-- A block with the two bits that `bigPrime` sets. -/
def forced (b : Bytes) : Bytes := (b.modifyHead (· ||| 0x80)).modify 255 (· ||| 1)

/-- Its leading byte. -/
def lead (b : Bytes) : Nat := (b.headD 0 ||| 0x80).toNat

theorem candidate_eq (b : Bytes) : candidate 2048 b = value (forced b) := by
  cases b with
  | nil => rfl
  | cons h rest =>
    have mask : h &&& UInt8.ofNat (0xFF >>> 0) = h := by
      apply UInt8.toNat_inj.mp
      rw [UInt8.toNat_and]
      exact Nat.and_two_pow_sub_one_of_lt_two_pow (n := 8) h.toNat_lt
    simp only [candidate, forced, List.modifyHead_cons]
    rw [show (2048 + 7) / 8 * 8 - 2048 = 0 from rfl, mask]

theorem forced_bounds (len : b.length = 256) :
    lead b * 2 ^ 2040 ≤ value (forced b) ∧ value (forced b) < (lead b + 1) * 2 ^ 2040 := by
  obtain ⟨h, rest, rfl⟩ := List.exists_cons_of_length_eq_add_one len
  have size : rest.length = 255 := by simpa using len
  have split : forced (h :: rest) = (h ||| 0x80) :: rest.modify 254 (· ||| 1) := rfl
  have low := value_lt (rest.modify 254 (· ||| 1))
  have power : 256 ^ 255 = 2 ^ 2040 := by decide +kernel
  rw [split, value_cons, List.length_modify, size, power, Nat.add_mul, Nat.one_mul]
  rw [List.length_modify, size, power] at low
  exact ⟨Nat.le_add_right .., Nat.add_lt_add_left low _⟩

theorem lead_bounds (b : Bytes) : 128 ≤ lead b ∧ lead b < 256 := by
  refine ⟨?_, UInt8.toNat_lt _⟩
  rw [lead, UInt8.toNat_or]
  exact Nat.right_le_or

theorem candidate_bounds (len : b.length = 256) :
    2 ^ 2047 ≤ candidate 2048 b ∧ candidate 2048 b < 2 ^ 2048 := by
  obtain ⟨low, high⟩ := forced_bounds len
  obtain ⟨least, most⟩ := lead_bounds b
  have top := Nat.mul_le_mul_right (2 ^ 2040) least
  have top' := Nat.mul_le_mul_right (2 ^ 2040) most
  have power : 128 * 2 ^ 2040 = 2 ^ 2047 ∧ 256 * 2 ^ 2040 = 2 ^ 2048 := by decide +kernel
  rw [candidate_eq]
  exact ⟨power.1 ▸ top.trans low, power.2 ▸ high.trans_le top'⟩

theorem drawPrimes_spec {σ : Type} {src : ByteSource σ} {probablyPrime : Nat → Bool} {fuel : Nat}
    {rand : σ} (h : drawPrimes src probablyPrime fuel rand = pure primes) :
    ∃ p₂ s₁ s₂, bigPrime src probablyPrime 2048 fuel rand = pure (primes.1, s₁) ∧
      bigPrime src probablyPrime 2048 fuel s₁ = pure (p₂, s₂) ∧
      (primes.1 ≠ p₂ → primes.2 = p₂) ∧
      (primes.1 = p₂ → ∃ s₃, bigPrime src probablyPrime 2048 fuel s₂ = pure (primes.2, s₃)) := by
  rw [drawPrimes, run_bind_iff] at h
  obtain ⟨⟨p₁, s₁⟩, first, h⟩ := h
  rw [run_bind_iff] at h
  obtain ⟨⟨p₂, s₂⟩, second, h⟩ := h
  dsimp only at h
  split_ifs at h with same
  · rw [run_bind_iff] at h
    obtain ⟨⟨p₃, s₃⟩, third, h⟩ := h
    obtain rfl := run_pure_inj h
    exact ⟨p₂, s₁, s₂, first, second, fun ne => absurd same ne, fun _ => ⟨s₃, third⟩⟩
  · obtain rfl := run_pure_inj h
    exact ⟨p₂, s₁, s₂, first, second, fun _ => rfl, fun eq => absurd eq same⟩

theorem modInverse_spec {x : Nat} (pos : 0 < n) (h : modInverse g n = some x) :
    x < n ∧ g * x ≡ 1 [MOD n] := by
  rw [modInverse] at h
  split_ifs at h with coprime
  cases h
  have nonneg := Int.emod_nonneg (g.gcdA n) (show (n : Int) ≠ 0 by omega)
  have small := Int.emod_lt_of_pos (g.gcdA n) (show (0 : Int) < n by omega)
  refine ⟨by omega, ?_⟩
  have bezout := Nat.gcd_eq_gcd_ab g n
  rw [coprime, Nat.cast_one] at bezout
  apply Int.natCast_modEq_iff.mp
  rw [Nat.cast_mul, Int.toNat_of_nonneg nonneg, Nat.cast_one]
  calc (g * (g.gcdA n % n) : Int) ≡ g * g.gcdA n [ZMOD n] := (Int.mod_modEq _ _).mul_left _
    _ ≡ g * g.gcdA n + n * g.gcdB n [ZMOD n] := (Int.modEq_add_fac_self).symm
    _ = 1 := bezout.symm

theorem modInverse_of_coprime (coprime : g.Coprime n) :
    ∃ x, modInverse g n = some x := ⟨_, if_pos coprime⟩

def PrivateKey.recombine (key : PrivateKey) (m : Nat) : Option Nat :=
  key.qinv.map fun qinv =>
    garner key.p key.q qinv (m ^ key.dp % key.p) (m ^ key.dq % key.q)

structure PrivateKey.Correct (key : PrivateKey) : Prop where
  modulus : key.n = key.p * key.q
  order : key.q < key.p
  exponents : key.e * key.d ≡ 1 [MOD (key.p - 1) * (key.q - 1)]
  dp_eq : key.dp = key.d % (key.p - 1)
  dq_eq : key.dq = key.d % (key.q - 1)
  qinv : ∃ qinv, key.qinv = some qinv ∧ qinv * key.q ≡ 1 [MOD key.p]
  decrypts : ∀ m < key.n, (m ^ key.e) ^ key.d % key.n = m
  recombines : ∀ m < key.n, key.recombine m = some (m ^ key.d % key.n)

section
variable {p q : Nat}

theorem exponent_ne_zero (large : 2 < p) (one : e * d ≡ 1 [MOD p - 1]) : d % (p - 1) ≠ 0 := by
  intro zero
  have none : e * d ≡ 0 [MOD p - 1] :=
    (Nat.modEq_zero_iff_dvd).mpr (Dvd.dvd.mul_left (Nat.dvd_of_mod_eq_zero zero) e)
  have same : 1 % (p - 1) = 0 % (p - 1) := one.symm.trans none
  rw [Nat.mod_eq_of_lt (by omega), Nat.zero_mod] at same
  exact absurd same (by decide)

theorem pow_pow_eq (prime : p.Prime) (prime' : q.Prime) (different : p ≠ q) (large : 2 < p)
    (large' : 2 < q) (one : e * d ≡ 1 [MOD (p - 1) * (q - 1)]) {m : Nat} (small : m < p * q) :
    (m ^ e) ^ d % (p * q) = m := by
  have left : m ^ (e * d) ≡ m [MOD p] := pow_modEq_self prime m large one.of_mul_right
  have right : m ^ (e * d) ≡ m [MOD q] := pow_modEq_self prime' m large' one.of_mul_left
  have coprime : p.Coprime q := (Nat.coprime_primes prime prime').mpr different
  have both : m ^ (e * d) ≡ m [MOD p * q] :=
    (Nat.modEq_and_modEq_iff_modEq_mul coprime).mp ⟨left, right⟩
  rw [← pow_mul, both, Nat.mod_eq_of_lt small]

theorem garner_pow {qinv : Nat} (prime : p.Prime) (prime' : q.Prime) (different : p ≠ q)
    (large : 2 < p) (large' : 2 < q) (one : e * d ≡ 1 [MOD (p - 1) * (q - 1)])
    (inverse : qinv * q ≡ 1 [MOD p]) (m : Nat) :
    garner p q qinv (m ^ (d % (p - 1)) % p) (m ^ (d % (q - 1)) % q) = m ^ d % (p * q) := by
  have left : m ^ d % p = m ^ (d % (p - 1)) % p :=
    pow_modEq_pow_mod prime m (exponent_ne_zero large one.of_mul_right)
  have right : m ^ d % q = m ^ (d % (q - 1)) % q :=
    pow_modEq_pow_mod prime' m (exponent_ne_zero large' one.of_mul_left)
  rw [← left, ← right]
  exact garner_eq prime.pos prime'.pos ((Nat.coprime_primes prime prime').mpr different) inverse _

end

structure PrivateKey.Of (key : PrivateKey) (p q : Nat) : Prop where
  p_eq : key.p = max p q
  q_eq : key.q = min p q
  n_eq : key.n = key.p * key.q
  e_eq : key.e = 65537
  d_eq : modInverse 65537 ((key.p - 1) * (key.q - 1)) = some key.d
  dp_eq : key.dp = key.d % (key.p - 1)
  dq_eq : key.dq = key.d % (key.q - 1)
  qinv_eq : key.qinv = modInverse key.q key.p

theorem ordered_eq (p q : Nat) : (if p < q then (q, p) else (p, q)) = (max p q, min p q) := by
  split_ifs with lt
  · rw [Nat.max_eq_right lt.le, Nat.min_eq_left lt.le]
  · grind

theorem privateKey_spec {p q : Nat} {key : PrivateKey} (h : privateKey p q = pure key) :
    key.Of p q := by
  simp only [privateKey, ordered_eq] at h
  split at h
  · cases h
  · rename_i d inverse
    obtain rfl := run_pure_inj h
    exact ⟨rfl, rfl, rfl, rfl, inverse, rfl, rfl, rfl⟩

theorem privateKey_returns {p q : Nat}
    (coprime : Nat.Coprime 65537 ((max p q - 1) * (min p q - 1))) :
    ∃ key, privateKey p q = pure key := by
  obtain ⟨d, inverse⟩ := modInverse_of_coprime coprime
  simp only [privateKey, ordered_eq, inverse]
  exact ⟨_, rfl⟩

theorem PrivateKey.Of.correct {key : PrivateKey} {p q : Nat} (h : key.Of p q)
    (prime : key.p.Prime) (prime' : key.q.Prime) (different : key.p ≠ key.q) (large : 2 < key.p)
    (large' : 2 < key.q) : key.Correct := by
  have order : key.q < key.p := by
    rw [h.p_eq, h.q_eq] at different ⊢
    omega
  have positive : 0 < (key.p - 1) * (key.q - 1) := Nat.mul_pos (by omega) (by omega)
  have one : key.e * key.d ≡ 1 [MOD (key.p - 1) * (key.q - 1)] := by
    rw [h.e_eq]
    exact (modInverse_spec positive h.d_eq).2
  have coprime : key.q.Coprime key.p := (Nat.coprime_primes prime' prime).mpr different.symm
  obtain ⟨qinv, found⟩ := modInverse_of_coprime coprime
  have inverse : qinv * key.q ≡ 1 [MOD key.p] := by
    rw [mul_comm]
    exact (modInverse_spec prime.pos found).2
  refine ⟨h.n_eq, order, one, h.dp_eq, h.dq_eq, ⟨qinv, h.qinv_eq.trans found, inverse⟩, ?_, ?_⟩
  · intro m small
    rw [h.n_eq] at small ⊢
    exact pow_pow_eq prime prime' different large large' one small
  · intro m _
    rw [PrivateKey.recombine, h.qinv_eq, found, h.dp_eq, h.dq_eq, h.n_eq, Option.map_some,
      garner_pow prime prime' different large large' one inverse]

section
variable {σ : Type} {src : ByteSource σ} {probablyPrime : Nat → Bool} {fuel : Nat} {rand : σ}
  {key : PrivateKey}

theorem deterministicRSA4096_spec
    (h : deterministicRSA4096 src probablyPrime fuel rand = pure key) :
    ∃ primes, drawPrimes src probablyPrime fuel rand = pure primes ∧
      key.Of primes.1 primes.2 := by
  rw [deterministicRSA4096, run_bind_iff] at h
  obtain ⟨primes, drawn, built⟩ := h
  exact ⟨primes, drawn, privateKey_spec built⟩

theorem bigPrime_bounds {s s' : σ} {p : Nat}
    (h : bigPrime src probablyPrime 2048 fuel s = pure (p, s')) : 2 ^ 2047 ≤ p ∧ p < 2 ^ 2048 := by
  obtain ⟨-, b, len, rfl⟩ := bigPrime_spec h
  exact candidate_bounds len

theorem drawn_by_bigPrime (h : drawPrimes src probablyPrime fuel rand = pure primes) :
    ∀ p, p = primes.1 ∨ p = primes.2 →
      ∃ s s', bigPrime src probablyPrime 2048 fuel s = pure (p, s') := by
  obtain ⟨p₂, s₁, s₂, first, second, other, again⟩ := drawPrimes_spec h
  rintro p (rfl | rfl)
  · exact ⟨rand, s₁, first⟩
  · by_cases same : primes.1 = p₂
    · grind
    · exact ⟨s₁, s₂, other same ▸ second⟩

end

theorem max_or_min (p q : Nat) : (max p q = p ∨ max p q = q) ∧ (min p q = p ∨ min p q = q) := by
  omega

/-- A key whose primes differ is a correct RSA key, if the primality test is exact. -/
theorem rsa_key_correct {σ : Type} (src : ByteSource σ) (probablyPrime : Nat → Bool)
    (exact : ∀ n, probablyPrime n = true ↔ n.Prime) (fuel : Nat) (rand : σ) (key : PrivateKey)
    (returned : deterministicRSA4096 src probablyPrime fuel rand = pure key)
    (different : key.p ≠ key.q) : key.Correct := by
  obtain ⟨primes, drawn, built⟩ := deterministicRSA4096_spec returned
  have good : ∀ p, p = primes.1 ∨ p = primes.2 → p.Prime ∧ 2 < p := by
    intro p mem
    obtain ⟨s, s', found⟩ := drawn_by_bigPrime drawn p mem
    refine ⟨(exact p).mp (bigPrime_spec found).1, ?_⟩
    exact Nat.lt_of_lt_of_le (by decide +kernel) (bigPrime_bounds found).1
  have which := max_or_min primes.1 primes.2
  have larger := good key.p (built.p_eq ▸ which.1)
  have smaller := good key.q (built.q_eq ▸ which.2)
  exact built.correct larger.1 smaller.1 different larger.2 smaller.2

theorem size_eq_iff {k : Nat} (next : j + 1 = k) : n.size = k ↔ 2 ^ j ≤ n ∧ n < 2 ^ k := by
  rw [← Nat.lt_size, ← Nat.size_le]
  omega

theorem product_bounds {p q : Nat} (hp : 2 ^ 2047 ≤ p ∧ p < 2 ^ 2048)
    (hq : 2 ^ 2047 ≤ q ∧ q < 2 ^ 2048) : 2 ^ 4094 ≤ p * q ∧ p * q < 2 ^ 4096 := by
  have low := Nat.mul_le_mul hp.1 hq.1
  have high := Nat.mul_lt_mul'' hp.2 hq.2
  simpa only [← pow_add, Nat.reduceAdd] using And.intro low high

theorem value_injective (len : x.length = y.length) (same : value x = value y) : x = y := by
  induction x generalizing y with
  | nil => exact (List.eq_nil_of_length_eq_zero len.symm).symm
  | cons a x ih =>
    obtain ⟨c, y, rfl⟩ := List.exists_cons_of_length_eq_add_one len.symm
    have tails : x.length = y.length := Nat.succ.inj len
    have low := value_lt x
    have low' := value_lt y
    rw [value_cons, value_cons] at same
    rw [tails] at same low
    have pos : 0 < 256 ^ y.length := Nat.pow_pos (by decide)
    have heads := congrArg (· / 256 ^ y.length) same
    simp only [Nat.add_comm (_ * _), Nat.add_mul_div_right _ _ pos, Nat.div_eq_of_lt low,
      Nat.div_eq_of_lt low', Nat.zero_add] at heads
    rw [heads] at same
    rw [UInt8.toNat_inj.mp heads, ih tails (Nat.add_left_cancel same)]

theorem forced_inj {c : Bytes} (hb : b.length = 256) (hc : c.length = 256) :
    value (forced b) = value (forced c) ↔ forced b = forced c := by
  refine ⟨fun same => value_injective ?_ same, congrArg value⟩
  simp only [forced, List.length_modify, List.length_modifyHead, hb, hc]

/-- Two leading bytes decide the size of the product, unless one is small and one large. -/
theorem product_of_leads {c : Bytes} (hb : b.length = 256) (hc : c.length = 256) :
    (182 ≤ lead b → 182 ≤ lead c → 2 ^ 4095 ≤ value (forced b) * value (forced c)) ∧
    (lead b ≤ 180 → lead c ≤ 180 → value (forced b) * value (forced c) < 2 ^ 4095) := by
  obtain ⟨low, high⟩ := forced_bounds hb
  obtain ⟨low', high'⟩ := forced_bounds hc
  refine ⟨fun large large' => ?_, fun small small' => ?_⟩
  · calc 2 ^ 4095 ≤ 182 * 2 ^ 2040 * (182 * 2 ^ 2040) := by decide +kernel
      _ ≤ _ := Nat.mul_le_mul ((Nat.mul_le_mul_right _ large).trans low)
        ((Nat.mul_le_mul_right _ large').trans low')
  · calc _ < 181 * 2 ^ 2040 * (181 * 2 ^ 2040) := Nat.mul_lt_mul''
          (high.trans_le (Nat.mul_le_mul_right _ (by omega)))
          (high'.trans_le (Nat.mul_le_mul_right _ (by omega)))
      _ ≤ 2 ^ 4095 := by decide +kernel

/-- In terms of the blocks that the source gives: the first one that passes the tests, the next
one, and a third one if these two give the same number. The modulus has 4095 or 4096 bits. -/
theorem rsa_key_strong_iff {σ : Type} (src : ByteSource σ) (probablyPrime : Nat → Bool)
    (fuel : Nat) (rand : σ) (key : PrivateKey)
    (returned : deterministicRSA4096 src probablyPrime fuel rand = pure key) :
    ∃ b₁ b₂ b s₁ s₂, Draws src probablyPrime rand b₁ s₁ ∧ Draws src probablyPrime s₁ b₂ s₂ ∧
      (forced b₁ ≠ forced b₂ → b = b₂) ∧
      (forced b₁ = forced b₂ → ∃ s₃, Draws src probablyPrime s₂ b s₃) ∧
      (key.n.size = 4095 ∨ key.n.size = 4096) ∧
      (key.p ≠ key.q ∧ key.n.size = 4096 ↔
        forced b₁ ≠ forced b ∧ 2 ^ 4095 ≤ value (forced b₁) * value (forced b)) ∧
      (182 ≤ lead b₁ → 182 ≤ lead b → key.n.size = 4096) ∧
      (lead b₁ ≤ 180 → lead b ≤ 180 → key.n.size = 4095) := by
  obtain ⟨⟨p, q⟩, drawn, built⟩ := deterministicRSA4096_spec returned
  obtain ⟨p₂, s₁, s₂, first, second, other, again⟩ := drawPrimes_spec drawn
  obtain ⟨b₁, draw₁, rfl⟩ := draws_of_bigPrime first
  obtain ⟨b₂, draw₂, rfl⟩ := draws_of_bigPrime second
  have same_iff : candidate 2048 b₁ = candidate 2048 b₂ ↔ forced b₁ = forced b₂ := by
    rw [candidate_eq, candidate_eq, forced_inj draw₁.accepted.length draw₂.accepted.length]
  -- the block of the second prime
  obtain ⟨b, len, last, third, rfl⟩ : ∃ b, b.length = 256 ∧ (forced b₁ ≠ forced b₂ → b = b₂) ∧
      (forced b₁ = forced b₂ → ∃ s₃, Draws src probablyPrime s₂ b s₃) ∧ q = candidate 2048 b := by
    by_cases same : forced b₁ = forced b₂
    · obtain ⟨s₃, found⟩ := again (same_iff.mpr same)
      obtain ⟨b, draw, eq⟩ := draws_of_bigPrime found
      exact ⟨b, draw.accepted.length, fun ne => absurd same ne, fun _ => ⟨s₃, draw⟩, eq⟩
    · exact ⟨b₂, draw₂.accepted.length, fun _ => rfl, fun eq => absurd eq same,
        other fun eq => same (same_iff.mp eq)⟩
  have len₁ := draw₁.accepted.length
  have product : key.n = value (forced b₁) * value (forced b) := by
    rw [built.n_eq, built.p_eq, built.q_eq, max_mul_min, candidate_eq, candidate_eq]
  have range := product_bounds (candidate_bounds len₁) (candidate_bounds len)
  rw [candidate_eq, candidate_eq, ← product] at range
  have distinct : key.p ≠ key.q ↔ forced b₁ ≠ forced b := by
    rw [ne_eq, ne_eq, ← forced_inj len₁ len, ← candidate_eq, ← candidate_eq, built.p_eq, built.q_eq]
    dsimp only
    omega
  have full : key.n.size = 4096 ↔ 2 ^ 4095 ≤ key.n := by
    rw [size_eq_iff (show 4095 + 1 = 4096 from rfl)]
    exact and_iff_left range.2
  have short : key.n.size = 4095 ↔ key.n < 2 ^ 4095 := by
    rw [size_eq_iff (show 4094 + 1 = 4095 from rfl)]
    exact and_iff_right range.1
  obtain ⟨large, small⟩ := product_of_leads len₁ len
  refine ⟨b₁, b₂, b, s₁, s₂, draw₁, draw₂, last, third, ?_⟩
  rw [← product] at large small ⊢
  refine ⟨?_, and_congr distinct full, fun h h' => full.mpr (large h h'),
    fun h h' => short.mpr (small h h')⟩
  rw [full, short]
  exact Nat.lt_or_ge _ _

section
open KeyStream

/-- A key stream that makes a `ctrStream` return one block of 256 bytes and then another one
again and again. -/
def twoBlocks (x y : Bytes) (i : Nat) : UInt8 :=
  if i < 256 then x.getD i 0
  else if i < 512 then x.getD (i - 256) 0 ^^^ y.getD (i - 256) 0
  else 0

theorem ctrSource_read (out : xorKeyStream ks r.pos (r.zeroBuf.take 256) = x) :
    (ctrSource ks).readFull r 256 = .ok (x, r.xor ks 256) := by
  show Except.ok (r.read ks 256) = _
  rw [CtrStream.read_small r (by decide) (by decide), out]

theorem ctrSource_next (out : xorKeyStream ks r.pos (r.zeroBuf.take 256) = x)
    (next : xorKeyStream ks (r.pos + 256) x = y) :
    xorKeyStream ks (r.xor ks 256).pos ((r.xor ks 256).zeroBuf.take 256) = y := by
  rw [CtrStream.xor_take ks r (by decide), out]
  exact next

theorem twoBlocks_reads (hx : x.length = 256) (hy : y.length = 256) :
    ∃ r₁ r₂ r₃, (ctrSource (twoBlocks x y)).readFull .new 256 = .ok (x, r₁) ∧
      (ctrSource (twoBlocks x y)).readFull r₁ 256 = .ok (y, r₂) ∧
      (ctrSource (twoBlocks x y)).readFull r₂ 256 = .ok (y, r₃) := by
  have first : xorKeyStream (twoBlocks x y) 0 (CtrStream.new.zeroBuf.take 256) = x := by
    rw [CtrStream.new, List.take_replicate]
    refine xorKeyStream_eq (by rw [List.length_replicate, hx]; rfl) fun i lt => ?_
    rw [List.length_replicate] at lt
    have lt' : i < 256 := lt
    rw [List.getD_replicate _ lt, UInt8.zero_xor, Nat.zero_add, twoBlocks, if_pos lt']
  have second : xorKeyStream (twoBlocks x y) 256 x = y := by
    refine xorKeyStream_eq (by omega) fun i lt => ?_
    rw [twoBlocks, if_neg (by omega), if_pos (by omega), Nat.add_sub_cancel_left, ← UInt8.xor_assoc,
      UInt8.xor_self, UInt8.zero_xor]
  have third : xorKeyStream (twoBlocks x y) 512 y = y := by grind [xorKeyStream_eq, twoBlocks]
  have next := ctrSource_next first second
  exact ⟨_, _, _, ctrSource_read first, ctrSource_read next,
    ctrSource_read (ctrSource_next next third)⟩

theorem blocks_drawn {probablyPrime : Nat → Bool} (hx : Accepted probablyPrime x)
    (hy : Accepted probablyPrime y) : ∃ r₁ r₂ r₃,
      bigPrime (ctrSource (twoBlocks x y)) probablyPrime 2048 1 .new =
        pure (candidate 2048 x, r₁) ∧
      bigPrime (ctrSource (twoBlocks x y)) probablyPrime 2048 1 r₁ =
        pure (candidate 2048 y, r₂) ∧
      bigPrime (ctrSource (twoBlocks x y)) probablyPrime 2048 1 r₂ =
        pure (candidate 2048 y, r₃) := by
  obtain ⟨r₁, r₂, r₃, read₁, read₂, read₃⟩ := twoBlocks_reads hx.length hy.length
  exact ⟨r₁, r₂, r₃, bigPrime_first 2048 read₁ hx.divided hx.probable,
    bigPrime_first 2048 read₂ hy.divided hy.probable,
    bigPrime_first 2048 read₃ hy.divided hy.probable⟩

theorem key_of_blocks {probablyPrime : Nat → Bool} (hx : Accepted probablyPrime x)
    (hy : Accepted probablyPrime y)
    (coprime : Nat.Coprime 65537 ((max (candidate 2048 x) (candidate 2048 y) - 1) *
      (min (candidate 2048 x) (candidate 2048 y) - 1))) :
    ∃ key, deterministicRSA4096 (ctrSource (twoBlocks x y)) probablyPrime 1 .new = pure key ∧
      key.Of (candidate 2048 x) (candidate 2048 y) := by
  obtain ⟨r₁, r₂, r₃, first, second, third⟩ := blocks_drawn hx hy
  have drawn : drawPrimes (ctrSource (twoBlocks x y)) probablyPrime 1 .new =
      pure (candidate 2048 x, candidate 2048 y) := by
    rw [drawPrimes, first, pure_bind, second, pure_bind]
    split_ifs
    · rw [third, pure_bind]
    · rfl
  obtain ⟨key, built⟩ := privateKey_returns coprime
  refine ⟨key, ?_, privateKey_spec built⟩
  rw [deterministicRSA4096, drawn, pure_bind, built]

def block (a b : UInt8) : Bytes := a :: b :: (List.replicate 253 0 ++ [1])

theorem block_length (a b : UInt8) : (block a b).length = 256 := by
  rw [block, List.length_cons, List.length_cons, List.length_append, List.length_replicate,
    List.length_singleton]

def isPrime (n : Nat) : Bool := decide n.Prime

theorem blocks_certified :
    (Certified (candidate 2048 (block 0xF9 0x70)) 2035 3 [13, 307] ∧
      trialDiv (candidate 2048 (block 0xF9 0x70)) = true) ∧
    (Certified (candidate 2048 (block 0xCB 0xD0)) 2035 5 [3, 1087] ∧
      trialDiv (candidate 2048 (block 0xCB 0xD0)) = true) ∧
    (Certified (candidate 2048 (block 0xA0 0x20)) 2036 5 [3, 7, 61] ∧
      trialDiv (candidate 2048 (block 0xA0 0x20)) = true) ∧
    (Certified (candidate 2048 (block 0x99 0xAC)) 2033 3 [5, 7, 281] ∧
      trialDiv (candidate 2048 (block 0x99 0xAC)) = true) := by
  decide +kernel

theorem accepted_of_certified {a b : UInt8} {c : Nat} {factors : List Nat}
    (h : Certified (candidate 2048 (block a b)) j c factors ∧
      trialDiv (candidate 2048 (block a b)) = true) : Accepted isPrime (block a b) where
  length := block_length a b
  divided := h.2
  probable := decide_eq_true h.1.prime

end

theorem key_of_two_primes_correct : ∃ key,
    deterministicRSA4096 (ctrSource (twoBlocks (block 0xF9 0x70) (block 0xCB 0xD0))) isPrime 1
      .new = pure key ∧ key.p ≠ key.q ∧ key.Correct := by
  obtain ⟨key, returned, built⟩ := key_of_blocks (accepted_of_certified blocks_certified.1)
    (accepted_of_certified blocks_certified.2.1) (by decide +kernel)
  have different : key.p ≠ key.q := by
    rw [built.p_eq, built.q_eq]
    decide +kernel
  exact ⟨key, returned, different,
    rsa_key_correct _ isPrime (fun n => decide_eq_true_iff) 1 _ key returned different⟩

theorem key_of_two_primes_strong : ∃ key,
    deterministicRSA4096 (ctrSource (twoBlocks (block 0xF9 0x70) (block 0xCB 0xD0))) isPrime 1
      .new = pure key ∧ key.p ≠ key.q ∧ key.n.size = 4096 := by
  have hx := accepted_of_certified blocks_certified.1
  have hy := accepted_of_certified blocks_certified.2.1
  obtain ⟨key, returned, -⟩ := key_of_blocks hx hy (by decide +kernel)
  obtain ⟨r₁, r₂, r₃, read₁, read₂, -⟩ := twoBlocks_reads hx.length hy.length
  obtain ⟨b₁, b₂, b, s₁, s₂, draw₁, draw₂, last, -, -, strong, -⟩ :=
    rsa_key_strong_iff _ isPrime 1 _ key returned
  obtain ⟨rfl, rfl⟩ := draw₁.eq_first read₁ hx
  obtain ⟨rfl, -⟩ := draw₂.eq_first read₂ hy
  have different : forced (block 0xF9 0x70) ≠ forced (block 0xCB 0xD0) := by decide +kernel
  obtain rfl := last different
  refine ⟨key, returned, strong.mpr ⟨different, ?_⟩⟩
  exact (product_of_leads hx.length hy.length).1 (by decide +kernel) (by decide +kernel)

/-- The same prime three times, and two primes with a product of 4095 bits. -/
theorem weak_keys_returned :
    (∃ key, deterministicRSA4096 (ctrSource (twoBlocks (block 0xA0 0x20) (block 0xA0 0x20))) isPrime
      1 .new = pure key ∧ key.p = key.q ∧ key.n.size = 4095) ∧
    (∃ key, deterministicRSA4096 (ctrSource (twoBlocks (block 0xA0 0x20) (block 0x99 0xAC))) isPrime
      1 .new = pure key ∧ key.p ≠ key.q ∧ key.n.size = 4095) := by
  have hx := accepted_of_certified blocks_certified.2.2.1
  have hy := accepted_of_certified blocks_certified.2.2.2
  constructor
  · obtain ⟨key, returned, built⟩ := key_of_blocks hx hx (by decide +kernel)
    refine ⟨key, returned, ?_, ?_⟩
    · rw [built.p_eq, built.q_eq, max_self, min_self]
    · rw [built.n_eq, built.p_eq, built.q_eq, size_eq_iff (show 4094 + 1 = 4095 from rfl)]
      decide +kernel
  · obtain ⟨key, returned, built⟩ := key_of_blocks hx hy (by decide +kernel)
    refine ⟨key, returned, ?_, ?_⟩
    · rw [built.p_eq, built.q_eq]
      decide +kernel
    · rw [built.n_eq, built.p_eq, built.q_eq, size_eq_iff (show 4094 + 1 = 4095 from rfl)]
      decide +kernel

end Fedkey
