import Mathlib.Data.Nat.ChineseRemainder
import Mathlib.FieldTheory.Finite.Basic
import Mathlib.NumberTheory.LucasPrimality

/-!
# Powers modulo a product of two primes

Exponents count modulo `p - 1`, also for a base that `p` divides as long as the exponent
is positive.
-/

namespace ModularPowers

section
variable {p k : Nat}

theorem pow_modEq_pow_mod (prime : p.Prime) (m : Nat) (pos : k % (p - 1) ≠ 0) :
    m ^ k ≡ m ^ (k % (p - 1)) [MOD p] := by
  by_cases divides : p ∣ m
  · have zero : ∀ {n}, n ≠ 0 → m ^ n ≡ 0 [MOD p] := fun ne =>
      (Nat.modEq_zero_iff_dvd).mpr (dvd_pow divides ne)
    have some_ : k ≠ 0 := by
      rintro rfl
      exact pos (Nat.zero_mod _)
    exact (zero some_).trans (zero pos).symm
  · have coprime : m.Coprime p := ((prime.coprime_iff_not_dvd).mpr divides).symm
    have fermat : m ^ (p - 1) ≡ 1 [MOD p] := by
      have := Nat.ModEq.pow_totient coprime
      rwa [Nat.totient_prime prime] at this
    calc m ^ k = (m ^ (p - 1)) ^ (k / (p - 1)) * m ^ (k % (p - 1)) := by
          rw [← pow_mul, ← pow_add, Nat.div_add_mod]
      _ ≡ 1 ^ (k / (p - 1)) * m ^ (k % (p - 1)) [MOD p] := (fermat.pow _).mul_right _
      _ = m ^ (k % (p - 1)) := by rw [one_pow, one_mul]

theorem pow_modEq_self (prime : p.Prime) (m : Nat) (large : 2 < p) (one : k ≡ 1 [MOD p - 1]) :
    m ^ k ≡ m [MOD p] := by
  have rest : k % (p - 1) = 1 := by
    rw [one, Nat.mod_eq_of_lt]
    omega
  have power := pow_modEq_pow_mod prime m (k := k) (by omega)
  rwa [rest, pow_one] at power

end

section
variable {p q qinv : Nat}

def garner (p q qinv m1 m2 : Nat) : Nat := m2 + (qinv * ((m1 : Int) - m2) % p).toNat * q

theorem garner_lt {m2 : Nat} (pos : 0 < p) (small : m2 < q) (m1 : Nat) :
    garner p q qinv m1 m2 < p * q := by
  have height : (qinv * ((m1 : Int) - m2) % p).toNat ≤ p - 1 := by
    have := Int.emod_lt_of_pos (qinv * ((m1 : Int) - m2)) (show (0 : Int) < p by omega)
    omega
  calc garner p q qinv m1 m2 < q + (p - 1) * q :=
        Nat.add_lt_add_of_lt_of_le small (Nat.mul_le_mul_right q height)
    _ = p * q := by
      obtain ⟨r, rfl⟩ := Nat.exists_eq_add_of_lt pos
      rw [Nat.zero_add, Nat.add_sub_cancel]
      ring

theorem garner_modEq_left (pos : 0 < p) (inverse : qinv * q ≡ 1 [MOD p]) (m1 m2 : Nat) :
    garner p q qinv m1 m2 ≡ m1 [MOD p] := by
  have nonneg := Int.emod_nonneg (qinv * ((m1 : Int) - m2)) (show (p : Int) ≠ 0 by omega)
  have inv : (qinv * q : Int) ≡ 1 [ZMOD p] := by exact_mod_cast Int.natCast_modEq_iff.mpr inverse
  apply Int.natCast_modEq_iff.mp
  rw [garner, Nat.cast_add, Nat.cast_mul, Int.toNat_of_nonneg nonneg]
  calc (m2 + qinv * ((m1 : Int) - m2) % p * q : Int)
      ≡ m2 + qinv * ((m1 : Int) - m2) * q [ZMOD p] :=
        ((Int.mod_modEq _ _).mul_right _).add_left _
    _ = m2 + qinv * q * ((m1 : Int) - m2) := by ring
    _ ≡ m2 + 1 * ((m1 : Int) - m2) [ZMOD p] := (inv.mul_right _).add_left _
    _ = m1 := by ring

theorem garner_modEq_right (m1 m2 : Nat) : garner p q qinv m1 m2 ≡ m2 [MOD q] := by
  rw [garner]
  exact (Nat.modEq_iff_dvd' (Nat.le_add_right _ _)).mpr (by simp) |>.symm

theorem garner_eq (pos : 0 < p) (pos' : 0 < q) (coprime : p.Coprime q)
    (inverse : qinv * q ≡ 1 [MOD p]) (x : Nat) :
    garner p q qinv (x % p) (x % q) = x % (p * q) := by
  have left : garner p q qinv (x % p) (x % q) ≡ x [MOD p] :=
    (garner_modEq_left pos inverse _ _).trans (Nat.mod_modEq x p)
  have right : garner p q qinv (x % p) (x % q) ≡ x [MOD q] :=
    (garner_modEq_right _ _).trans (Nat.mod_modEq x q)
  have both : garner p q qinv (x % p) (x % q) ≡ x [MOD p * q] :=
    (Nat.modEq_and_modEq_iff_modEq_mul coprime).mp ⟨left, right⟩
  rw [← Nat.mod_eq_of_lt (garner_lt pos (Nat.mod_lt x pos') (x % p))]
  exact both

end

def squares (m : Nat) : Nat → Nat → Nat
  | 0, x => x % m
  | j + 1, x => squares m j x ^ 2 % m

theorem squares_eq (m j x : Nat) : squares m j x = x ^ 2 ^ j % m := by
  induction j with
  | zero => rw [squares, pow_zero, pow_one]
  | succ j ih => rw [squares, ih, ← Nat.pow_mod, ← pow_mul, pow_succ]

theorem natCast_pow_eq_one_iff {p : Nat} (large : 1 < p) (a n : Nat) :
    (a : ZMod p) ^ n = 1 ↔ a ^ n % p = 1 := by
  have one := ZMod.natCast_eq_natCast_iff' (a ^ n) 1 p
  rwa [Nat.mod_eq_of_lt large, Nat.cast_pow, Nat.cast_one] at one

/-- What Lucas' test has to compute for the number after a product of primes times a power of
two, with `a` for the base. -/
@[mk_iff]
structure Certified (p j a : Nat) (factors : List Nat) : Prop where
  form : p = factors.prod * 2 ^ (j + 1) + 1
  primes : ∀ q ∈ factors, q.Prime
  half : squares p j (a ^ factors.prod) + 1 = p
  others : ∀ q ∈ factors, squares p (j + 1) (a ^ (factors.prod / q)) ≠ 1

instance (p j a : Nat) (factors : List Nat) : Decidable (Certified p j a factors) :=
  decidable_of_iff _ (certified_iff p j a factors).symm

theorem Certified.prime {p j a : Nat} {factors : List Nat} (h : Certified p j a factors) :
    p.Prime := by
  obtain ⟨form, primes, half, others⟩ := h
  have pos : 0 < factors.prod :=
    List.prod_pos fun q mem => (primes q mem).pos
  set k := factors.prod with k_def
  have two : 2 ≤ 2 ^ (j + 1) := by grind
  have large : 2 < p := by
    have := Nat.mul_le_mul pos two
    omega
  have minus : a ^ (k * 2 ^ j) % p = p - 1 := by
    rw [squares_eq, ← pow_mul] at half
    omega
  have power : ∀ n, a ^ (n * 2 ^ (j + 1)) % p = squares p (j + 1) (a ^ n) := by
    intro n
    rw [squares_eq, pow_mul]
  have less : p - 1 = k * 2 ^ (j + 1) := by omega
  have double : k * 2 ^ (j + 1) = k * 2 ^ j * 2 := by rw [pow_succ, mul_assoc]
  refine lucas_primality p (a : ZMod p) ?_ fun q prime divides => ?_
  · -- the square of minus one
    have square : (p - 1) ^ 2 % p = 1 := by
      obtain ⟨r, rfl⟩ : ∃ r, p = r + 2 := ⟨p - 2, by omega⟩
      rw [show (r + 2 - 1) ^ 2 = 1 + (r + 2) * r by rw [Nat.add_sub_assoc (by decide)]; ring,
        Nat.add_mul_mod_self_left, Nat.mod_eq_of_lt (by omega)]
    rw [natCast_pow_eq_one_iff (by omega), less, double, pow_mul, Nat.pow_mod, minus, square]
  · rw [Ne, natCast_pow_eq_one_iff (by omega), less]
    rw [less] at divides
    rcases (prime.dvd_mul).mp divides with left | right
    · obtain ⟨r, mem, inside⟩ := (Prime.dvd_prod_iff prime.prime).mp left
      obtain rfl := (Nat.prime_dvd_prime_iff_eq prime (primes r mem)).mp inside
      rw [Nat.mul_div_right_comm left, power]
      exact others q mem
    · obtain rfl := (Nat.prime_dvd_prime_iff_eq prime Nat.prime_two).mp (prime.dvd_of_dvd_pow right)
      rw [double, Nat.mul_div_cancel _ (by decide), minus]
      omega

end ModularPowers
