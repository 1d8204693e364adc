import Toxera.Mintox.CryptoCore

/-!
# Distances between keys, and ages

`IDClosest` and `IDDistance` of `mintox/dht.go`, and `IsTimeout4Now` of `ping.go`.
-/

namespace Dht

open CryptoCore

def idClosestLoop : Bytes → Bytes → Bytes → Int
  | pk :: pks, pk1 :: pk1s, pk2 :: pk2s =>
    let distance1 := pk ^^^ pk1
    let distance2 := pk ^^^ pk2
    if distance1 < distance2 then 0
    else if distance1 > distance2 then -1
    else idClosestLoop pks pk1s pk2s
  | _, _, _ => 1

def idClosest (cmppk pk1 pk2 : CryptoKey) : Int := idClosestLoop cmppk.val pk1.val pk2.val

def idDistance (pk1 pk2 : CryptoKey) : Bytes := List.zipWith (· ^^^ ·) pk1.val pk2.val

def distance (pk1 pk2 : CryptoKey) : Nat := beVal (idDistance pk1 pk2)

theorem beVal_cons_lt {x y : UInt8} {xs ys : Bytes} (len : xs.length = ys.length) (less : x < y) :
    beVal (x :: xs) < beVal (y :: ys) := by
  have hxs := beVal_lt xs
  rw [beVal_cons, beVal_cons, len] at *
  calc x.toNat * 256 ^ ys.length + beVal xs
      < x.toNat * 256 ^ ys.length + 256 ^ ys.length := by omega
    _ = (x.toNat + 1) * 256 ^ ys.length := by rw [Nat.add_mul, Nat.one_mul]
    _ ≤ y.toNat * 256 ^ ys.length := Nat.mul_le_mul_right _ (UInt8.lt_iff_toNat_lt.mp less)
    _ ≤ y.toNat * 256 ^ ys.length + beVal ys := Nat.le_add_right ..

theorem idClosestLoop_spec (pks as bs : Bytes) (ha : as.length = pks.length)
    (hb : bs.length = pks.length) :
    let da := beVal (List.zipWith (· ^^^ ·) pks as)
    let db := beVal (List.zipWith (· ^^^ ·) pks bs)
    (da < db ∧ idClosestLoop pks as bs = 0) ∨ (db < da ∧ idClosestLoop pks as bs = -1) ∨
      (as = bs ∧ idClosestLoop pks as bs = 1) := by
  induction pks generalizing as bs with
  | nil =>
    obtain rfl := List.length_eq_zero_iff.mp ha
    obtain rfl := List.length_eq_zero_iff.mp hb
    exact Or.inr (Or.inr ⟨rfl, rfl⟩)
  | cons pk pks ih =>
    obtain ⟨a, as, rfl⟩ := List.exists_cons_of_length_eq_add_one ha
    obtain ⟨b, bs, rfl⟩ := List.exists_cons_of_length_eq_add_one hb
    simp only [List.length_cons, Nat.add_right_cancel_iff] at ha hb
    have len : (List.zipWith (· ^^^ ·) pks as).length = (List.zipWith (· ^^^ ·) pks bs).length := by
      rw [List.length_zipWith, List.length_zipWith, ha, hb]
    simp only [List.zipWith_cons_cons, idClosestLoop]
    rcases Nat.lt_trichotomy (pk ^^^ a).toNat (pk ^^^ b).toNat with less | same | more
    · replace less := UInt8.lt_iff_toNat_lt.mpr less
      exact Or.inl ⟨beVal_cons_lt len less, if_pos less⟩
    · obtain rfl : a = b := (UInt8.xor_right_inj pk).mp (UInt8.toNat_inj.mp same)
      simp only [UInt8.lt_irrefl, gt_iff_lt, if_false]
      rcases ih as bs ha hb with ⟨less, h⟩ | ⟨more, h⟩ | ⟨rfl, h⟩
      · refine Or.inl ⟨?_, h⟩
        rw [beVal_cons, beVal_cons, len]
        omega
      · refine Or.inr (Or.inl ⟨?_, h⟩)
        rw [beVal_cons, beVal_cons, len]
        omega
      · exact Or.inr (Or.inr ⟨rfl, h⟩)
    · replace more := UInt8.lt_iff_toNat_lt.mpr more
      refine Or.inr (Or.inl ⟨beVal_cons_lt len.symm more, ?_⟩)
      rw [if_neg (UInt8.lt_asymm more), if_pos more]

theorem idClosest_spec (c a b : CryptoKey) :
    (distance c a < distance c b ∧ idClosest c a b = 0) ∨
    (distance c b < distance c a ∧ idClosest c a b = -1) ∨ (a = b ∧ idClosest c a b = 1) := by
  rcases idClosestLoop_spec c.val a.val b.val (a.property.trans c.property.symm)
    (b.property.trans c.property.symm) with h | h | ⟨same, h⟩
  · exact Or.inl h
  · exact Or.inr (Or.inl h)
  · exact Or.inr (Or.inr ⟨Subtype.ext same, h⟩)

theorem distance_injective (c : CryptoKey) : Function.Injective (distance c) := by
  intro a b same
  rcases idClosest_spec c a b with ⟨less, -⟩ | ⟨more, -⟩ | ⟨eq, -⟩
  · exact absurd same less.ne
  · exact absurd same more.ne'
  · exact eq

/-- The comparison is that of the distances as numbers, and so a strict order of the keys. -/
theorem idClosest_order (c : CryptoKey) :
    (∀ a b, (idClosest c a b = 0 ↔ beVal (idDistance c a) < beVal (idDistance c b)) ∧
      (idClosest c a b = -1 ↔ beVal (idDistance c b) < beVal (idDistance c a)) ∧
      (idClosest c a b = 1 ↔ a = b)) ∧
    (∀ a, idClosest c a a ≠ 0) ∧
    (∀ a b d, idClosest c a b = 0 → idClosest c b d = 0 → idClosest c a d = 0) ∧
    ∀ a b, idClosest c a b = 0 ∨ a = b ∨ idClosest c b a = 0 := by
  have closer : ∀ a b, idClosest c a b = 0 ↔ distance c a < distance c b := by
    intro a b
    rcases idClosest_spec c a b with ⟨less, h⟩ | ⟨more, h⟩ | ⟨rfl, h⟩ <;> rw [h]
    · exact iff_of_true rfl less
    · exact iff_of_false (by decide) more.not_gt
    · exact iff_of_false (by decide) (lt_irrefl _)
  refine ⟨fun a b => ⟨closer a b, ?_, ?_⟩, fun a => ?_, fun a b d => ?_, fun a b => ?_⟩
  · rcases idClosest_spec c a b with ⟨less, h⟩ | ⟨more, h⟩ | ⟨rfl, h⟩ <;> rw [h]
    · exact iff_of_false (by decide) less.not_gt
    · exact iff_of_true rfl more
    · exact iff_of_false (by decide) (lt_irrefl _)
  · rcases idClosest_spec c a b with ⟨less, h⟩ | ⟨more, h⟩ | ⟨rfl, h⟩ <;> rw [h]
    · exact iff_of_false (by decide) fun same => less.ne (congrArg _ same)
    · exact iff_of_false (by decide) fun same => more.ne' (congrArg _ same)
    · exact iff_of_true rfl rfl
  · exact fun less => lt_irrefl _ ((closer a a).mp less)
  · simp only [closer]
    exact lt_trans
  · simp only [closer]
    rcases lt_trichotomy (distance c a) (distance c b) with less | same | more
    · exact .inl less
    · exact .inr (.inl (distance_injective c same))
    · exact .inr (.inr more)

abbrev Time := Int

def isTimeout4Now (now oldtime : Time) (timeout : Int) : Bool :=
  timeout < (now - oldtime).tdiv 1000000000

end Dht
