import Mathlib.Data.List.TakeWhile
import Mathlib.Data.Nat.Digits.Lemmas

/-!
# Changing the base of a text of digits

A text of digits, the first one highest, is read as a number in one base and written in
another.
-/

namespace Radix

variable {b c d n width : Nat} {l m : List Nat}

def zeros (l : List Nat) : Nat := (l.takeWhile (· = 0)).length

def number (b : Nat) (l : List Nat) : Nat := Nat.ofDigits b l.reverse

def rebase (b c : Nat) (l : List Nat) : List Nat :=
  List.replicate (zeros l) 0 ++ (Nat.digits c (number b l)).reverse

theorem number_eq_foldl (b : Nat) (l : List Nat) :
    number b l = l.foldl (fun n d => b * n + d) 0 := by
  induction l using List.reverseRecOn with
  | nil => rfl
  | append_singleton l d ih =>
    rw [number, List.reverse_append, List.reverse_singleton, List.singleton_append,
      Nat.ofDigits_cons, List.foldl_append, ← ih, List.foldl_cons, List.foldl_nil, Nat.add_comm]
    rfl

def Leads (m : List Nat) : Prop := ∀ d ∈ m.head?, d ≠ 0

theorem exists_leads (l : List Nat) : ∃ m, Leads m ∧ l = List.replicate (zeros l) 0 ++ m := by
  refine ⟨l.dropWhile (· = 0), ?_, ?_⟩
  · intro d hd
    obtain ⟨rest, split⟩ := List.head?_eq_some_iff.mp hd
    have some_ : l.dropWhile (· = 0) ≠ [] := by simp [split]
    have first := List.head_dropWhile_not (fun d : Nat => decide (d = 0)) some_
    simp only [split, List.head_cons, decide_eq_false_iff_not] at first
    exact first
  · have all : l.takeWhile (· = 0) = List.replicate (zeros l) 0 := by
      refine List.eq_replicate_iff.mpr ⟨rfl, fun d hd => ?_⟩
      have zero := List.mem_takeWhile_imp hd
      simpa using zero
    rw [← all]
    exact List.takeWhile_append_dropWhile.symm

theorem zeros_append (leads : Leads m) (k : Nat) : zeros (List.replicate k 0 ++ m) = k := by
  have none : m.takeWhile (· = 0) = [] := by
    cases m with
    | nil => rfl
    | cons d m => exact List.takeWhile_cons_of_neg (by simpa using leads d rfl)
  rw [zeros, List.takeWhile_append_of_pos (by simp), none, List.append_nil, List.length_replicate]

theorem number_append (b : Nat) (m : List Nat) (k : Nat) :
    number b (List.replicate k 0 ++ m) = number b m := by
  rw [number, List.reverse_append, List.reverse_replicate, Nat.ofDigits_append_replicate_zero]
  rfl

theorem leads_digits (c n : Nat) : Leads (Nat.digits c n).reverse := by
  intro d hd
  rw [List.head?_reverse] at hd
  obtain ⟨some_, rfl⟩ := List.mem_getLast?_eq_getLast hd
  refine Nat.getLast_digit_ne_zero c ?_
  rintro rfl
  exact some_ (Nat.digits_zero c)

theorem digits_number (big : 1 < b) (leads : Leads m) (small : ∀ d ∈ m, d < b) :
    (Nat.digits b (number b m)).reverse = m := by
  rw [number, Nat.digits_ofDigits b big, List.reverse_reverse]
  · intro d hd
    exact small d (List.mem_reverse.mp hd)
  · intro some_
    refine leads _ ?_
    rw [← List.getLast?_reverse, List.getLast?_eq_some_getLast some_]
    rfl

theorem rebase_rebase (big : 1 < b) (small : ∀ d ∈ l, d < b) : rebase c b (rebase b c l) = l := by
  obtain ⟨m, leads, split⟩ := exists_leads l
  have number_eq : number c (rebase b c l) = number b m := by
    rw [rebase, number_append, number, List.reverse_reverse, Nat.ofDigits_digits, split,
      number_append]
  have zeros_eq : zeros (rebase b c l) = zeros l := zeros_append (leads_digits c _) _
  rw [rebase, number_eq, zeros_eq, digits_number big leads, ← split]
  intro d hd
  refine small d ?_
  rw [split]
  exact List.mem_append_right _ hd

theorem rebase_lt (big : 1 < c) (b : Nat) (l : List Nat) : ∀ d ∈ rebase b c l, d < c := by
  intro d hd
  rcases List.mem_append.mp hd with hd | hd
  · rw [List.eq_of_mem_replicate hd]
    omega
  · exact Nat.digits_lt_base big (List.mem_reverse.mp hd)

theorem rebase_ne_nil (big : 1 < b) (some_ : l ≠ []) (small : ∀ d ∈ l, d < b) :
    rebase b c l ≠ [] := by
  intro none
  have back := rebase_rebase (c := c) big small
  rw [none] at back
  exact some_ (back.symm.trans (by simp [rebase, zeros, number]))

theorem number_append_text (b : Nat) (front back : List Nat) :
    number b (front ++ back) = number b front * b ^ back.length + number b back := by
  rw [number, List.reverse_append, Nat.ofDigits_append, List.length_reverse, Nat.add_comm,
    Nat.mul_comm]
  rfl

theorem number_lt (big : 1 < b) (small : ∀ d ∈ l, d < b) : number b l < b ^ l.length := by
  rw [← List.length_reverse]
  exact Nat.ofDigits_lt_base_pow_length big fun d hd => small d (List.mem_reverse.mp hd)

theorem digits_div_pow (big : 1 < c) (n k : Nat) :
    Nat.digits c (n / c ^ k) = (Nat.digits c n).drop k := by
  induction k generalizing n with
  | zero => rw [pow_zero, Nat.div_one, List.drop_zero]
  | succ k ih =>
    rw [pow_succ', ← Nat.div_div_eq_div_mul, ih]
    rcases Nat.eq_zero_or_pos n with rfl | pos
    · simp
    · rw [Nat.digits_def' big pos, List.drop_succ_cons]

theorem lead_of_front {k : Nat} (big : 1 < b) (big' : 1 < c) {front back lead : List Nat}
    (first : Leads front) (some_ : front ≠ []) (small : ∀ d ∈ back, d < b) (leads : Leads lead)
    (small' : ∀ d ∈ lead, d < c) (lower : number c lead * c ^ k ≤ number b front * b ^ back.length)
    (upper : (number b front + 1) * b ^ back.length ≤ (number c lead + 1) * c ^ k) :
    lead <+: rebase b c (front ++ back) := by
  have below := number_lt big small
  have quotient : number b (front ++ back) / c ^ k = number c lead := by
    rw [number_append_text]
    refine Nat.div_eq_of_lt_le ?_ ?_
    · omega
    · rw [Nat.succ_mul] at upper
      omega
  have none : zeros (front ++ back) = 0 := by
    obtain ⟨d, rest, rfl⟩ := List.exists_cons_of_ne_nil some_
    have nonzero : d ≠ 0 := first d rfl
    simp [zeros, nonzero]
  rw [rebase, none, ← digits_number big' leads small', ← quotient, digits_div_pow big']
  exact List.reverse_prefix.mpr (List.drop_suffix ..)

def littleEndian : Nat → Nat → List UInt8
  | 0, _ => []
  | width + 1, n => UInt8.ofNat n :: littleEndian width (n / 256)

def ofLittleEndian (bytes : List UInt8) : Nat := Nat.ofDigits 256 (bytes.map UInt8.toNat)

@[simp] theorem littleEndian_length (width n : Nat) : (littleEndian width n).length = width := by
  induction width generalizing n with
  | zero => rfl
  | succ width ih => rw [littleEndian, List.length_cons, ih]

theorem ofLittleEndian_littleEndian (fits : n < 256 ^ width) :
    ofLittleEndian (littleEndian width n) = n := by
  induction width generalizing n with
  | zero =>
    rw [pow_zero, Nat.lt_one_iff] at fits
    rw [fits]
    rfl
  | succ width ih =>
    have rest : ofLittleEndian (littleEndian width (n / 256)) = n / 256 :=
      ih (Nat.div_lt_of_lt_mul (pow_succ' 256 width ▸ fits))
    have low : (UInt8.ofNat n).toNat = n % 256 := UInt8.toNat_ofNat'
    rw [ofLittleEndian] at rest
    rw [littleEndian, ofLittleEndian, List.map_cons, Nat.ofDigits_cons, rest, low]
    exact Nat.mod_add_div n 256

theorem ofLittleEndian_append (front back : List UInt8) :
    ofLittleEndian (front ++ back) =
      ofLittleEndian front + 256 ^ front.length * ofLittleEndian back := by
  rw [ofLittleEndian, List.map_append, Nat.ofDigits_append, List.length_map]
  rfl

theorem map_toNat_lt (bytes : List UInt8) : ∀ d ∈ bytes.map UInt8.toNat, d < 256 := by
  intro d hd
  obtain ⟨b, -, rfl⟩ := List.mem_map.mp hd
  exact b.toNat_lt

theorem ofLittleEndian_lt (bytes : List UInt8) : ofLittleEndian bytes < 256 ^ bytes.length := by
  have lt := Nat.ofDigits_lt_base_pow_length (by decide) (map_toNat_lt bytes)
  rwa [List.length_map] at lt

theorem ofLittleEndian_inj {b c : List UInt8} (len : b.length = c.length)
    (same : ofLittleEndian b = ofLittleEndian c) : b = c := by
  have digits := Nat.ofDigits_inj_of_len_eq (by decide)
    (by rw [List.length_map, List.length_map, len]) (map_toNat_lt b) (map_toNat_lt c) same
  exact List.map_injective_iff.mpr (fun _ _ => UInt8.toNat_inj.mp) digits

def padded (width n : Nat) : List Nat :=
  List.replicate (width - (Nat.digits 10 n).length) 0 ++ (Nat.digits 10 n).reverse

def decimals (width n : Nat) : List UInt8 := (padded width n).map fun d => UInt8.ofNat (48 + d)

def ofDecimal (text : List UInt8) : Nat := number 10 (text.map fun c => c.toNat - 48)

theorem padded_lt (hd : d ∈ padded width n) : d < 10 := by
  rcases List.mem_append.mp hd with hd | hd
  · rw [List.eq_of_mem_replicate hd]
    decide
  · exact Nat.digits_lt_base (by decide) (List.mem_reverse.mp hd)

theorem toNat_digit (small : d < 10) : (UInt8.ofNat (48 + d)).toNat = 48 + d := by
  refine UInt8.toNat_ofNat_of_lt' ?_
  calc 48 + d < 58 := by omega
    _ < UInt8.size := by decide

theorem ofDecimal_decimals (width n : Nat) : ofDecimal (decimals width n) = n := by
  have char : ∀ d ∈ padded width n,
      ((fun c : UInt8 => c.toNat - 48) ∘ fun d => UInt8.ofNat (48 + d)) d = id d := by
    intro d hd
    rw [Function.comp, toNat_digit (padded_lt hd), Nat.add_sub_cancel_left, id]
  rw [ofDecimal, decimals, List.map_map, List.map_congr_left char, List.map_id, padded,
    number_append, number, List.reverse_reverse, Nat.ofDigits_digits]

theorem decimals_inj {m : Nat} (same : decimals width m = decimals width n) : m = n := by
  rw [← ofDecimal_decimals width m, same, ofDecimal_decimals]

theorem decimals_length (fits : n < 10 ^ width) : (decimals width n).length = width := by
  have short : (Nat.digits 10 n).length ≤ width :=
    (Nat.digits_length_le_iff (by decide) n).mpr fits
  rw [decimals, List.length_map, padded, List.length_append, List.length_replicate,
    List.length_reverse]
  omega

theorem decimals_range {c : UInt8} (hc : c ∈ decimals width n) : 48 ≤ c.toNat ∧ c.toNat < 58 := by
  obtain ⟨d, hd, rfl⟩ := List.mem_map.mp hc
  have small := padded_lt hd
  rw [toNat_digit small]
  omega

theorem decimals_ge {c : UInt8} (hc : c ∈ decimals width n) : 48 ≤ c.toNat :=
  (decimals_range hc).1

end Radix
