import Toxera.Lib.Radix
import Toxera.Lib.Runes
import Toxera.PeerIds

/-!
# Reading peer ids

`base58Decode` of `relayhub/base58.go` turns the text of a peer id back into bytes.
-/

namespace Relayhub

open BaseEncoding Radix Runes

variable {c d : Nat} {digits : List Nat} {letters : List (UInt8 × Nat)} {s : Bytes} {tab : List Int}

def base58DecodeTab : List Int :=
  base58Alphabet.zipIdx.foldl (fun tab (c, i) => tab.set c.toNat i) (List.replicate 256 (-1))

def base58Number : Nat → List Nat → Except String Nat
  | n, [] => .ok n
  | n, c :: rest =>
    if base58DecodeTab.length ≤ c ∨ base58DecodeTab.getD c (-1) = -1 then
      .error ("invalid base58 character: " ++ String.singleton (Char.ofNat c))
    else base58Number (n * 58 + (base58DecodeTab.getD c (-1)).toNat) rest

def bigBytes (n : Nat) : Bytes := (Nat.digits 256 n).reverse.map UInt8.ofNat

def base58Decode (s : Bytes) : Except String Bytes :=
  if s = [] then .error "empty base58 string"
  else (base58Number 0 (runes s)).map fun n =>
    let leadingZeros := ((runes s).takeWhile (· = (base58Alphabet.getD 0 0).toNat)).length
    List.replicate leadingZeros 0 ++ bigBytes n

theorem tab_length (letters : List (UInt8 × Nat)) (tab : List Int) :
    (letters.foldl (fun tab (c, i) => tab.set c.toNat i) tab).length = tab.length := by
  induction letters generalizing tab with
  | nil => rfl
  | cons p letters ih => rw [List.foldl_cons, ih, List.length_set]

theorem base58Alphabet_same : base58Alphabet = Fedkey.base58Alphabet := rfl

theorem base58Alphabet_length : base58Alphabet.length = 58 := by
  rw [base58Alphabet_same, Fedkey.base58Alphabet_length]

theorem base58Alphabet_nodup : base58Alphabet.Nodup := by
  rw [base58Alphabet_same]
  exact Fedkey.base58Alphabet_nodup

theorem base58DecodeTab_length : base58DecodeTab.length = 256 :=
  (tab_length ..).trans List.length_replicate

theorem tab_skip (other : ∀ p ∈ letters, p.1.toNat ≠ c) (tab : List Int) :
    (letters.foldl (fun tab (c, i) => tab.set c.toNat i) tab).getD c (-1) = tab.getD c (-1) := by
  induction letters generalizing tab with
  | nil => rfl
  | cons p letters ih => grind

theorem tab_entry (distinct : (letters.map Prod.fst).Nodup) {p : UInt8 × Nat} (mem : p ∈ letters)
    (size : tab.length = 256) :
    (letters.foldl (fun tab (c, i) => tab.set c.toNat i) tab).getD p.1.toNat (-1) = p.2 := by
  induction letters generalizing tab with
  | nil => cases mem
  | cons q letters ih =>
    rw [List.map_cons, List.nodup_cons] at distinct
    rw [List.foldl_cons]
    rcases List.mem_cons.mp mem with rfl | mem
    · have other : ∀ q ∈ letters, q.1.toNat ≠ p.1.toNat := by
        intro q hq same
        exact distinct.1 (UInt8.toNat_inj.mp same ▸ List.mem_map_of_mem hq)
      have inside : p.1.toNat < (tab.set p.1.toNat p.2).length := by
        rw [List.length_set, size]
        exact UInt8.toNat_lt _
      rw [tab_skip other, List.getD_eq_getElem _ _ inside, List.getElem_set_self]
    · grind

theorem tab_letter {alphabet : Bytes} (distinct : alphabet.Nodup) (inside : d < alphabet.length)
    (size : tab.length = 256) :
    (alphabet.zipIdx.foldl (fun tab (c, i) => tab.set c.toNat i) tab).getD
      (alphabet.getD d 0).toNat (-1) = d := by
  have places : (alphabet.zipIdx.map Prod.fst).Nodup := by
    rwa [List.zipIdx_map_fst]
  have mem : (alphabet.getD d 0, d) ∈ alphabet.zipIdx := by grind
  exact tab_entry places mem size

theorem base58DecodeTab_letter : ∀ d < 58,
    base58DecodeTab.getD (base58Alphabet.getD d 0).toNat (-1) = d := by
  intro d small
  rw [← base58Alphabet_length] at small
  rw [base58DecodeTab]
  exact tab_letter base58Alphabet_nodup small List.length_replicate

theorem base58DecodeTab_other (listed : base58DecodeTab.getD c (-1) ≠ -1) :
    ∃ l ∈ base58Alphabet, l.toNat = c := by
  by_contra other
  rw [base58DecodeTab] at listed
  refine listed ((tab_skip ?_ _).trans ?_)
  · grind
  · grind

theorem base58Alphabet_ascii : ∀ c ∈ base58Alphabet, c < 0x80 := by
  rw [base58Alphabet_same, Fedkey.base58Alphabet_eq]
  decide +kernel

theorem letter_mem (small : d < 58) : base58Alphabet.getD d 0 ∈ base58Alphabet := by
  rw [← base58Alphabet_length] at small
  rw [List.getD_eq_getElem _ _ small]
  exact List.getElem_mem small

theorem exists_digits (letters : ∀ c ∈ s, c ∈ base58Alphabet) :
    ∃ digits, (∀ d ∈ digits, d < 58) ∧ s = spell base58Alphabet digits := by
  induction s with
  | nil => exact ⟨[], by simp, rfl⟩
  | cons c s ih =>
    obtain ⟨digits, small, rfl⟩ := ih fun x hx => letters x (List.mem_cons_of_mem _ hx)
    obtain ⟨d, inside, rfl⟩ := List.mem_iff_getElem.mp (letters c List.mem_cons_self)
    refine ⟨d :: digits, ?_, ?_⟩
    · intro x hx
      rcases List.mem_cons.mp hx with rfl | hx
      · rwa [base58Alphabet_length] at inside
      · exact small x hx
    · grind [spell, base58Alphabet]

theorem spell_ascii (small : ∀ d ∈ digits, d < 58) :
    runes (spell base58Alphabet digits) =
      digits.map fun d => (base58Alphabet.getD d 0).toNat := by
  rw [runes_ascii, spell, List.map_map, Function.comp_def]
  · intro c hc
    obtain ⟨d, hd, rfl⟩ := List.mem_map.mp hc
    exact base58Alphabet_ascii _ (letter_mem (small d hd))

theorem base58Number_digits (small : ∀ d ∈ digits, d < 58) (n : Nat) :
    base58Number n (digits.map fun d => (base58Alphabet.getD d 0).toNat) =
      .ok (digits.foldl (fun n d => 58 * n + d) n) := by
  induction digits generalizing n with
  | nil => rfl
  | cons d digits ih =>
    have here := small d List.mem_cons_self
    have inside : (base58Alphabet.getD d 0).toNat < base58DecodeTab.length := by
      rw [base58DecodeTab_length]
      exact UInt8.toNat_lt _
    rw [List.map_cons, base58Number, base58DecodeTab_letter d here,
      if_neg (by omega), ih fun x hx => small x (List.mem_cons_of_mem _ hx), Int.toNat_natCast,
      Nat.mul_comm]
    rfl

theorem base58Number_refuses {rs : List Nat} (n : Nat)
    (other : ∃ r ∈ rs, 256 ≤ r ∨ base58DecodeTab.getD r (-1) = -1) :
    ∃ e, base58Number n rs = .error e := by
  induction rs generalizing n with
  | nil => grind
  | cons c rs ih =>
    rw [base58Number, base58DecodeTab_length]
    split_ifs with bad
    · exact ⟨_, rfl⟩
    · obtain ⟨r, hr, out⟩ := other
      have later : r ∈ rs := by
        rcases List.mem_cons.mp hr with rfl | hr
        · exact absurd out bad
        · exact hr
      exact ih _ ⟨r, later, out⟩

theorem leading_letters (small : ∀ d ∈ digits, d < 58) :
    ((digits.map fun d => (base58Alphabet.getD d 0).toNat).takeWhile
      (· = (base58Alphabet.getD 0 0).toNat)).length = zeros digits := by
  induction digits with
  | nil => rw [List.map_nil, List.takeWhile_nil, zeros, List.takeWhile_nil]
  | cons d digits ih =>
    have same : (base58Alphabet.getD d 0).toNat = (base58Alphabet.getD 0 0).toNat ↔ d = 0 := by
      grind [base58DecodeTab_letter]
    have rest := ih fun x hx => small x (List.mem_cons_of_mem _ hx)
    by_cases zero : d = 0
    · rw [List.map_cons, List.takeWhile_cons_of_pos (by simpa using same.mpr zero), zeros,
        List.takeWhile_cons_of_pos (by simpa using zero), List.length_cons, List.length_cons, rest,
        zeros]
    · rw [List.map_cons, List.takeWhile_cons_of_neg (by simpa using mt same.mp zero), zeros,
        List.takeWhile_cons_of_neg (by simpa using zero)]

theorem base58Decode_spell (some_ : digits ≠ []) (small : ∀ d ∈ digits, d < 58) :
    base58Decode (spell base58Alphabet digits) =
      .ok ((rebase 58 256 digits).map UInt8.ofNat) := by
  have text : spell base58Alphabet digits ≠ [] := by grind [spell_length]
  rw [base58Decode, if_neg text, spell_ascii small, base58Number_digits small,
    ← number_eq_foldl]
  simp only [Except.map, leading_letters small, rebase, List.map_append, List.map_replicate,
    bigBytes]
  rfl

theorem base58_eq_spell (alphabet data : Bytes) :
    base58 alphabet data = spell alphabet (rebase 256 58 (data.map UInt8.toNat)) := by
  have number_eq : value data = number 256 (data.map UInt8.toNat) := by
    rw [number_eq_foldl, List.foldl_map]
    rfl
  have zeros_eq : (data.takeWhile (· = 0)).map (fun _ => 0) =
      List.replicate (zeros (data.map UInt8.toNat)) 0 := by
    rw [List.map_const', zeros, List.takeWhile_map, List.length_map]
    congr 3
    funext b
    simp [← UInt8.toNat_inj]
  rw [base58, number_eq, zeros_eq, spell, ← List.map_reverse, List.reverse_append,
    List.reverse_replicate]
  rfl

theorem base58Encode_eq_spell (data : Bytes) :
    base58Encode data =
      some (spell base58Alphabet (rebase 256 58 (data.map UInt8.toNat))) := by
  rw [PeerIds.base58Encode_eq, Fedkey.Go.base58Encode, base58_eq_spell, base58Alphabet_same]

theorem bytes_small (data : Bytes) : ∀ d ∈ data.map UInt8.toNat, d < 256 := by
  intro d hd
  obtain ⟨b, -, rfl⟩ := List.mem_map.mp hd
  exact b.toNat_lt

theorem map_ofNat_toNat (data : Bytes) : (data.map UInt8.toNat).map UInt8.ofNat = data := by
  simp [List.map_map, Function.comp_def]

theorem map_toNat_ofNat (small : ∀ d ∈ digits, d < 256) :
    (digits.map UInt8.ofNat).map UInt8.toNat = digits := by
  rw [List.map_map]
  refine (List.map_congr_left fun d hd => ?_).trans (List.map_id digits)
  exact UInt8.toNat_ofNat_of_lt' (small d hd)

theorem base58Decode_encoded {data : Bytes} (some_ : data ≠ []) :
    base58Decode (spell base58Alphabet (rebase 256 58 (data.map UInt8.toNat))) = .ok data := by
  have digits : data.map UInt8.toNat ≠ [] := by simpa using some_
  rw [base58Decode_spell (rebase_ne_nil (by decide) digits (bytes_small data))
    (rebase_lt (by decide) 256 _), rebase_rebase (by decide) (bytes_small data), map_ofNat_toNat]

theorem base58Encode_decoded (some_ : s ≠ []) (letters : ∀ c ∈ s, c ∈ base58Alphabet) :
    ∃ data, base58Decode s = .ok data ∧ base58Encode data = some s := by
  obtain ⟨digits, small, rfl⟩ := exists_digits letters
  have digits_ne : digits ≠ [] := by
    rintro rfl
    exact some_ rfl
  refine ⟨_, base58Decode_spell digits_ne small, ?_⟩
  rw [base58Encode_eq_spell, map_toNat_ofNat (rebase_lt (by decide) 58 _),
    rebase_rebase (by decide) small]

theorem base58Decode_refuses (other : ∃ c ∈ s, c ∉ base58Alphabet) :
    ∃ e, base58Decode s = .error e := by
  have rune : ∃ r ∈ runes s, 256 ≤ r ∨ base58DecodeTab.getD r (-1) = -1 := by
    by_cases ascii : ∀ b ∈ s, b < 0x80
    · obtain ⟨c, hc, out⟩ := other
      refine ⟨c.toNat, ?_, Or.inr ?_⟩
      · rw [runes_ascii ascii]
        exact List.mem_map_of_mem hc
      · by_contra listed
        obtain ⟨l, hl, same⟩ := base58DecodeTab_other listed
        exact out (UInt8.toNat_inj.mp same ▸ hl)
    · push Not at ascii
      obtain ⟨r, hr, high⟩ := exists_high_rune (by simpa using ascii)
      refine ⟨r, hr, Or.inr ?_⟩
      by_contra listed
      obtain ⟨l, hl, rfl⟩ := base58DecodeTab_other listed
      exact absurd (UInt8.lt_iff_toNat_lt.mp (base58Alphabet_ascii l hl)) (not_lt.mpr high)
  obtain ⟨e, refused⟩ := base58Number_refuses 0 rune
  unfold base58Decode
  split_ifs
  · exact ⟨_, rfl⟩
  · rw [refused]
    exact ⟨e, rfl⟩

/-- Texts of peer ids are a faithful encoding, and the same one in both modules. -/
theorem base58_faithful :
    (∀ b : Bytes, b ≠ [] → ∃ text, base58Encode b = some text ∧ base58Decode text = .ok b) ∧
    (∀ s : Bytes, s ≠ [] → (∀ c ∈ s, c ∈ base58Alphabet) →
      ∃ b, base58Decode s = .ok b ∧ base58Encode b = some s) ∧
    (∀ s : Bytes, (∃ c ∈ s, c ∉ base58Alphabet) → ∃ e, base58Decode s = .error e) ∧
    (∀ b : Bytes, base58Encode b = some (Fedkey.Go.base58Encode b)) ∧
    ∀ b : Bytes, b ≠ [] → base58Decode (Fedkey.Go.base58Encode b) = .ok b := by
  refine ⟨?_, ?_, ?_, PeerIds.base58Encode_eq, ?_⟩
  · intro b some_
    exact ⟨_, base58Encode_eq_spell b, base58Decode_encoded some_⟩
  · intro s some_ letters
    exact base58Encode_decoded some_ letters
  · intro s other
    exact base58Decode_refuses other
  · intro b some_
    rw [Fedkey.Go.base58Encode, base58_eq_spell]
    exact base58Decode_encoded some_

/-- Two leading zero bytes, a text with a letter that looks like a zero, and one with a byte
that starts no rune. -/
theorem base58_small_texts :
    base58Decode (Fedkey.Go.base58Encode [0, 0, 1]) = .ok [0, 0, 1] ∧
    (∃ e, base58Decode (ascii "10l") = .error e) ∧ ∃ e, base58Decode [0x31, 0xFF] = .error e := by
  obtain ⟨-, -, refuses, -, across⟩ := base58_faithful
  have out : ∀ c ∈ [108, 0xFF], c ∉ base58Alphabet := by
    rw [base58Alphabet_same, Fedkey.base58Alphabet_eq]
    decide +kernel
  exact ⟨across [0, 0, 1] (by decide), refuses _ ⟨108, by decide, out 108 (by decide)⟩,
    refuses _ ⟨0xFF, by decide, out 0xFF (by decide)⟩⟩

end Relayhub
