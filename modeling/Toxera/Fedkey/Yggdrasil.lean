import Toxera.Fedkey.Identifiers
import Toxera.Lib.BitStrings
import Toxera.Lib.Radix

/-!
# The bits of a Yggdrasil address

What `YggdrasilIPv6` of `fedkey/keyring.go` computes bit by bit, said at once: the address
is the byte 2, the number of leading zeros of the key, and the bits of the inverted key
behind its leading ones and the zero after them, as many whole bytes of them as there are
and as fit.
-/

namespace Fedkey

open BaseEncoding BitStrings Radix

variable {digits : List Nat}

def leadingZeros (pub : Bytes) : Nat := (bits pub).idxOf true

def remaining (pub : Bytes) : List Bool := ((bits pub).map not).drop (leadingZeros pub + 1)

structure Packed (s : Go.Scan) (taken : List Bool) : Prop where
  done : s.done = true
  room : s.nBits < 8
  part : ∃ part : List Bool, taken = bits s.temp ++ part ∧ part.length = s.nBits ∧
    s.bits = ofBits part

section
variable {s : Go.Scan} {taken : List Bool}

theorem ofBits_snoc (l : List Bool) (b : Bool) :
    ofBits (l ++ [b]) = (ofBits l <<< 1) ||| digit b := by
  rw [ofBits, List.foldl_append]
  rfl

theorem Packed.step (h : Packed s taken) (b : Bool) :
    Packed (s.step (digit b)) (taken ++ [b]) ∧ (s.step (digit b)).ones = s.ones := by
  obtain ⟨part, split, len, byte⟩ := h.part
  have room := h.room
  have more : part.length + 1 = (part ++ [b]).length := by rw [List.length_append]; rfl
  simp only [Go.Scan.step, h.done, Bool.not_true, Bool.false_and, Bool.false_eq_true, if_false,
    byte, ← ofBits_snoc]
  split_ifs with full
  · refine ⟨⟨rfl, Nat.zero_lt_succ 7, [], ?_, rfl, rfl⟩, rfl⟩
    rw [bits_append, split, List.append_assoc, List.append_nil]
    congr 1
    have eight : (part ++ [b]).length = 8 := by omega
    rw [bits, List.flatMap_singleton, byteBits_ofBits eight]
  · have next : s.nBits + 1 < 8 := by omega
    have size : (part ++ [b]).length = s.nBits + 1 := by omega
    exact ⟨⟨rfl, next, part ++ [b], by rw [split, List.append_assoc], size, rfl⟩, rfl⟩

theorem Packed.run (h : Packed s taken) (rest : List Bool) :
    Packed (rest.foldl (fun s b => s.step (digit b)) s) (taken ++ rest) ∧
      (rest.foldl (fun s b => s.step (digit b)) s).ones = s.ones := by
  induction rest generalizing s taken with
  | nil => rw [List.append_nil]; exact ⟨h, rfl⟩
  | cons b rest ih =>
    have step := h.step b
    have later := ih step.1
    rw [List.append_assoc, List.singleton_append, step.2] at later
    exact later

theorem Packed.bits_temp (h : Packed s taken) :
    bits s.temp = taken.take (8 * (taken.length / 8)) := by
  obtain ⟨part, split, len, -⟩ := h.part
  have room := h.room
  have size : taken.length = 8 * s.temp.length + part.length := by
    rw [split, List.length_append, bits_length]
  have whole : 8 * (taken.length / 8) = (bits s.temp).length := by
    rw [bits_length]
    omega
  rw [whole, split, List.take_left' rfl]

end

theorem scan_leading (z : Nat) (rest : List Bool) {s : Go.Scan} (start : s.done = false) :
    (List.replicate z true ++ false :: rest).foldl (fun s b => s.step (digit b)) s =
      rest.foldl (fun s b => s.step (digit b))
        { s with done := true, ones := s.ones + UInt8.ofNat z } := by
  induction z generalizing s with
  | zero =>
    have first : s.step (digit false) = { s with done := true } := by
      simp [Go.Scan.step, start, digit]
    rw [List.replicate_zero, List.nil_append, List.foldl_cons, first]
    simp
  | succ z ih =>
    have first : s.step (digit true) = { s with ones := s.ones + 1 } := by
      simp [Go.Scan.step, start, digit]
    rw [List.replicate_succ, List.cons_append, List.foldl_cons, first,
      ih (s := { s with ones := s.ones + 1 }) start]
    congr 2
    rw [UInt8.ofNat_add, UInt8.add_assoc, UInt8.add_comm 1]
    rfl

theorem split_at_first {l : List Bool} (some_ : true ∈ l) :
    l.map not = List.replicate (l.idxOf true) true ++
      false :: (l.map not).drop (l.idxOf true + 1) := by
  induction l with
  | nil => cases some_
  | cons b l ih =>
    cases b with
    | true => simp
    | false => grind

theorem bitAt_eq (buf : Bytes) (idx : Nat) :
    Go.bitAt buf idx = digit ((buf.getD (idx / 8) 0).toNat.testBit (7 - idx % 8)) := by
  have all : ∀ n < 256, ∀ j < 8,
      (UInt8.ofNat n &&& (0x80 >>> UInt8.ofNat j)) >>> UInt8.ofNat (7 - j) =
        digit ((UInt8.ofNat n).toNat.testBit (7 - j)) := by decide +kernel
  exact forall_byte (p := fun b => ∀ j < 8,
    (b &&& (0x80 >>> UInt8.ofNat j)) >>> UInt8.ofNat (7 - j) =
      digit (b.toNat.testBit (7 - j))) all _ _ (Nat.mod_lt idx (by decide))

structure AddressOf (pub addr : Bytes) : Prop where
  length : addr.length = 16
  first : addr[0]? = some 0x02
  zeros : addr[1]?.map UInt8.toNat = some (leadingZeros pub)
  many : leadingZeros pub ≤ 143 → bits (addr.drop 2) = (remaining pub).take 112
  few : 143 < leadingZeros pub → bits (addr.drop 2) =
    (remaining pub).take (8 * ((remaining pub).length / 8)) ++
      List.replicate (112 - 8 * ((remaining pub).length / 8)) false

section
variable {pub : Bytes}

theorem leadingZeros_lt (len : pub.length = 32) (some_ : true ∈ bits pub) :
    leadingZeros pub < 256 := by
  have := List.idxOf_lt_length_iff.mpr some_
  rwa [bits_length, len] at this

theorem remaining_length (len : pub.length = 32) :
    (remaining pub).length = 255 - leadingZeros pub := by
  rw [remaining, List.length_drop, List.length_map, bits_length, len]
  omega

theorem yggdrasilAddr_eq (len : pub.length = 32) (some_ : true ∈ bits pub) :
    ∃ temp, Go.yggdrasilAddr pub =
        0x02 :: UInt8.ofNat (leadingZeros pub) :: (temp ++ List.replicate 14 0).take 14 ∧
      bits temp = (remaining pub).take (8 * ((remaining pub).length / 8)) := by
  have inverted := bits_eq_map (pub.map fun b => ~~~ b)
  rw [bits_complement, split_at_first some_, List.length_map, len] at inverted
  have loop : ∀ s : Go.Scan,
      (List.range 256).foldl (fun s idx => s.step (Go.bitAt (pub.map fun b => ~~~ b) idx)) s =
        (List.replicate (leadingZeros pub) true ++ false :: remaining pub).foldl
          (fun s b => s.step (digit b)) s := by
    intro s
    rw [leadingZeros, remaining, leadingZeros, inverted, List.foldl_map]
    simp only [bitAt_eq]
  have packed : Packed ⟨[], true, 0 + UInt8.ofNat (leadingZeros pub), 0, 0⟩ [] :=
    ⟨rfl, Nat.zero_lt_succ 7, [], rfl, rfl, rfl⟩
  have run := packed.run (remaining pub)
  rw [List.nil_append, UInt8.zero_add] at run
  refine ⟨_, ?_, run.1.bits_temp⟩
  rw [Go.yggdrasilAddr]
  simp only [loop, scan_leading _ _ (s := ⟨[], false, 0, 0, 0⟩) rfl, UInt8.zero_add, run.2]
  rfl

theorem yggdrasilAddr_spec (len : pub.length = 32) (some_ : true ∈ bits pub) :
    AddressOf pub (Go.yggdrasilAddr pub) := by
  obtain ⟨temp, addr, put⟩ := yggdrasilAddr_eq len some_
  have zeros := leadingZeros_lt len some_
  have rest := remaining_length len
  have behind : bits ((Go.yggdrasilAddr pub).drop 2) =
      ((remaining pub).take (8 * ((remaining pub).length / 8)) ++
        List.replicate 112 false).take 112 := by
    rw [addr, List.drop_succ_cons, List.drop_succ_cons, List.drop_zero, bits_take, bits_append,
      bits_replicate_zero, put]
  have whole : ((remaining pub).take (8 * ((remaining pub).length / 8))).length =
      8 * ((remaining pub).length / 8) := by
    rw [List.length_take]
    omega
  constructor
  · grind
  · rw [addr]
    rfl
  · rw [addr]
    exact congrArg some (UInt8.toNat_ofNat_of_lt' zeros)
  · grind
  · intro few
    rw [behind, List.take_append, whole, List.take_of_length_le (by omega), List.take_replicate,
      Nat.min_eq_left (by omega)]

end

def parseGroup (group : Bytes) : Option Bytes :=
  (group.mapM fun c => C.hexDigits.idxOf? c).bind fun digits =>
    if group ≠ [] ∧ number 16 digits < 65536 then
      some [UInt8.ofNat (number 16 digits / 256), UInt8.ofNat (number 16 digits)]
    else none

def parseIPv6 (text : Bytes) : Option Bytes :=
  let groups := text.splitOn colon
  if groups.length = 8 then (groups.mapM parseGroup).map List.flatten else none

theorem mapM_map_some {α β γ : Type} {f : α → β} {g : β → Option γ} {h : α → γ} {l : List α}
    (each : ∀ a ∈ l, g (f a) = some (h a)) : (l.map f).mapM g = some (l.map h) := by
  induction l with
  | nil => rfl
  | cons a l ih => grind

theorem mapM_idxOf_spell (small : ∀ d ∈ digits, d < 16) :
    ((spell C.hexDigits digits).mapM fun c => C.hexDigits.idxOf? c) = some digits := by
  have place : ∀ d < 16, C.hexDigits.idxOf? (C.hexDigits.getD d 0) = some d := by decide
  have all := mapM_map_some (f := fun d => C.hexDigits.getD d 0)
    (g := fun c => C.hexDigits.idxOf? c) (h := id) fun d mem => place d (small d mem)
  rwa [List.map_id] at all

theorem parseGroup_spell (some_ : digits ≠ []) (small : ∀ d ∈ digits, d < 16)
    (fits : number 16 digits < 65536) : parseGroup (spell C.hexDigits digits) =
      some [UInt8.ofNat (number 16 digits / 256), UInt8.ofNat (number 16 digits)] := by
  have text : spell C.hexDigits digits ≠ [] := by simpa [spell] using some_
  rw [parseGroup, mapM_idxOf_spell small, Option.bind_some, if_pos ⟨text, fits⟩]

theorem parseGroup_eq (a b : UInt8) : parseGroup (Go.hex a ++ Go.hex2 b) = some [a, b] := by
  have ha := a.toNat_lt
  have hb := b.toNat_lt
  have group : ∃ digits : List Nat, Go.hex a ++ Go.hex2 b = spell C.hexDigits digits ∧ digits ≠ [] ∧
      (∀ d ∈ digits, d < 16) ∧ number 16 digits = 256 * a.toNat + b.toNat := by
    by_cases one : a.toNat < 16
    · refine ⟨[a.toNat, b.toNat / 16, b.toNat % 16], ?_, by simp, ?_, ?_⟩
      · rw [Go.hex, if_pos one]
        rfl
      · grind
      · grind [number_eq_foldl]
    · refine ⟨[a.toNat / 16, a.toNat % 16, b.toNat / 16, b.toNat % 16], ?_, by simp, ?_, ?_⟩
      · rw [Go.hex, if_neg one]
        rfl
      · grind
      · grind [number_eq_foldl]
  obtain ⟨digits, text, some_, small, value⟩ := group
  have high : UInt8.ofNat (number 16 digits / 256) = a := by
    rw [value, show (256 * a.toNat + b.toNat) / 256 = a.toNat by omega, UInt8.ofNat_toNat]
  have low : UInt8.ofNat (number 16 digits) = b := by
    apply UInt8.toNat_inj.mp
    rw [UInt8.toNat_ofNat', value]
    omega
  rw [text, parseGroup_spell some_ small (by omega), high, low]

theorem parseIPv6_text {addr : Bytes} (len : addr.length = 16) :
    parseIPv6 ([colon].intercalate ((List.range 8).map fun n =>
      Go.hex (addr.getD (2 * n) 0) ++ Go.hex2 (addr.getD (2 * n + 1) 0))) = some addr := by
  have clean : ∀ l ∈ (List.range 8).map fun n =>
      Go.hex (addr.getD (2 * n) 0) ++ Go.hex2 (addr.getD (2 * n + 1) 0), colon ∉ l := by
    intro l mem
    obtain ⟨n, -, rfl⟩ := List.mem_map.mp mem
    rw [List.mem_append, not_or]
    exact ⟨colon_not_mem_hex _, colon_not_mem_hex2 _⟩
  rw [parseIPv6, List.splitOn_intercalate colon clean (by simp)]
  simp only [List.length_map, List.length_range, if_true]
  rw [mapM_map_some (h := fun n => [addr.getD (2 * n) 0, addr.getD (2 * n + 1) 0])
    fun n _ => parseGroup_eq _ _]
  match addr, len with
  | [_, _, _, _, _, _, _, _, _, _, _, _, _, _, _, _], _ => rfl

/-- The address of every key that is not zero is as it should be, and its text reads back. -/
theorem yggdrasil_exact (k : Crypto) (seed : Bytes) (some_ : true ∈ bits (k.ed25519Pub seed)) :
    AddressOf (k.ed25519Pub seed) (Go.yggdrasilAddr (k.ed25519Pub seed)) ∧
    parseIPv6 (Go.yggdrasilIPv6 k seed) = some (Go.yggdrasilAddr (k.ed25519Pub seed)) := by
  have spec := yggdrasilAddr_spec (k.ed25519Pub_length seed) some_
  exact ⟨spec, parseIPv6_text spec.length⟩

def vectorKey : Bytes :=
  [189, 186, 207, 216, 34, 64, 222, 61, 205, 18, 57, 36, 203, 181, 82, 86,
   251, 141, 171, 8, 170, 152, 227, 5, 82, 138, 184, 79, 65, 158, 110, 251]

theorem vectorKey_length : ∀ _ : Bytes, vectorKey.length = 32 := fun _ => rfl

def vectorCrypto : Crypto :=
  { onesCrypto with ed25519Pub := fun _ => vectorKey, ed25519Pub_length := vectorKey_length }

theorem yggdrasil_vector :
    Go.yggdrasilIPv6 vectorCrypto [] = ascii "200:848a:604f:bb7e:4384:65db:8db6:6895" ∧
    parseIPv6 (ascii "200:848a:604f:bb7e:4384:65db:8db6:6895") =
      some (Go.yggdrasilAddr vectorKey) := by
  have text : Go.yggdrasilIPv6 vectorCrypto [] =
      ascii "200:848a:604f:bb7e:4384:65db:8db6:6895" := by decide +kernel
  exact ⟨text, text ▸ (yggdrasil_exact vectorCrypto [] (by decide +kernel)).2⟩

end Fedkey
