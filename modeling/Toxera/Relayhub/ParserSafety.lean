import Toxera.Relayhub.Acceptance
import Toxera.Relayhub.Detect

/-!
# The parsers on arbitrary bytes

The lengths that end the process, where the parsers meet them.
-/

namespace Relayhub

open Protobuf

variable {b back data val : Bytes} {fuel n : Nat} {α β : Type}

theorem exists_front (inside : n ≤ b.length) : ∃ front back, b = front ++ back ∧ front.length = n :=
  ⟨b.take n, b.drop n, (List.take_append_drop n b).symm, List.length_take_of_le inside⟩

theorem sliceTo_append (front back : Bytes) :
    sliceTo (front ++ back) front.length = some front := by
  have inside : (0 : Int) ≤ front.length ∧ (front.length : Int) ≤ (front ++ back).length := by
    rw [List.length_append]
    omega
  rw [sliceTo, if_pos inside, Int.toNat_natCast, List.take_left]

theorem mapM_eq_map {f : α → Option β} {g : α → β} {l : List α} (h : ∀ a ∈ l, f a = some (g a)) :
    l.mapM f = some (l.map g) := by
  induction l with
  | nil => rfl
  | cons a l ih => grind

theorem mapM_isSome {f : α → Option β} {l : List α} (h : ∀ a ∈ l, (f a).isSome) :
    (l.mapM f).isSome := by
  induction l with
  | nil => rfl
  | cons a l ih =>
    obtain ⟨b, first⟩ := Option.isSome_iff_exists.mp (h a List.mem_cons_self)
    obtain ⟨bs, rest⟩ := Option.isSome_iff_exists.mp
      (ih fun a ha => h a (List.mem_cons_of_mem _ ha))
    simp [List.mapM_cons, first, rest]

theorem base58Encode_returns (data : Bytes) : (base58Encode data).isSome := by
  have size : base58Alphabet.length = 58 := by decide +kernel
  have digit {d : Nat} (small : d < 58) : (base58Alphabet[d]?).isSome := by
    rw [← size] at small
    simp [small]
  unfold base58Encode
  split_ifs
  · rfl
  · obtain ⟨chars, digits⟩ := Option.isSome_iff_exists.mp
      (mapM_isSome fun d hd => digit (Nat.digits_lt_base (by decide) hd))
    obtain ⟨zeros, leading⟩ := Option.isSome_iff_exists.mp
      (mapM_isSome (l := data.takeWhile (· = 0)) fun _ _ => digit (by decide : 0 < 58))
    rw [digits, Option.bind_some, leading]
    rfl

theorem store_returns (info : IdentifyInfo) (sha256 : Bytes → Bytes) (field : Nat) (val : Bytes) :
    (info.store sha256 field val).isSome := by
  unfold IdentifyInfo.store
  split_ifs
  · rw [Option.isSome_map]
    exact base58Encode_returns _
  all_goals rfl

/-- A byte string behind complete fields of wire type 0 and 2 whose length is negative as an
`int`. -/
inductive IdentifyOverrun : Bytes → Prop
  | length {tag size rest : Bytes} {n l : Nat} (tagged : Varint.Spells tag (8 * n + 2))
      (sized : Varint.Spells size l) (huge : 2 ^ 63 ≤ l) : IdentifyOverrun (tag ++ (size ++ rest))
  | next {bs rest : Bytes} {f : Field} (spells : f.Spells bs) (skippable : Skippable f)
      (later : IdentifyOverrun rest) : IdentifyOverrun (bs ++ rest)

section

variable {sha256 : Bytes → Bytes} {tag rest : Bytes} {wt : Nat}

theorem decodeVarint_append {bs : Bytes} {v : Nat} (h : Varint.Spells bs v) (rest : Bytes) :
    decodeVarint (bs ++ rest) = (UInt64.ofNat v, (bs.length : Int)) := by
  rw [decodeVarint, Varint.uvarint_append h]

theorem decodeVarint_spelled {bs : Bytes} {v : Nat} (h : Varint.Spells bs v) :
    ∃ v' : UInt64, v'.toNat = v ∧ ∀ rest, decodeVarint (bs ++ rest) = (v', (bs.length : Int)) :=
  ⟨UInt64.ofNat v, UInt64.toNat_ofNat_of_lt' h.fits, decodeVarint_append h⟩

theorem decodeVarint_broken (h : Varint.Broken rest) : (decodeVarint rest).2 ≤ 0 := h.uvarint_le

/-- The round of the loop after a complete tag. -/
theorem parseIdentifyLoop_tag (tagged : Varint.Spells tag (8 * n + wt)) (small : wt < 8)
    (info : IdentifyInfo) :
    parseIdentifyLoop sha256 (fuel + 1) (tag ++ rest) info =
      if wt ≠ 2 then
        if wt = 0 then
          match decodeVarint rest with
          | (_, n) =>
            if n ≤ 0 then some info
            else (sliceFrom rest n).bind fun rest => parseIdentifyLoop sha256 fuel rest info
        else some info
      else
        match decodeVarint rest with
        | (l, m) =>
          if m ≤ 0 then some info
          else
            (sliceFrom rest m).bind fun rest =>
            if rest.length < int64 l.toNat then some info
            else
              (sliceTo rest l.toNat).bind fun val =>
              (sliceFrom rest l.toNat).bind fun rest =>
              (info.store sha256 n val).bind fun info =>
              parseIdentifyLoop sha256 fuel rest info := by
  have pos := tagged.length_pos
  have some_left : ¬ (tag ++ rest).length = 0 := by
    rw [List.length_append]
    omega
  obtain ⟨v, tag64, read⟩ := decodeVarint_spelled tagged
  have number : (8 * n + wt) >>> 3 = n := by
    rw [Nat.shiftRight_eq_div_pow]
    omega
  have type : (8 * n + wt) &&& 7 = wt := by
    rw [show 7 = 2 ^ 3 - 1 from rfl, Nat.and_two_pow_sub_one_eq_mod]
    omega
  rw [parseIdentifyLoop, if_neg some_left]
  simp only [read, sliceFrom_append, Option.bind_some, tag64, number, type]
  rw [if_neg (by omega)]

/-- A complete field is stored or passed over. -/
theorem parseIdentifyLoop_field (sha256 : Bytes → Bytes) {f : Field} {bs : Bytes}
    (spells : f.Spells bs)
    (skippable : Skippable f) (int : (bs ++ rest).length < 2 ^ 63) (fuel : Nat)
    (info : IdentifyInfo) :
    ∃ info', parseIdentifyLoop sha256 (fuel + 1) (bs ++ rest) info =
      parseIdentifyLoop sha256 fuel rest info' := by
  obtain ⟨n, p⟩ := f
  obtain ⟨tag, body, tagged, spells, rfl⟩ := spells
  simp only [List.length_append] at int
  cases p with
  | varint v =>
    have pos : ¬ (body.length : Int) ≤ 0 := by
      have := Varint.Spells.length_pos spells
      omega
    obtain ⟨v', -, read⟩ := decodeVarint_spelled spells
    replace tagged : Varint.Spells tag (8 * n + 0) := tagged
    refine ⟨info, ?_⟩
    rw [List.append_assoc, parseIdentifyLoop_tag tagged (by decide), if_pos (by decide), if_pos rfl]
    simp only [read]
    rw [if_neg pos, sliceFrom_append, Option.bind_some]
  | bytes b =>
    obtain ⟨size, sized, rfl⟩ := spells
    rw [List.length_append] at int
    have pos : ¬ (size.length : Int) ≤ 0 := by
      have := sized.length_pos
      omega
    obtain ⟨l, len, read⟩ := decodeVarint_spelled sized
    have inside : ¬ ((b ++ rest).length : Int) < int64 l.toNat := by
      rw [len, int64_of_fits (by omega) (by omega), List.length_append]
      omega
    obtain ⟨info', stored⟩ := Option.isSome_iff_exists.mp (store_returns info sha256 n b)
    replace tagged : Varint.Spells tag (8 * n + 2) := tagged
    refine ⟨info', ?_⟩
    rw [List.append_assoc, List.append_assoc, parseIdentifyLoop_tag tagged (by decide),
      if_neg (not_not.mpr rfl)]
    simp only [read]
    rw [if_neg pos, sliceFrom_append, Option.bind_some, if_neg inside, len, sliceTo_append,
      Option.bind_some, sliceFrom_append, Option.bind_some, stored]
    rfl
  | fixed64 b => simp [Skippable, Payload.wireType] at skippable
  | fixed32 b => simp [Skippable, Payload.wireType] at skippable

theorem parseIdentifyLoop_length {size : Bytes} {l : Nat} (tagged : Varint.Spells tag (8 * n + 2))
    (sized : Varint.Spells size l) (huge : 2 ^ 63 ≤ l) (int : rest.length < 2 ^ 63) (fuel : Nat)
    (info : IdentifyInfo) :
    parseIdentifyLoop sha256 fuel (tag ++ (size ++ rest)) info = none := by
  cases fuel with
  | zero => rfl
  | succ fuel =>
    have pos : ¬ (size.length : Int) ≤ 0 := by
      have := sized.length_pos
      omega
    have fits := sized.fits
    obtain ⟨v, rfl, read⟩ := decodeVarint_spelled sized
    have passes : ¬ (rest.length : Int) < int64 v.toNat := by
      rw [int64_wraps (by omega) (by omega)]
      omega
    have outside : sliceTo rest v.toNat = none := if_neg (by omega)
    rw [parseIdentifyLoop_tag tagged (by decide), if_neg (not_not.mpr rfl)]
    simp only [read]
    rw [if_neg pos, sliceFrom_append, Option.bind_some, if_neg passes, outside]
    rfl

theorem IdentifyOverrun.crashes (h : IdentifyOverrun data) (int : data.length < 2 ^ 63)
    (info : IdentifyInfo) : parseIdentifyLoop sha256 fuel data info = none := by
  induction h generalizing fuel info with
  | @length tag size rest n l tagged sized huge =>
    simp only [List.length_append] at int
    exact parseIdentifyLoop_length tagged sized huge (by omega) fuel info
  | @next bs rest f spells skippable _ ih =>
    cases fuel with
    | zero => rfl
    | succ fuel =>
      obtain ⟨info', eq⟩ := parseIdentifyLoop_field sha256 spells skippable int fuel info
      rw [List.length_append] at int
      rw [eq]
      exact ih (by omega) info'

theorem identifyOverrun_of_crash {info : IdentifyInfo} (int : rest.length < 2 ^ 63)
    (enough : rest.length < fuel) (crash : parseIdentifyLoop sha256 fuel rest info = none) :
    IdentifyOverrun rest := by
  induction fuel generalizing rest info with
  | zero => exact absurd enough (Nat.not_lt_zero _)
  | succ fuel ih =>
    rcases Varint.broken_or_spells rest with broken | ⟨tag, rest, v, rfl, tagged⟩
    · have none_left : (decodeVarint rest).2 ≤ 0 := decodeVarint_broken broken
      rw [parseIdentifyLoop] at crash
      simp [none_left] at crash
    · have small : v % 8 < 8 := Nat.mod_lt v (by decide)
      have pos := tagged.length_pos
      rw [← Nat.div_add_mod v 8] at tagged
      rcases payload_cases (v % 8) rest with type | ⟨type, broken⟩ |
        ⟨p, body, rest, wire, type, rfl, spells⟩ | ⟨size, l, rest, type, rfl, sized, beyond⟩
      · rw [parseIdentifyLoop_tag tagged small] at crash
        simp [type] at crash
      · have none_left : (decodeVarint rest).2 ≤ 0 := decodeVarint_broken broken
        rw [parseIdentifyLoop_tag tagged small] at crash
        rcases type with type | type <;> simp [type, none_left] at crash
      · have whole : Field.Spells (tag ++ body) ⟨v / 8, p⟩ :=
          ⟨tag, body, by rwa [wire], spells, rfl⟩
        have skippable : Skippable ⟨v / 8, p⟩ := by
          rw [Skippable, wire]
          exact type
        rw [← List.append_assoc] at int crash ⊢
        obtain ⟨info', eq⟩ :=
          parseIdentifyLoop_field sha256 whole skippable int fuel info
        rw [eq] at crash
        simp only [List.length_append] at int enough
        exact .next whole skippable (ih (by omega) (by omega) crash)
      · rw [type] at tagged
        refine .length tagged sized (not_lt.mp fun fits => ?_)
        obtain ⟨l, rfl, read⟩ := decodeVarint_spelled sized
        have refused : (rest.length : Int) < int64 l.toNat := by
          rw [int64_of_fits (by omega) (by omega)]
          omega
        rw [parseIdentifyLoop_tag tagged (by decide), if_neg (not_not.mpr rfl)] at crash
        simp only [read] at crash
        rw [sliceFrom_append, Option.bind_some, if_pos refused] at crash
        split_ifs at crash

end

theorem maProtos_sizes : ∀ q ∈ maProtos, (q.2.name = "ip4" → q.2.size = 4) ∧
    (q.2.name = "ip6" → q.2.size = 16) ∧
    (q.2.name = "tcp" ∨ q.2.name = "udp" → q.2.size = 2) := by
  decide +kernel

theorem maValue_returns {p : MaProto} {code : Nat} (known : maProtos.lookup code = some p)
    (size : 0 < p.size → val.length = p.size) : (maValue p.name val).isSome := by
  obtain ⟨front, back, split, -⟩ := List.lookup_eq_some_iff.mp known
  obtain ⟨ip4, ip6, ports⟩ := maProtos_sizes (code, p) (by rw [split]; simp)
  unfold maValue
  split_ifs with h₄ h₆ hp
  · grind [mapM_isSome]
  · grind [mapM_isSome, hexGroup]
  · grind
  · rw [Option.isSome_map]
    exact base58Encode_returns val
  · rfl
  · rfl

theorem end_position {bs : Bytes} (int : (bs ++ (val ++ back)).length < 2 ^ 63) :
    int64 ((bs.length : Int) + val.length) = (bs ++ val).length := by
  simp only [List.length_append] at int ⊢
  rw [int64_of_fits (by omega) (by omega), Int.natCast_add]

section Counted

variable {size : Int} {bs rest : Bytes} {v : UInt64}

theorem left_unsigned (int : (bs ++ rest).length < 2 ^ 63) :
    (((bs ++ rest).length : Int) - bs.length) % 2 ^ 64 = rest.length := by
  rw [List.length_append] at int ⊢
  omega

theorem maTake_beyond (counted : ¬ 0 < size)
    (read : decodeVarint (bs ++ rest) = (v, (bs.length : Int)))
    (int : (bs ++ rest).length < 2 ^ 63) (beyond : rest.length < v.toNat) :
    maTake size (bs ++ rest) = some none := by
  unfold maTake
  rw [if_neg counted]
  simp only [read, left_unsigned int]
  exact if_pos (Or.inr (Int.ofNat_lt.mpr beyond))

theorem maTake_counted (counted : ¬ 0 < size)
    (read : decodeVarint (bs ++ (val ++ back)) = (v, (bs.length : Int)))
    (pos : ¬ (bs.length : Int) ≤ 0) (int : (bs ++ (val ++ back)).length < 2 ^ 63)
    (len : val.length = v.toNat) : maTake size (bs ++ (val ++ back)) = some (some (val, back)) := by
  have fits : int64 (val.length : Int) = val.length := by grind [int64_of_fits]
  have inside : ¬ ((val ++ back).length : Int) < val.length := by
    rw [List.length_append]
    omega
  unfold maTake
  rw [if_neg counted]
  simp only [read, left_unsigned int, ← len]
  rw [if_neg (not_or.mpr ⟨pos, inside⟩), fits, end_position int, ← List.append_assoc,
    sliceTo_append, Option.bind_some, sliceFrom_append, Option.bind_some, sliceFrom_append]
  rfl

end Counted

theorem maTake_fixed {size : Int} (fixed : 0 < size) (len : val.length = size) (back : Bytes) :
    maTake size (val ++ back) = some (some (val, back)) := by
  have inside : ¬ ((val ++ back).length : Int) < val.length := by
    rw [List.length_append]
    omega
  unfold maTake
  rw [if_pos fixed, ← len, if_neg inside, sliceTo_append, Option.bind_some, sliceFrom_append]
  rfl

theorem maTake_cases (size : Int) (int : b.length < 2 ^ 63) :
    maTake size b = some none ∨ ∃ val used rest, b = used ++ rest ∧
      maTake size b = some (some (val, rest)) ∧ (0 < size → val.length = size) := by
  by_cases fixed : 0 < size
  · by_cases short : (b.length : Int) < size
    · grind [maTake]
    · obtain ⟨n, rfl⟩ := Int.eq_ofNat_of_zero_le fixed.le
      obtain ⟨val, back, rfl, rfl⟩ := exists_front (by omega : n ≤ b.length)
      exact Or.inr ⟨val, val, back, rfl, maTake_fixed fixed rfl back, fun _ => rfl⟩
  · rcases decodeVarint_cases b with ⟨v, n, read, none⟩ | ⟨bs, rest, v, rfl, spells, read, pos⟩
    · grind [maTake, read]
    · by_cases beyond : rest.length < v.toNat
      · exact Or.inl (maTake_beyond fixed read int beyond)
      · obtain ⟨val, back, rfl, len⟩ := exists_front (by omega : v.toNat ≤ rest.length)
        exact Or.inr ⟨val, bs ++ val, back, (List.append_assoc ..).symm,
          maTake_counted fixed read pos int len, fun h => absurd h fixed⟩

/-- What is behind an unknown code: a length that is skipped, or a value that is left, or a
length that is negative and reaches beyond the front. -/
theorem maSkip_cases (int : b.length < 2 ^ 63) :
    (∃ size rest v, b = size ++ rest ∧ Varint.Spells size v ∧ 2 ^ 63 ≤ v ∧
      v + size.length < 2 ^ 64 ∧ maSkip b = none) ∨
    ∃ used rest, b = used ++ rest ∧ maSkip b = some rest := by
  unfold maSkip
  rcases decodeVarint_cases b with ⟨v, n, read, none⟩ | ⟨bs, rest, v, rfl, spells, read, pos⟩
  · refine .inr ⟨[], b, rfl, ?_⟩
    simp only [read]
    rw [if_neg (by omega)]
  · have v64 := v.toNat_lt
    simp only [read]
    split_ifs with small
    · obtain ⟨-, small, -⟩ := small
      rw [List.length_append] at small int
      rcases Nat.lt_or_ge v.toNat (2 ^ 63) with fits | huge
      · rw [int64_of_fits (x := v.toNat) (by omega) (by omega)] at small ⊢
        obtain ⟨val, back, rfl, len⟩ := exists_front (by omega : v.toNat ≤ rest.length)
        refine .inr ⟨bs ++ val, back, (List.append_assoc ..).symm, ?_⟩
        rw [← len, end_position (by simpa using int), ← List.append_assoc, sliceFrom_append]
      · have short : bs.length ≤ 10 := spells.short
        rw [int64_wraps (x := v.toNat) (by omega) (by omega), int64_of_fits (by omega) (by omega)]
        rcases Nat.lt_or_ge (v.toNat + bs.length) (2 ^ 64) with below | back
        · exact .inl ⟨bs, rest, _, rfl, spells, huge, below, if_neg (by omega)⟩
        · -- the position is one of the bytes of the varint itself
          obtain ⟨front, tail, rfl, len⟩ :=
            exists_front (by omega : v.toNat + bs.length - 2 ^ 64 ≤ bs.length)
          refine .inr ⟨front, tail ++ rest, List.append_assoc .., ?_⟩
          rw [List.append_assoc, ← sliceFrom_append front]
          congr 1
          omega
    · exact .inr ⟨[], _, rfl, rfl⟩

/-- An unknown code before a length that is negative as an `int`, where the loop reads one. -/
inductive AddressOverrun : Bytes → Prop
  | length {code size rest : Bytes} {c v : Nat} (named : Varint.Spells code c)
      (unknown : maProtos.lookup c = none) (sized : Varint.Spells size v) (huge : 2 ^ 63 ≤ v)
      (below : v + size.length < 2 ^ 64) : AddressOverrun (code ++ (size ++ rest))
  | skip {code b rest : Bytes} {c : Nat} (named : Varint.Spells code c)
      (unknown : maProtos.lookup c = none) (skipped : maSkip b = some rest)
      (later : AddressOverrun rest) : AddressOverrun (code ++ b)
  | empty {code b : Bytes} {c : Nat} {p : MaProto} (named : Varint.Spells code c)
      (known : maProtos.lookup c = some p) (size : p.size = 0) (later : AddressOverrun b) :
      AddressOverrun (code ++ b)
  | take {code b val rest : Bytes} {c : Nat} {p : MaProto} (named : Varint.Spells code c)
      (known : maProtos.lookup c = some p) (size : p.size ≠ 0)
      (taken : maTake p.size b = some (some (val, rest))) (later : AddressOverrun rest) :
      AddressOverrun (code ++ b)

theorem multiaddrLoop_code {code rest : Bytes} {c : Nat} (named : Varint.Spells code c)
    (fuel : Nat) (s : Bytes) :
    multiaddrLoop (fuel + 1) (code ++ rest) s =
      match maProtos.lookup c with
      | none =>
        (maSkip rest).bind fun b =>
          multiaddrLoop fuel b (s ++ ascii "/<proto-" ++ decimal c ++ ascii ">")
      | some p =>
        if p.size = 0 then multiaddrLoop fuel rest (s ++ ascii "/" ++ ascii p.name)
        else
          (maTake p.size rest).bind fun
            | none => some (s ++ ascii "/" ++ ascii p.name)
            | some (val, b) =>
              (maValue p.name val).bind fun v =>
                multiaddrLoop fuel b (s ++ ascii "/" ++ ascii p.name ++ v) := by
  have pos := named.length_pos
  have some_left : ¬ (code ++ rest).length = 0 := by
    rw [List.length_append]
    omega
  obtain ⟨v, c64, read⟩ := decodeVarint_spelled named
  rw [multiaddrLoop, if_neg some_left]
  simp only [read, sliceFrom_append, Option.bind_some, c64]
  exact if_neg (by omega)

theorem AddressOverrun.crashes (h : AddressOverrun b) (int : b.length < 2 ^ 63) (s : Bytes) :
    multiaddrLoop fuel b s = none := by
  induction h generalizing fuel s with
  | @length code size rest c v named unknown sized huge below =>
    cases fuel with
    | zero => rfl
    | succ fuel =>
      simp only [List.length_append] at int
      obtain ⟨v', v64, read⟩ := decodeVarint_spelled sized
      have pos := sized.length_pos
      have short : size.length ≤ 10 := sized.short
      have crash : maSkip (size ++ rest) = none := by
        unfold maSkip
        simp only [read, v64, List.length_append]
        rw [int64_wraps (x := v) (by omega) (by omega), if_pos (by omega),
          int64_of_fits (by omega) (by omega)]
        exact if_neg (by omega)
      rw [multiaddrLoop_code named]
      simp only [unknown, crash]
      rfl
  | @skip code b rest c named unknown skipped _ ih =>
    cases fuel with
    | zero => rfl
    | succ fuel =>
      rw [List.length_append] at int
      have shorter : rest.length < 2 ^ 63 := by
        rcases maSkip_cases (b := b) (by omega) with ⟨_, _, _, -, -, -, -, crash⟩ |
          ⟨used, rest', rfl, skipped'⟩
        · simp [crash] at skipped
        · rw [skipped, Option.some.injEq] at skipped'
          rw [List.length_append, ← skipped'] at int
          omega
      rw [multiaddrLoop_code named]
      simp only [unknown, skipped, Option.bind_some]
      exact ih shorter _
  | @empty code b c p named known size _ ih =>
    cases fuel with
    | zero => rfl
    | succ fuel =>
      rw [List.length_append] at int
      rw [multiaddrLoop_code named]
      simp only [known, if_pos size]
      exact ih (by omega) _
  | @take code b val rest c p named known size taken _ ih =>
    cases fuel with
    | zero => rfl
    | succ fuel =>
      rw [List.length_append] at int
      have shorter : rest.length < 2 ^ 63 := by
        rcases maTake_cases (b := b) p.size (by omega) with
          ended | ⟨val', used, rest', rfl, taken', -⟩
        · simp [taken] at ended
        · rw [taken, Option.some.injEq, Option.some.injEq, Prod.mk.injEq] at taken'
          rw [List.length_append, ← taken'.2] at int
          omega
      rw [multiaddrLoop_code named]
      simp only [known, if_neg size, taken, Option.bind_some]
      cases maValue p.name val with
      | none => rfl
      | some v => exact ih shorter _

theorem addressOverrun_of_crash {s : Bytes} (int : b.length < 2 ^ 63) (enough : b.length < fuel)
    (crash : multiaddrLoop fuel b s = none) : AddressOverrun b := by
  induction fuel generalizing b s with
  | zero => exact absurd enough (Nat.not_lt_zero _)
  | succ fuel ih =>
    rcases Varint.broken_or_spells b with broken | ⟨code, rest, c, rfl, named⟩
    · have none_left : (decodeVarint b).2 ≤ 0 := decodeVarint_broken broken
      rw [multiaddrLoop] at crash
      simp [none_left] at crash
    · have pos := named.length_pos
      rw [List.length_append] at int enough
      rw [multiaddrLoop_code named] at crash
      cases known : maProtos.lookup c with
      | none =>
        simp only [known] at crash
        rcases maSkip_cases (b := rest) (by omega) with
          ⟨size, rest', v, rfl, sized, huge, below, -⟩ | ⟨used, rest', rfl, skipped⟩
        · exact .length named known sized huge below
        · simp only [skipped, Option.bind_some] at crash
          rw [List.length_append] at int enough
          exact .skip named known skipped (ih (by omega) (by omega) crash)
      | some p =>
        simp only [known] at crash
        split_ifs at crash with size
        · exact .empty named known size (ih (by omega) (by omega) crash)
        · rcases maTake_cases (b := rest) p.size (by omega) with ended |
            ⟨val, used, rest', rfl, taken, fixed⟩
          · simp [ended] at crash
          · obtain ⟨v, value⟩ := Option.isSome_iff_exists.mp (maValue_returns known fixed)
            simp only [taken, value, Option.bind_some] at crash
            rw [List.length_append] at int enough
            exact .take named known size taken (ih (by omega) (by omega) crash)

/-- Each parser ends the process exactly on the lengths it meets that wrap around. -/
theorem parsers_return_iff (sha256 : Bytes → Bytes) (data : Bytes) (int : data.length < 2 ^ 62) :
    ((decodeHopMessage data).run.isSome ↔ ¬ Scan .hop 0 data .overrun) ∧
    ((decodeStopMessage data).run.isSome ↔ ¬ Scan .stop 0 data .overrun) ∧
    ((decodeCircuitV1 data).run.isSome ↔ ¬ Scan .circuitV1 0 data .overrun) ∧
    ((parseIdentify sha256 data).isSome ↔ ¬ IdentifyOverrun data) ∧
    ((multiaddrString data).isSome ↔ ¬ AddressOverrun data) := by
  have returns (k : Kind) : (k.decode data).run.isSome ↔ ¬ Scan k 0 data .overrun := by
    rw [← (Kind.decode_iff_scan int).2, Option.isSome_iff_ne_none]
  refine ⟨returns .hop, returns .stop, returns .circuitV1, ?_, ?_⟩
  · rw [Option.isSome_iff_ne_none, ne_eq, not_iff_not]
    exact ⟨identifyOverrun_of_crash (by omega) (Nat.lt_succ_self _),
      fun h => h.crashes (by omega) _⟩
  · rw [Option.isSome_iff_ne_none, ne_eq, not_iff_not]
    exact ⟨addressOverrun_of_crash (by omega) (Nat.lt_succ_self _), fun h => h.crashes (by omega) _⟩

def hugeLength : Bytes := List.replicate 9 255 ++ [1]

/-- Behind a field that runs out of the data the length is met; inside of a complete one, or
behind an unknown code where it leads back into itself, it is not. -/
theorem parsers_return_huge :
    Scan .hop 0 ([0x7a, 12, 0x12] ++ hugeLength) .overrun ∧
    ¬ Scan .hop 0 ([0x7a, 11, 0x12] ++ hugeLength) .overrun ∧
    ¬ AddressOverrun ([0x7f] ++ hugeLength) := by
  obtain ⟨hop, -⟩ := parsers_return_iff id ([0x7a, 12, 0x12] ++ hugeLength) (by decide)
  obtain ⟨hop', -⟩ := parsers_return_iff id ([0x7a, 11, 0x12] ++ hugeLength) (by decide)
  obtain ⟨-, -, -, -, address⟩ := parsers_return_iff id ([0x7f] ++ hugeLength) (by decide)
  exact ⟨not_not.mp (hop.not.mp (by decide +kernel)), hop'.mp (by decide +kernel),
    address.mp (by decide +kernel)⟩

/-- A peer of that length, in each of the messages; a key of that length; and 2⁶³ behind an
unknown code. -/
theorem huge_lengths_crash :
    (PbDecoder.after [0x12] hugeLength).readBytes = none ∧
    (decodeHopMessage ([0x12] ++ hugeLength)).run = none ∧
    (decodeStopMessage ([0x12] ++ hugeLength)).run = none ∧
    (decodeCircuitV1 ([0x12] ++ hugeLength)).run = none ∧
    (∀ sha256, parseIdentify sha256 ([0x0a] ++ hugeLength) = none) ∧
    maSkip (List.replicate 9 128 ++ [1]) = none ∧
    multiaddrString ([0x7f] ++ (List.replicate 9 128 ++ [1])) = none := by
  refine ⟨by decide +kernel, by decide +kernel, by decide +kernel, by decide +kernel, ?_,
    by decide +kernel, by decide +kernel⟩
  intro sha256
  have read : decodeVarint ([0x0a] ++ hugeLength) = (10, 1) := by decide +kernel
  have cut : sliceFrom ([0x0a] ++ hugeLength) 1 = some hugeLength := by decide +kernel
  have read' : decodeVarint hugeLength = (18446744073709551615, 10) := by decide +kernel
  have cut' : sliceFrom hugeLength 10 = some [] := by decide +kernel
  have crash : sliceTo [] ((18446744073709551615 : UInt64).toNat : Int) = none := by decide +kernel
  have passes : ¬ (([] : Bytes).length : Int) < int64 (18446744073709551615 : UInt64).toNat := by
    decide +kernel
  rw [parseIdentify, parseIdentifyLoop, if_neg (by decide +kernel), read]
  dsimp only
  rw [if_neg (by decide), cut, Option.bind_some, read']
  dsimp only
  rw [if_neg (by decide +kernel), if_neg (by decide), cut', Option.bind_some, if_neg passes, crash]
  rfl

end Relayhub
