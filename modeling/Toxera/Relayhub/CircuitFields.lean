import Toxera.Relayhub.CircuitPb

/-!
# Decoding well-formed fields

On bytes that spell varints and byte strings, the loop of a decoder is a fold over
the fields.
-/

namespace Relayhub

open Protobuf

variable {body bs size : Bytes} {f : Field} {fs : List Field}

theorem sliceFrom_append (bs rest : Bytes) : sliceFrom (bs ++ rest) bs.length = some rest := by
  have inside : (0 : Int) ≤ bs.length ∧ (bs.length : Int) ≤ (bs ++ rest).length := by
    rw [List.length_append]
    omega
  rw [sliceFrom, if_pos inside, Int.toNat_natCast, List.drop_left]

theorem decodeVarint_cases (data : Bytes) :
    (∃ v n, decodeVarint data = (v, n) ∧ n ≤ 0) ∨
      ∃ bs rest v, data = bs ++ rest ∧ Varint.Spells bs v.toNat ∧
        decodeVarint data = (v, (bs.length : Int)) ∧ ¬ (bs.length : Int) ≤ 0 := by
  rcases Varint.uvarint_cases data with none | ⟨bs, rest, v, split, spells, read⟩
  · exact Or.inl ⟨_, _, rfl, none⟩
  · have v64 : (UInt64.ofNat v).toNat = v := UInt64.toNat_ofNat_of_lt' spells.fits
    have pos := spells.length_pos
    refine Or.inr ⟨bs, rest, UInt64.ofNat v, split, by rwa [v64], ?_, by omega⟩
    rw [decodeVarint, read]

namespace PbDecoder

def after (pre rest : Bytes) : PbDecoder := ⟨pre ++ rest, pre.length⟩

@[simp] theorem after_length (pre rest : Bytes) :
    (after pre rest).data.length = pre.length + rest.length := List.length_append

@[simp] theorem after_pos (pre rest : Bytes) : (after pre rest).pos = pre.length := rfl

theorem more_after {tag : Bytes} (pos : 0 < tag.length) (pre rest : Bytes) :
    (after pre (tag ++ rest)).pos < (after pre (tag ++ rest)).data.length := by
  simp only [after_pos, after_length, List.length_append]
  omega

theorem remaining_after (pre rest : Bytes) : (after pre rest).remaining = some rest :=
  sliceFrom_append pre rest

theorem advance_after (pre bs rest : Bytes) :
    { after pre (bs ++ rest) with pos := (after pre (bs ++ rest)).pos + bs.length } =
      after (pre ++ bs) rest := by
  simp [after]

theorem readVarint_after {v : UInt64} (h : Varint.Spells bs v.toNat) (pre rest : Bytes) :
    (after pre (bs ++ rest)).readVarint = some (.ok v, after (pre ++ bs) rest) := by
  have read : ¬ (bs.length : Int) ≤ 0 := by
    have := h.length_pos
    omega
  rw [readVarint, remaining_after, Option.map_some, decodeVarint, Varint.uvarint_append h]
  simp only [UInt64.ofNat_toNat, if_neg read, advance_after]

theorem readVarint_broken {rest : Bytes} (h : Varint.Broken rest) (pre : Bytes) :
    (after pre rest).readVarint = some (.error "varint decode failed", after pre rest) := by
  rw [readVarint, remaining_after, Option.map_some, decodeVarint]
  exact congrArg some (if_pos h.uvarint_le)

theorem readBytes_after {b rest pre : Bytes} (h : Varint.Spells size b.length)
    (int : (pre ++ (size ++ (b ++ rest))).length < 2 ^ 63) :
    (after pre (size ++ (b ++ rest))).readBytes =
      some (.ok b, after (pre ++ size ++ b) rest) := by
  have size64 : (UInt64.ofNat b.length).toNat = b.length :=
    UInt64.toNat_ofNat_of_lt' h.fits
  rw [← size64] at h
  simp only [List.length_append] at int
  rw [readBytes, readVarint_after h, Option.bind_some]
  simp only [size64]
  have len : int64 (b.length : Int) = b.length := int64_of_fits (by omega) (by omega)
  have pos : int64 ((after (pre ++ size) (b ++ rest)).pos + b.length) =
      (after (pre ++ size) (b ++ rest)).pos + b.length := by
    rw [after_pos, List.length_append]
    exact int64_of_fits (by omega) (by omega)
  have inside : ¬ ((after (pre ++ size) (b ++ rest)).data.length : Int) <
      (after (pre ++ size) (b ++ rest)).pos + b.length := by
    simp only [after_length, after_pos, List.length_append]
    omega
  have made : ¬ (after (pre ++ size) (b ++ rest)).data.length < b.length := by
    simp only [after_length, List.length_append]
    omega
  rw [len, pos, if_neg inside, if_neg made, remaining_after, Option.map_some, List.take_left,
    List.length_append, Nat.sub_eq_zero_of_le (Nat.le_add_right _ _), List.replicate_zero,
    List.append_nil, advance_after]

theorem readBytes_broken {rest : Bytes} (h : Varint.Broken rest) (pre : Bytes) :
    (after pre rest).readBytes = some (.error "varint decode failed", after pre rest) := by
  rw [readBytes, readVarint_broken h, Option.bind_some]

theorem readBytes_overflow {l : UInt64} (h : Varint.Spells size l.toNat) {pre rest : Bytes}
    (beyond : rest.length < l.toNat) (fits : (pre ++ size).length + l.toNat < 2 ^ 63) :
    (after pre (size ++ rest)).readBytes =
      some (.error "bytes overflow", after (pre ++ size) rest) := by
  have len : int64 (l.toNat : Int) = l.toNat := int64_of_fits (by omega) (by omega)
  have pos : int64 ((after (pre ++ size) rest).pos + l.toNat) =
      (after (pre ++ size) rest).pos + l.toNat := by
    rw [after_pos]
    exact int64_of_fits (by omega) (by omega)
  have refused : ((after (pre ++ size) rest).data.length : Int) <
      (after (pre ++ size) rest).pos + l.toNat := by
    rw [after_length, after_pos]
    omega
  rw [readBytes, readVarint_after h, Option.bind_some]
  simp only [len, pos, if_pos refused]

theorem decodeTag_after {tag : Bytes} {n wt : Nat} (h : Varint.Spells tag (8 * n + wt))
    (small : wt < 8) (pre rest : Bytes) :
    (after pre (tag ++ rest)).decodeTag = some (.ok (n, wt), after (pre ++ tag) rest) := by
  have tag64 : (UInt64.ofNat (8 * n + wt)).toNat = 8 * n + wt := UInt64.toNat_ofNat_of_lt' h.fits
  have more : ¬ ((after pre (tag ++ rest)).data.length : Int) ≤ (after pre (tag ++ rest)).pos :=
    not_le.mpr (more_after h.length_pos pre rest)
  rw [← tag64] at h
  rw [decodeTag, if_neg more, readVarint_after h, Option.map_some]
  simp only [tag64]
  rw [Nat.shiftRight_eq_div_pow, show 7 = 2 ^ 3 - 1 from rfl, Nat.and_two_pow_sub_one_eq_mod]
  congr 4 <;> omega

end PbDecoder

variable {M : Type}

def readField (cases : Nat → Option (Case M)) (m : M) (f : Field) : Outcome M :=
  match cases f.number with
  | none => pure m
  | some c =>
    match c.slot, f.payload with
    | .varint set, .varint v => pure (set v m)
    | .bytes set, .bytes b => set b m
    | _, p => throw (c.wrongType p.wireType)

def Skippable (f : Field) : Prop := f.payload.wireType = 0 ∨ f.payload.wireType = 2

open PbDecoder

theorem skip_after {p : Payload} {rest pre : Bytes} (spells : p.Spells body)
    (skippable : p.wireType = 0 ∨ p.wireType = 2) (int : (pre ++ (body ++ rest)).length < 2 ^ 63) :
    (after pre (body ++ rest)).skip p.wireType = some (after (pre ++ body) rest) := by
  cases p with
  | varint v =>
    rw [Payload.wireType, skip, if_pos rfl, readVarint_after spells]
    rfl
  | bytes b =>
    obtain ⟨size, spells, rfl⟩ := spells
    rw [List.append_assoc] at int ⊢
    rw [Payload.wireType, skip, if_neg (by decide), if_pos rfl, readBytes_after spells int,
      ← List.append_assoc]
    rfl
  | fixed64 b => simp [Payload.wireType] at skippable
  | fixed32 b => simp [Payload.wireType] at skippable

theorem read_after (cases : Nat → Option (Case M)) {c : Case M} (known : cases f.number = some c)
    {rest pre : Bytes} (spells : f.payload.Spells body)
    (int : (pre ++ (body ++ rest)).length < 2 ^ 63) (m : M) :
    c.read f.payload.wireType (after pre (body ++ rest)) m =
      (readField cases m f).run.map fun r => r.map fun m => (after (pre ++ body) rest, m) := by
  rw [readField, known]
  obtain ⟨n, p⟩ := f
  obtain ⟨name, slot⟩ := c
  cases slot with
  | varint set =>
    cases p with
    | varint v =>
      simp only [Case.read, Payload.wireType, ne_eq, not_true_eq_false, if_false,
        readVarint_after spells, Option.map_some]
      rfl
    | _ => rfl
  | bytes set =>
    cases p with
    | bytes b =>
      obtain ⟨size, spells, rfl⟩ := spells
      rw [List.append_assoc] at int ⊢
      simp only [Case.read, Payload.wireType, ne_eq, not_true_eq_false, if_false,
        readBytes_after spells int, Option.bind_some]
      rw [← List.append_assoc]
    | _ => rfl

section

variable (cases : Nat → Option (Case M)) {tag : Bytes} {n wt : Nat}
  (tagged : Varint.Spells tag (8 * n + wt)) (small : wt < 8) (pre rest : Bytes) (fuel : Nat) (m : M)
include tagged small

theorem decodeLoop_unknown (unknown : cases n = none) :
    decodeLoop cases (fuel + 1) (after pre (tag ++ rest)) m =
      ExceptT.mk (((after (pre ++ tag) rest).skip wt).bind fun d =>
        (decodeLoop cases fuel d m).run) := by
  rw [decodeLoop, if_pos (more_after tagged.length_pos pre rest), decodeTag_after tagged small,
    Option.bind_some]
  simp only [unknown]
  rfl

theorem decodeLoop_known {c : Case M} (known : cases n = some c) :
    decodeLoop cases (fuel + 1) (after pre (tag ++ rest)) m =
      ExceptT.mk (c.read wt (after (pre ++ tag) rest) m) >>= fun r =>
        decodeLoop cases fuel r.1 r.2 := by
  rw [decodeLoop, if_pos (more_after tagged.length_pos pre rest), decodeTag_after tagged small,
    Option.bind_some]
  simp only [known]
  cases c.read wt (after (pre ++ tag) rest) m with
  | none => rfl
  | some r => cases r <;> rfl

end

theorem decodeLoop_field (cases : Nat → Option (Case M)) (spells : f.Spells bs)
    (skippable : Skippable f) {pre rest : Bytes} (int : (pre ++ (bs ++ rest)).length < 2 ^ 63)
    (fuel : Nat) (m : M) :
    decodeLoop cases (fuel + 1) (after pre (bs ++ rest)) m =
      readField cases m f >>= decodeLoop cases fuel (after (pre ++ bs) rest) := by
  obtain ⟨tag, body, tagged, spells, rfl⟩ := spells
  rw [List.append_assoc tag, ← List.append_assoc pre tag] at int
  rw [List.append_assoc tag, ← List.append_assoc pre tag]
  cases known : cases f.number with
  | none =>
    rw [decodeLoop_unknown cases tagged f.payload.wireType_lt pre _ fuel m known,
      skip_after spells skippable int, readField, known]
    rfl
  | some c =>
    rw [decodeLoop_known cases tagged f.payload.wireType_lt pre _ fuel m known,
      read_after cases known spells int]
    cases readField cases m f with
    | none => rfl
    | some r => cases r <;> rfl

theorem decodeLoop_append (cases : Nat → Option (Case M)) (spells : SpellsAll bs fs)
    (skippable : ∀ f ∈ fs, Skippable f) {pre rest : Bytes}
    (int : (pre ++ (bs ++ rest)).length < 2 ^ 63) {fuel : Nat} (enough : (bs ++ rest).length < fuel) :
    ∃ fuel', rest.length < fuel' ∧ ∀ m, decodeLoop cases fuel (after pre (bs ++ rest)) m =
      fs.foldlM (readField cases) m >>= decodeLoop cases fuel' (after (pre ++ bs) rest) := by
  induction spells generalizing pre fuel with
  | nil =>
    refine ⟨fuel, enough, fun m => ?_⟩
    rw [List.nil_append, List.append_nil, List.foldlM_nil, pure_bind]
  | @cons bs cs f fs first _ ih =>
    have pos := first.length_pos
    obtain ⟨fuel, rfl⟩ := Nat.exists_eq_add_one.mpr (Nat.zero_lt_of_lt enough)
    rw [List.append_assoc] at int enough ⊢
    have int' : (pre ++ bs ++ (cs ++ rest)).length < 2 ^ 63 := by rwa [List.append_assoc]
    have enough' : (cs ++ rest).length < fuel := by grind
    obtain ⟨fuel', left, reads⟩ :=
      ih (fun g hg => skippable g (List.mem_cons_of_mem _ hg)) int' enough'
    refine ⟨fuel', left, fun m => ?_⟩
    rw [decodeLoop_field cases first (skippable f List.mem_cons_self) int, List.foldlM_cons,
      bind_assoc]
    congr 1
    funext m'
    rw [reads, ← List.append_assoc]

theorem decodeLoop_done (cases : Nat → Option (Case M)) {fuel : Nat} (enough : 0 < fuel)
    (pre : Bytes) (m : M) : decodeLoop cases fuel (after pre []) m = pure m := by
  obtain ⟨fuel, rfl⟩ := Nat.exists_eq_add_one.mpr enough
  rw [decodeLoop, if_neg (by simp [after])]

theorem decodeFields_append (cases : Nat → Option (Case M)) (spells : SpellsAll bs fs)
    (skippable : ∀ f ∈ fs, Skippable f) {rest : Bytes} (int : (bs ++ rest).length < 2 ^ 63) :
    ∃ fuel, rest.length < fuel ∧ ∀ m, decodeFields cases m (bs ++ rest) =
      fs.foldlM (readField cases) m >>= decodeLoop cases fuel (after bs rest) := by
  have int' : (([] : Bytes) ++ (bs ++ rest)).length < 2 ^ 63 := int
  exact decodeLoop_append cases spells skippable int' (Nat.lt_succ_self _)

theorem decodeFields_spelled (cases : Nat → Option (Case M)) (zero : M) (spells : SpellsAll bs fs)
    (skippable : ∀ f ∈ fs, Skippable f) (int : bs.length < 2 ^ 63) :
    decodeFields cases zero bs = fs.foldlM (readField cases) zero := by
  have int' : (bs ++ []).length < 2 ^ 63 := by rwa [List.append_nil]
  obtain ⟨fuel, left, reads⟩ := decodeFields_append cases spells skippable int'
  have done : decodeLoop cases fuel (after bs []) = pure :=
    funext fun m => decodeLoop_done cases left bs m
  rw [List.append_nil, done] at reads
  rw [reads, bind_pure]

end Relayhub
