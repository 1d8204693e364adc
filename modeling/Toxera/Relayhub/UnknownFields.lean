import Toxera.Relayhub.MessageKinds

/-!
# Fields that a decoder does not know

Unknown fields may be inserted wherever the decoder is in step with the message, as long as
they are varints or byte strings; of the fixed-width ones some are refused.
-/

namespace Relayhub

open Protobuf PbDecoder

variable {M : Type} {k k' kt : Kind} {n wt : Nat} {b b' u : Bytes}

theorem readVarint_moved (rest : Bytes) : ∃ r used rest', rest = used ++ rest' ∧
    ∀ pre, (after pre rest).readVarint = some (r, after (pre ++ used) rest') := by
  rcases Varint.broken_or_spells rest with broken | ⟨bs, rest', v, rfl, spells⟩
  · refine ⟨.error "varint decode failed", [], rest, rfl, fun pre => ?_⟩
    rw [List.append_nil]
    exact readVarint_broken broken pre
  · have v64 : (UInt64.ofNat v).toNat = v := UInt64.toNat_ofNat_of_lt' spells.fits
    rw [← v64] at spells
    exact ⟨_, bs, rest', rfl, fun pre => readVarint_after spells pre rest'⟩

/-- Where a byte string stands matters only for the lengths that end the process. -/
theorem readBytes_moved (rest : Bytes) : ∃ r used rest', rest = used ++ rest' ∧
    ∀ pre, (pre ++ rest).length < 2 ^ 62 → (after pre rest).readBytes = none ∨
      (after pre rest).readBytes = some (r, after (pre ++ used) rest') := by
  rcases payload_cases 2 rest with type | ⟨-, broken⟩ | ⟨p, body, rest', type, -, rfl, spells⟩ |
    ⟨size, l, rest', -, rfl, sized, beyond⟩
  · exact absurd rfl type.2
  · refine ⟨.error "varint decode failed", [], rest, rfl, fun pre _ => .inr ?_⟩
    rw [List.append_nil]
    exact readBytes_broken broken pre
  · cases p with
    | bytes b =>
      obtain ⟨size, sized, rfl⟩ := spells
      refine ⟨.ok b, size ++ b, rest', rfl, fun pre int => .inr ?_⟩
      rw [List.append_assoc] at int ⊢
      rw [readBytes_after sized (by omega), List.append_assoc]
    | _ => simp [Payload.wireType] at type
  · refine ⟨.error "bytes overflow", size, rest', rfl, fun pre int => ?_⟩
    have l64 : (UInt64.ofNat l).toNat = l := UInt64.toNat_ofNat_of_lt' sized.fits
    rw [← l64] at sized beyond
    rcases Nat.lt_or_ge ((pre ++ size).length + (UInt64.ofNat l).toNat) (2 ^ 63) with fits | wraps
    · exact .inr (readBytes_overflow sized beyond fits)
    · exact .inl (readBytes_wraps sized int wraps)

theorem skip_moved (wt : Nat) (rest : Bytes) : ∃ used rest', rest = used ++ rest' ∧
    ∀ pre, (pre ++ rest).length < 2 ^ 62 → (after pre rest).skip wt = none ∨
      (after pre rest).skip wt = some (after (pre ++ used) rest') := by
  by_cases type : wt ≠ 0 ∧ wt ≠ 2
  · refine ⟨[], rest, rfl, fun pre _ => .inr ?_⟩
    rw [skip_foreign type, List.append_nil]
  · by_cases varint : wt = 0
    · obtain ⟨r, used, rest', split, reads⟩ := readVarint_moved rest
      refine ⟨used, rest', split, fun pre _ => .inr ?_⟩
      rw [skip, if_pos varint, reads]
      rfl
    · obtain ⟨r, used, rest', split, reads⟩ := readBytes_moved rest
      refine ⟨used, rest', split, fun pre int => ?_⟩
      rw [skip, if_neg varint, if_pos (by omega)]
      rcases reads pre int with crash | read
      · exact .inl (by rw [crash]; rfl)
      · exact .inr (by rw [read]; rfl)

theorem read_moved (c : Case M) (wt : Nat) (rest : Bytes) (m : M) :
    ∃ (r : Option (Except String M)) (used rest' : Bytes), rest = used ++ rest' ∧
      ∀ pre, (pre ++ rest).length < 2 ^ 62 → c.read wt (after pre rest) m = none ∨
        c.read wt (after pre rest) m =
          r.map fun r => r.map fun m => (after (pre ++ used) rest', m) := by
  have wrong : ∀ pre : Bytes, (some (.error (c.wrongType wt)) : Option (Except String _)) =
      (some (.error (c.wrongType wt)) : Option (Except String M)).map
        fun r => r.map fun m => (after (pre ++ []) rest, m) := fun _ => rfl
  obtain ⟨name, slot⟩ := c
  cases slot with
  | varint set =>
    by_cases type : wt = 0
    · obtain ⟨r, used, rest', split, reads⟩ := readVarint_moved rest
      refine ⟨some (r.map fun v => set v m), used, rest', split, fun pre _ => .inr ?_⟩
      simp only [Case.read, type, ne_eq, not_true_eq_false, if_false, reads, Option.map_some]
      cases r <;> rfl
    · exact ⟨_, [], rest, rfl, fun pre _ => .inr ((if_pos type).trans (wrong pre))⟩
  | bytes set =>
    by_cases type : wt = 2
    · obtain ⟨r, used, rest', split, reads⟩ := readBytes_moved rest
      refine ⟨(ExceptT.mk (some r) >>= fun b => set b m).run, used, rest', split,
        fun pre int => ?_⟩
      simp only [Case.read, type, ne_eq, not_true_eq_false, if_false]
      rcases reads pre int with crash | read
      · exact .inl (by rw [crash]; rfl)
      · refine .inr ?_
        rw [read]
        cases r <;> rfl
    · exact ⟨_, [], rest, rfl, fun pre _ => .inr ((if_pos type).trans (wrong pre))⟩

/-- Two runs over the same bytes, after different ones, agree if both return. -/
theorem decodeLoop_moved (cases : Nat → Option (Case M)) {fuel fuel' : Nat} {pre pre' rest : Bytes}
    (enough : rest.length < fuel) (enough' : rest.length < fuel')
    (int : (pre ++ rest).length < 2 ^ 62) (int' : (pre' ++ rest).length < 2 ^ 62) {m : M}
    (returns : (decodeLoop cases fuel (after pre rest) m).run ≠ none)
    (returns' : (decodeLoop cases fuel' (after pre' rest) m).run ≠ none) :
    decodeLoop cases fuel' (after pre' rest) m = decodeLoop cases fuel (after pre rest) m := by
  induction fuel generalizing fuel' pre pre' rest m with
  | zero => exact absurd enough (Nat.not_lt_zero _)
  | succ fuel ih =>
    obtain ⟨fuel', rfl⟩ := Nat.exists_eq_add_one.mpr (Nat.zero_lt_of_lt enough')
    rcases Varint.broken_or_spells rest with broken | ⟨tag, rest, v, rfl, tagged⟩
    · rw [decodeLoop_broken _ broken (Nat.succ_pos _), decodeLoop_broken _ broken (Nat.succ_pos _)]
    · have small : v % 8 < 8 := Nat.mod_lt v (by decide)
      have pos := tagged.length_pos
      rw [← Nat.div_add_mod v 8] at tagged
      rw [List.length_append] at enough enough'
      rw [← List.append_assoc] at int int'
      cases known : cases (v / 8) with
      | none =>
        rw [decodeLoop_unknown cases tagged small _ _ _ m known] at returns returns' ⊢
        rw [decodeLoop_unknown cases tagged small _ _ _ m known]
        obtain ⟨used, rest', rfl, skips⟩ := skip_moved (v % 8) rest
        rw [← List.append_assoc] at int int'
        rw [List.length_append] at enough enough'
        rcases skips (pre ++ tag) (by rwa [← List.append_assoc]) with crash | skipped
        · exact absurd (by rw [crash]; rfl) returns
        · rcases skips (pre' ++ tag) (by rwa [← List.append_assoc]) with crash' | skipped'
          · exact absurd (by rw [crash']; rfl) returns'
          · rw [skipped] at returns ⊢
            rw [skipped'] at returns' ⊢
            exact ih (by omega) (by omega) int int' returns returns'
      | some c =>
        rw [decodeLoop_known cases tagged small _ _ _ m known] at returns returns' ⊢
        rw [decodeLoop_known cases tagged small _ _ _ m known]
        obtain ⟨r, used, rest', rfl, reads⟩ := read_moved c (v % 8) rest m
        rw [← List.append_assoc] at int int'
        rw [List.length_append] at enough enough'
        rcases reads (pre ++ tag) (by rwa [← List.append_assoc]) with crash | read
        · exact absurd (by rw [crash]; rfl) returns
        · rcases reads (pre' ++ tag) (by rwa [← List.append_assoc]) with crash' | read'
          · exact absurd (by rw [crash']; rfl) returns'
          · rw [read] at returns ⊢
            rw [read'] at returns' ⊢
            rcases r with _ | err | m'
            · rfl
            · rfl
            · exact ih (by omega) (by omega) int int' returns returns'

/-- The second byte string is the first with `u` inserted between two fields of the message,
or of a message inside of it, where all fields before have been of wire type 0 or 2. -/
inductive Inserted (u : Bytes) : Kind → Kind → Bytes → Bytes → Prop
  | here {k : Kind} {d₁ d₂ : Bytes} {fs : List Field} (front : SpellsAll d₁ fs)
      (inStep : ∀ f ∈ fs, Skippable f) : Inserted u k k (d₁ ++ d₂) (d₁ ++ (u ++ d₂))
  | inside {k k' kt : Kind} {n : Nat} {d₁ e e' d₂ b b' : Bytes} {fs : List Field}
      (front : SpellsAll d₁ fs) (inStep : ∀ f ∈ fs, Skippable f) (nested : k.nested n = some k')
      (inner : Inserted u k' kt b b') (old : Field.Spells e ⟨n, .bytes b⟩)
      (new : Field.Spells e' ⟨n, .bytes b'⟩) : Inserted u k kt (d₁ ++ (e ++ d₂)) (d₁ ++ (e' ++ d₂))

theorem decodeFields_field (cases : Nat → Option (Case M)) {d₁ e rest : Bytes} {fs : List Field}
    {f : Field} (front : SpellsAll d₁ fs) (inStep : ∀ f ∈ fs, Skippable f) (spells : f.Spells e)
    (skippable : Skippable f) (int : (d₁ ++ (e ++ rest)).length < 2 ^ 63) :
    ∃ fuel, rest.length < fuel ∧ ∀ m, decodeFields cases m (d₁ ++ (e ++ rest)) =
      fs.foldlM (readField cases) m >>= fun m =>
        readField cases m f >>= decodeLoop cases fuel (after (d₁ ++ e) rest) := by
  have pos := spells.length_pos
  obtain ⟨fuel, left, reads⟩ := decodeFields_append cases front inStep int
  rw [List.length_append] at left
  obtain ⟨fuel, rfl⟩ := Nat.exists_eq_add_one.mpr (Nat.zero_lt_of_lt left)
  refine ⟨fuel, by omega, fun m => ?_⟩
  rw [reads]
  congr 1
  funext m'
  exact decodeLoop_field cases spells skippable int fuel m'

theorem readField_unknown {us : List Field} (unknown : ∀ f ∈ us, k.wireType f.number = none)
    (m : k.Message) : us.foldlM (readField k.table) m = pure m := by
  induction us with
  | nil => rfl
  | cons f us ih =>
    have skipped : readField k.table m f = pure m := by
      rw [readField, Kind.table_eq_none (unknown f List.mem_cons_self)]
    rw [List.foldlM_cons, skipped, pure_bind]
    exact ih fun g mem => unknown g (List.mem_cons_of_mem _ mem)

theorem readField_congr {N : Type} {cases : Nat → Option (Case M)} {name : String}
    {decode : Bytes → Outcome N} {set : N → M → M}
    (entry : cases n = some (.message name decode set)) (same : decode b' = decode b) (m : M) :
    readField cases m ⟨n, .bytes b'⟩ = readField cases m ⟨n, .bytes b⟩ := by
  simp only [readField, entry, Case.message, same]

theorem readField_nested (nested : k.nested n = some k') (same : k'.decode b' = k'.decode b)
    (m : k.Message) : readField k.table m ⟨n, .bytes b'⟩ = readField k.table m ⟨n, .bytes b⟩ := by
  unfold Kind.nested at nested
  split at nested <;> cases nested <;>
    exact readField_congr rfl same m

/-- Unknown varints and byte strings that leave the decoder running leave its result. -/
theorem Inserted.decode_eq (h : Inserted u k kt b b') {us : List Field} (spells : SpellsAll u us)
    (new : ∀ f ∈ us, Skippable f ∧ kt.wireType f.number = none) (accepted : k.Accepts b)
    (int : b.length < 2 ^ 62) (int' : b'.length < 2 ^ 62) (returns : (k.decode b').run ≠ none) :
    k.decode b' = k.decode b := by
  induction h with
  | @here k d₁ d₂ fs front inStep =>
    have all : SpellsAll (d₁ ++ u) (fs ++ us) := front.append spells
    have inStep' : ∀ f ∈ fs ++ us, Skippable f := fun f mem =>
      (List.mem_append.mp mem).elim (inStep f) fun mem => (new f mem).1
    have unread := funext (readField_unknown fun f mem => (new f mem).2)
    rw [← List.append_assoc] at int' returns ⊢
    obtain ⟨fuel, enough, reads⟩ :=
      decodeFields_append k.table front inStep (int.trans (by decide))
    obtain ⟨fuel', enough', reads'⟩ :=
      decodeFields_append k.table all inStep' (int'.trans (by decide))
    simp only [Kind.Accepts, Kind.decode_eq, reads, reads', List.foldlM_append, unread,
      bind_pure] at accepted returns ⊢
    obtain ⟨m, front, accepted⟩ := accepted_bind.mp accepted
    rw [front, pure_bind] at returns ⊢
    rw [pure_bind]
    exact decodeLoop_moved _ enough enough' int int' accepted.run_ne_none returns
  | @inside k k' kt n d₁ e e' d₂ b b' fs front inStep nested _ old fresh ih =>
    have size := old.single.payload_length (List.mem_singleton_self _)
    have size' := fresh.single.payload_length (List.mem_singleton_self _)
    obtain ⟨fuel, enough, reads⟩ :=
      decodeFields_field k.table front inStep old (.inr rfl) (int.trans (by decide))
    obtain ⟨fuel', enough', reads'⟩ :=
      decodeFields_field k.table front inStep fresh (.inr rfl) (int'.trans (by decide))
    simp only [Kind.Accepts, Kind.decode_eq, reads, reads'] at accepted returns ⊢
    obtain ⟨m, front, accepted⟩ := accepted_bind.mp accepted
    obtain ⟨m', read, accepted⟩ := accepted_bind.mp accepted
    rw [front, pure_bind] at returns ⊢
    rw [pure_bind]
    have inner : k'.Accepts b := ((readField_outcome k m _).1.mp ⟨m', read⟩).2 b k' rfl nested
    have inner' : (k'.decode b').run ≠ none := fun crash =>
      run_ne_none_of_bind returns ((readField_outcome k m _).2.mpr ⟨b', k', rfl, nested, crash⟩)
    simp only [List.length_append] at int int'
    have same := ih new inner (by omega) (by omega) inner'
    have read' : readField k.table m ⟨n, .bytes b'⟩ = pure m' := by
      rw [← read]
      exact readField_nested nested same m
    rw [read', pure_bind] at returns ⊢
    rw [read, pure_bind]
    refine decodeLoop_moved _ enough enough' ?_ ?_ accepted.run_ne_none returns <;>
      · simp only [List.length_append]
        omega

/-- The tag of field 1 with a wire type that the decoder does not take. -/
def Kind.wrongTag : Kind → UInt8
  | .peer => 8
  | _ => 10

theorem Kind.wrongTag_refused (k : Kind) (fuel : Nat) (pre rest : Bytes) (m : k.Message) :
    ¬ Accepted (decodeLoop k.table fuel (after pre (k.wrongTag :: rest)) m) := by
  intro accepted
  cases fuel with
  | zero => exact accepted.run_ne_none rfl
  | succ fuel =>
    refine accepted.not_refused ?_
    cases k with
    | peer =>
      have tagged : Varint.Spells [8] (8 * 1 + 0) := .single (by decide)
      exact ⟨_, decodeLoop_known _ tagged (by decide) pre rest fuel m rfl |>.trans rfl⟩
    | _ =>
      have tagged : Varint.Spells [10] (8 * 1 + 2) := .single (by decide)
      exact ⟨_, decodeLoop_known _ tagged (by decide) pre rest fuel m rfl |>.trans rfl⟩

/-- After an unknown tag of another wire type the decoder takes the payload for a tag. -/
theorem Inserted.refused {tag back : Bytes} (h : Inserted u k kt b b')
    (new : u = tag ++ kt.wrongTag :: back)
    (tagged : Varint.Spells tag (8 * n + wt)) (small : wt < 8) (type : wt ≠ 0 ∧ wt ≠ 2)
    (unknown : kt.wireType n = none) (int : b'.length < 2 ^ 63) : ¬ k.Accepts b' := by
  intro accepted
  induction h with
  | @here k d₁ d₂ fs front inStep =>
    obtain ⟨fuel, enough, reads⟩ := decodeFields_append k.table front inStep int
    rw [Kind.Accepts, Kind.decode_eq, reads] at accepted
    obtain ⟨m, -, accepted⟩ := accepted_bind.mp accepted
    obtain ⟨fuel, rfl⟩ := Nat.exists_eq_add_one.mpr (Nat.zero_lt_of_lt enough)
    rw [new, List.append_assoc,
      decodeLoop_skip tagged small unknown (skip_foreign type _)] at accepted
    exact k.wrongTag_refused _ _ _ _ accepted
  | @inside k k' kt n d₁ e e' d₂ b b' fs front inStep nested _ _ fresh ih =>
    have size := fresh.single.payload_length (List.mem_singleton_self _)
    obtain ⟨fuel, -, reads⟩ := decodeFields_field k.table front inStep fresh (.inr rfl) int
    rw [Kind.Accepts, Kind.decode_eq, reads] at accepted
    obtain ⟨m, -, accepted⟩ := accepted_bind.mp accepted
    obtain ⟨m', read, -⟩ := accepted_bind.mp accepted
    simp only [List.length_append] at int
    exact ih new unknown (by omega) (((readField_outcome k m _).1.mp ⟨m', read⟩).2 b' k' rfl nested)

theorem exists_fixed (type : wt = 1 ∨ wt = 5) (first : UInt8) :
    ∃ (p : Payload) (back : Bytes), p.wireType = wt ∧ p.Spells (first :: back) := by
  rcases type with rfl | rfl
  · exact ⟨.fixed64 (first :: List.replicate 7 0), List.replicate 7 0, rfl, rfl, rfl⟩
  · exact ⟨.fixed32 (first :: List.replicate 3 0), List.replicate 3 0, rfl, rfl, rfl⟩

theorem status_spelled : SpellsAll [8, 2] [⟨1, .varint 2⟩] :=
  Field.Spells.single ⟨[8], [2], Varint.Spells.single (v := 8) (by decide),
    Varint.Spells.single (v := 2) (by decide), rfl⟩

theorem status_inserted (u d₂ : Bytes) :
    Inserted u .hop .hop ([8, 2] ++ d₂) ([8, 2] ++ (u ++ d₂)) :=
  .here status_spelled (by simp [Skippable, Payload.wireType])

theorem number_fifteen {p : Payload} {tag : UInt8} {body : Bytes}
    (tagged : Varint.Spells [tag] (8 * 15 + p.wireType)) (spells : p.Spells body) :
    Field.Spells (tag :: body) ⟨15, p⟩ :=
  ⟨[tag], body, tagged, spells, rfl⟩

end Relayhub
