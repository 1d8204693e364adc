import Toxera.Relayhub.MessageKinds

/-!
# What the decoders accept

A grammar on bytes that follows the loop of a decoder. It tells what is accepted, what of
that is well formed, and on which bytes the process ends.
-/

namespace Relayhub

open Protobuf PbDecoder

variable {k k' : Kind} {fuel l n pos wt : Nat} {pre rest size tag : Bytes}

/-- A sequence of complete fields with the right wire types, in which the messages inside
of the message are well formed as well. -/
inductive Valid : Kind → Bytes → Prop
  | mk {k : Kind} {bs : Bytes} {fs : List Field} (spells : SpellsAll bs fs)
      (typed : ∀ f ∈ fs, k.Typed f)
      (nested : ∀ n b k', ⟨n, .bytes b⟩ ∈ fs → k.nested n = some k' → Valid k' b) : Valid k bs

/-- What the loop has passed over: nothing, an unknown field of fixed width whose payload
it has read as tags, bytes that are no field, or the end of the process. -/
inductive Verdict where
  | clean
  | misread
  | malformed
  | overrun
  deriving DecidableEq

variable {v v' : Verdict}

def Verdict.join : Verdict → Verdict → Verdict
  | clean, v => v
  | overrun, _ => overrun
  | _, overrun => overrun
  | malformed, _ => malformed
  | misread, malformed => malformed
  | misread, _ => misread

/-- The verdict after a defect, whatever follows but the end of the process. -/
def Verdict.before (v : Verdict) : Verdict → Verdict
  | overrun => overrun
  | _ => v

inductive Scan : Kind → Nat → Bytes → Verdict → Prop
  | done {k : Kind} {pos : Nat} : Scan k pos [] .clean
  | tag {k : Kind} {pos : Nat} {bs : Bytes} (some_left : bs ≠ []) (broken : Varint.Broken bs) :
      Scan k pos bs .malformed
  | plain {k : Kind} {pos : Nat} {bs rest : Bytes} {f : Field} {v : Verdict}
      (spells : f.Spells bs) (skippable : Skippable f) (typed : k.Typed f)
      (leaf : k.nested f.number = none) (next : Scan k (pos + bs.length) rest v) :
      Scan k pos (bs ++ rest) v
  | message {k k' : Kind} {pos n : Nat} {bs b rest : Bytes} {v v' : Verdict}
      (spells : Field.Spells bs ⟨n, .bytes b⟩) (nested : k.nested n = some k')
      (inner : Scan k' 0 b v) (next : Scan k (pos + bs.length) rest v') :
      Scan k pos (bs ++ rest) (v.join v')
  | payload {k : Kind} {pos n wt : Nat} {tag rest : Bytes}
      (tagged : Varint.Spells tag (8 * n + wt)) (unknown : k.wireType n = none)
      (type : wt = 0 ∨ wt = 2) (broken : Varint.Broken rest) :
      Scan k pos (tag ++ rest) .malformed
  | overflow {k : Kind} {pos n l : Nat} {tag size rest : Bytes} {v : Verdict}
      (tagged : Varint.Spells tag (8 * n + 2)) (unknown : k.wireType n = none)
      (sized : Varint.Spells size l) (beyond : rest.length < l)
      (fits : pos + (tag ++ size).length + l < 2 ^ 63)
      (next : Scan k (pos + (tag ++ size).length) rest v) :
      Scan k pos (tag ++ (size ++ rest)) (Verdict.malformed.before v)
  | foreign {k : Kind} {pos n wt : Nat} {tag rest : Bytes} {v : Verdict}
      (tagged : Varint.Spells tag (8 * n + wt)) (small : wt < 8) (unknown : k.wireType n = none)
      (type : wt ≠ 0 ∧ wt ≠ 2) (next : Scan k (pos + tag.length) rest v) :
      Scan k pos (tag ++ rest)
        ((if wt = 1 ∨ wt = 5 then .misread else .malformed : Verdict).before v)
  | length {k : Kind} {pos n l : Nat} {tag size rest : Bytes}
      (tagged : Varint.Spells tag (8 * n + 2))
      (asked : k.wireType n = none ∨ k.wireType n = some 2) (sized : Varint.Spells size l)
      (wraps : 2 ^ 63 ≤ pos + (tag ++ size).length + l) :
      Scan k pos (tag ++ (size ++ rest)) .overrun
  | inner {k k' : Kind} {pos n : Nat} {bs b rest : Bytes} (spells : Field.Spells bs ⟨n, .bytes b⟩)
      (nested : k.nested n = some k') (inner : Scan k' 0 b .overrun) :
      Scan k pos (bs ++ rest) .overrun

theorem Verdict.join_eq_clean (h : v.join v' = clean) : v = clean ∧ v' = clean := by
  cases v <;> cases v' <;> simp_all [join]

theorem Verdict.join_eq_malformed (h : v.join v' = malformed) : v = malformed ∨ v' = malformed := by
  cases v <;> cases v' <;> simp_all [join]

theorem Verdict.join_eq_misread (h : v.join v' = misread) : v = misread ∨ v' = misread := by
  cases v <;> cases v' <;> simp_all [join]

theorem Verdict.join_eq_overrun : v.join v' = overrun ↔ v = overrun ∨ v' = overrun := by
  cases v <;> cases v' <;> simp [join]

theorem Verdict.before_eq (h : v.before v' ≠ overrun) : v.before v' = v := by
  cases v' <;> first | rfl | exact absurd rfl h

section

variable {k : Kind} {bs rest : Bytes} {f : Field}

theorem Valid.nil : Valid k [] := .mk .nil (by simp) (by simp)

theorem Valid.cons (first : f.Spells bs) (typed : k.Typed f)
    (nested : ∀ b k', f.payload = .bytes b → k.nested f.number = some k' → Valid k' b)
    (others : Valid k rest) : Valid k (bs ++ rest) := by
  obtain ⟨spells, all, inner⟩ := others
  refine .mk (.cons first spells) ?_ ?_
  · intro g hg
    rcases List.mem_cons.mp hg with rfl | hg
    · exact typed
    · exact all g hg
  · intro n b k' mem message
    rcases List.mem_cons.mp mem with rfl | mem
    · exact nested b k' rfl message
    · exact inner n b k' mem message

theorem Valid.uncons (h : Valid k (bs ++ rest)) (first : f.Spells bs) :
    Valid k rest ∧
      ∀ b k', f.payload = .bytes b → k.nested f.number = some k' → Valid k' b := by
  obtain ⟨spells, typed, nested⟩ := h
  obtain ⟨gs, rfl, others⟩ := spells.uncons first
  refine ⟨.mk others (fun g hg => typed g (List.mem_cons_of_mem _ hg))
    (fun n b k' mem => nested n b k' (List.mem_cons_of_mem _ mem)), ?_⟩
  intro b k' bytes message
  refine nested f.number b k' ?_ message
  rw [← bytes]
  exact List.mem_cons_self

theorem Valid.of_tag {tag : Bytes} {n wt : Nat} (h : Valid k (tag ++ rest))
    (tagged : Varint.Spells tag (8 * n + wt)) (small : wt < 8) :
    ∃ (p : Payload) (body rest' : Bytes), p.wireType = wt ∧ rest = body ++ rest' ∧
      p.Spells body := by
  obtain ⟨spells, -, -⟩ := h
  obtain ⟨p, body, rest', -, -, type, split, spelled, -⟩ := spells.of_tag tagged small
  exact ⟨p, body, rest', type, split, spelled⟩

theorem Valid.not_broken (h : Valid k bs) (some_left : bs ≠ []) : ¬ Varint.Broken bs := by
  obtain ⟨spells, -, -⟩ := h
  intro broken
  cases spells with
  | nil => exact some_left rfl
  | cons first _ =>
    obtain ⟨tag, body, tagged, -, rfl⟩ := first
    exact broken tag _ _ tagged (List.append_assoc ..)

end

theorem Scan.valid {bs : Bytes} (h : Scan k pos bs v) (clean : v = .clean) : Valid k bs := by
  induction h with
  | done => exact .nil
  | plain spells _ typed leaf _ ih =>
    exact .cons spells typed (fun b k' _ message => by simp [leaf] at message) (ih clean)
  | message spells nested _ _ ih ih' =>
    obtain ⟨inner, next⟩ := Verdict.join_eq_clean clean
    refine .cons spells ?_ ?_ (ih' next)
    · intro wt expected
      rw [Kind.nested_wireType nested] at expected
      exact Option.some.inj expected
    · grind
  | foreign =>
    rw [Verdict.before_eq (by simp [clean])] at clean
    split_ifs at clean
  | overflow =>
    rw [Verdict.before_eq (by simp [clean])] at clean
    cases clean
  | _ => simp at clean

theorem Scan.not_valid {bs : Bytes} (h : Scan k pos bs v) (malformed : v = .malformed) :
    ¬ Valid k bs := by
  induction h with
  | tag some_left broken => exact fun valid => valid.not_broken some_left broken
  | plain spells _ _ _ _ ih => exact fun valid => ih malformed (valid.uncons spells).1
  | message spells nested _ _ ih ih' =>
    intro valid
    obtain ⟨others, inner⟩ := valid.uncons spells
    rcases Verdict.join_eq_malformed malformed with hv | hv
    · exact ih hv (inner _ _ rfl nested)
    · exact ih' hv others
  | payload tagged _ type broken =>
    intro valid
    obtain ⟨p, body, rest', rfl, rfl, spells⟩ := valid.of_tag tagged (by omega)
    exact spells.not_broken type broken
  | overflow tagged _ sized beyond _ _ _ =>
    intro valid
    obtain ⟨p, body, rest', type, split, spells⟩ := valid.of_tag tagged (by decide)
    cases p with
    | bytes b =>
      obtain ⟨size', sized', rfl⟩ := spells
      rw [List.append_assoc] at split
      obtain ⟨-, rfl, rfl⟩ := sized.unique sized' split
      rw [List.length_append] at beyond
      omega
    | _ => simp [Payload.wireType] at type
  | foreign tagged small _ type _ _ =>
    intro valid
    rw [Verdict.before_eq (by simp [malformed])] at malformed
    obtain ⟨p, body, rest', rfl, -, -⟩ := valid.of_tag tagged small
    cases p <;> simp [Payload.wireType] at malformed type
  | _ => simp at malformed

/-- Without a byte of wire type 1 or 5 nothing is misread. -/
theorem Scan.misread_byte {bs : Bytes} (h : Scan k pos bs v) (misread : v = .misread) :
    ∃ b ∈ bs, b.toNat % 8 = 1 ∨ b.toNat % 8 = 5 := by
  induction h with
  | plain _ _ _ _ _ ih =>
    obtain ⟨b, mem, type⟩ := ih misread
    exact ⟨b, List.mem_append_right _ mem, type⟩
  | message spells _ _ _ ih ih' =>
    obtain ⟨tag, body, -, ⟨size, -, rfl⟩, rfl⟩ := spells
    rcases Verdict.join_eq_misread misread with hv | hv
    · obtain ⟨b, mem, type⟩ := ih hv
      exact ⟨b, by simp [mem], type⟩
    · obtain ⟨b, mem, type⟩ := ih' hv
      exact ⟨b, by simp [mem], type⟩
  | foreign tagged =>
    rw [Verdict.before_eq (by simp [misread])] at misread
    obtain ⟨b, tag, rfl, low⟩ := tagged.digits.mod_eight
    refine ⟨b, by simp, ?_⟩
    split_ifs at misread
    omega
  | overflow =>
    rw [Verdict.before_eq (by simp [misread])] at misread
    cases misread
  | _ => simp at misread

/-- The loop ends as the verdict says, from every message it has read so far. -/
def Kind.Ends (k : Kind) (pre rest : Bytes) (v : Verdict) : Prop :=
  ∀ fuel, rest.length < fuel → ∀ m,
    (v ≠ .overrun → Accepted (decodeLoop k.table fuel (after pre rest) m)) ∧
      (v = .overrun → (decodeLoop k.table fuel (after pre rest) m).run = none)

theorem Kind.Ends.of_decode {b : Bytes} (h : k.Ends [] b v) :
    (v ≠ .overrun → k.Accepts b) ∧ (v = .overrun → (k.decode b).run = none) := by
  rw [Kind.Accepts, Kind.decode_eq]
  exact h _ (Nat.lt_succ_self _) k.zero

theorem ends_broken (broken : Varint.Broken rest) (h : v ≠ .overrun) : k.Ends pre rest v :=
  fun _ enough m => ⟨fun _ => ⟨m, decodeLoop_broken _ broken (Nat.zero_lt_of_lt enough) pre m⟩,
    fun overrun => absurd overrun h⟩

theorem Kind.Ends.field {f : Field} {bs : Bytes} (spells : f.Spells bs) (skippable : Skippable f)
    (int : (pre ++ (bs ++ rest)).length < 2 ^ 62)
    (read : ∀ m, (∃ m' v', readField k.table m f = pure m' ∧ k.Ends (pre ++ bs) rest v' ∧
        (v = .overrun ↔ v' = .overrun)) ∨
      (readField k.table m f).run = none ∧ v = .overrun) : k.Ends pre (bs ++ rest) v := by
  intro fuel enough m
  have pos := spells.length_pos
  rw [List.length_append] at enough
  obtain ⟨fuel, rfl⟩ := Nat.exists_eq_add_one.mpr (Nat.zero_lt_of_lt enough)
  rw [decodeLoop_field k.table spells skippable (by omega)]
  rcases read m with ⟨m', v', read, next, same⟩ | ⟨crash, overrun⟩
  · rw [read, pure_bind, ne_eq, same]
    exact next fuel (by omega) m'
  · exact ⟨absurd overrun, fun _ => bind_of_none crash _⟩

theorem Kind.Ends.skip {pre' rest' : Bytes} (next : k.Ends pre' rest' v)
    (tagged : Varint.Spells tag (8 * n + wt)) (small : wt < 8) (unknown : k.wireType n = none)
    (skipped : (after (pre ++ tag) rest).skip wt = some (after pre' rest'))
    (shorter : rest'.length ≤ rest.length) (same : v' = .overrun ↔ v = .overrun) :
    k.Ends pre (tag ++ rest) v' := by
  intro fuel enough m
  have pos := tagged.length_pos
  rw [List.length_append] at enough
  obtain ⟨fuel, rfl⟩ := Nat.exists_eq_add_one.mpr (Nat.zero_lt_of_lt enough)
  rw [decodeLoop_skip tagged small unknown skipped, ne_eq, same]
  exact next fuel (by omega) m

theorem skip_broken (broken : Varint.Broken rest) (type : wt = 0 ∨ wt = 2) (pre : Bytes) :
    (after pre rest).skip wt = some (after pre rest) := by
  rcases type with rfl | rfl
  · rw [skip, if_pos rfl, readVarint_broken broken]
    rfl
  · rw [skip, if_neg (by decide), if_pos rfl, readBytes_broken broken]
    rfl

theorem skip_overflow (sized : Varint.Spells size l) (beyond : rest.length < l)
    (fits : (pre ++ size).length + l < 2 ^ 63) :
    (after pre (size ++ rest)).skip 2 = some (after (pre ++ size) rest) := by
  have l64 : (UInt64.ofNat l).toNat = l := UInt64.toNat_ofNat_of_lt' sized.fits
  rw [← l64] at sized beyond fits
  rw [skip, if_neg (by decide), if_pos rfl, readBytes_overflow sized beyond fits]
  rfl

theorem decodeLoop_overrun (tagged : Varint.Spells tag (8 * n + 2))
    (asked : k.wireType n = none ∨ k.wireType n = some 2) (sized : Varint.Spells size l)
    (int : (pre ++ (tag ++ (size ++ rest))).length < 2 ^ 62)
    (wraps : 2 ^ 63 ≤ (pre ++ tag ++ size).length + l) (fuel : Nat) (m : k.Message) :
    (decodeLoop k.table fuel (after pre (tag ++ (size ++ rest))) m).run = none := by
  have l64 : (UInt64.ofNat l).toNat = l := UInt64.toNat_ofNat_of_lt' sized.fits
  rw [← l64] at sized wraps
  rw [← List.append_assoc] at int
  have crash := readBytes_wraps sized int wraps
  cases fuel with
  | zero => rfl
  | succ fuel =>
    have row := k.row n
    cases entry : k.table n with
    | none =>
      rw [decodeLoop_unknown k.table tagged (by decide) pre _ fuel m entry, skip,
        if_neg (by decide), if_pos rfl, crash]
      rfl
    | some c =>
      rw [entry] at row
      rw [decodeLoop_known k.table tagged (by decide) pre _ fuel m entry]
      cases row with
      | varint type => simp [type] at asked
      | bytes type =>
        simp only [Case.read, ne_eq, not_true_eq_false, if_false, crash]
        rfl

theorem Scan.ends {bs : Bytes} (h : Scan k pos bs v) (start : pre.length = pos)
    (int : (pre ++ bs).length < 2 ^ 62) : k.Ends pre bs v := by
  induction h generalizing pre with
  | done =>
    exact fun _ enough m => ⟨fun _ => ⟨m, decodeLoop_done _ enough pre m⟩, nofun⟩
  | tag _ broken => exact ends_broken broken nofun
  | plain spells skippable typed leaf _ ih =>
    refine .field spells skippable int fun m => .inl ?_
    rw [← List.append_assoc] at int
    obtain ⟨m', read⟩ := (readField_outcome _ m _).1.mpr
      ⟨typed, fun b k' _ message => by simp [leaf] at message⟩
    exact ⟨m', _, read, ih (by rw [List.length_append, start]) int, Iff.rfl⟩
  | @message k k' pos n bs b rest v v' spells nested _ _ ih ih' =>
    have size := spells.single.payload_length (List.mem_singleton_self _)
    refine .field spells (.inr rfl) int fun m => ?_
    rw [← List.append_assoc] at int
    have next := ih' (by rw [List.length_append, start]) int
    simp only [List.length_append] at int
    obtain ⟨accepted, crashed⟩ := (ih List.length_nil (show b.length < 2 ^ 62 by omega)).of_decode
    by_cases overrun : v = .overrun
    · exact .inr ⟨(readField_outcome _ m _).2.mpr ⟨b, k', rfl, nested, crashed overrun⟩,
        Verdict.join_eq_overrun.mpr (.inl overrun)⟩
    · have typed : k.Typed ⟨n, .bytes b⟩ := by
        intro wt expected
        rw [Kind.nested_wireType nested] at expected
        exact Option.some.inj expected
      obtain ⟨m', read⟩ := (readField_outcome _ m ⟨n, .bytes b⟩).1.mpr
        ⟨typed, fun b' k'' same message => by grind⟩
      exact .inl ⟨m', v', read, next, Verdict.join_eq_overrun.trans (or_iff_right overrun)⟩
  | payload tagged unknown type broken =>
    exact (ends_broken (v := .malformed) broken nofun).skip tagged (by omega) unknown
      (skip_broken broken type _) le_rfl Iff.rfl
  | @overflow k pos n l tag size rest v tagged unknown sized beyond fits _ ih =>
    rw [← List.append_assoc, ← List.append_assoc] at int
    have here : (pre ++ tag ++ size).length = pos + (tag ++ size).length := by grind
    refine (ih here int).skip tagged (by decide) unknown
      (skip_overflow sized beyond (by rw [here]; exact fits)) ?_
      (by cases v <;> simp [Verdict.before])
    rw [List.length_append]
    exact Nat.le_add_left _ _
  | @foreign k pos n wt tag rest v tagged small unknown type _ ih =>
    rw [← List.append_assoc] at int
    refine (ih (by rw [List.length_append, start]) int).skip tagged small unknown
      (skip_foreign type _) le_rfl ?_
    cases v <;> split_ifs <;> simp [Verdict.before]
  | @length k pos n l tag size rest tagged asked sized wraps =>
    have here : (pre ++ tag ++ size).length = pos + (tag ++ size).length := by grind
    exact fun fuel _ m => ⟨nofun, fun _ =>
      decodeLoop_overrun tagged asked sized int (by rw [here]; exact wraps) fuel m⟩
  | @inner k k' pos n bs b rest spells nested _ ih =>
    have size := spells.single.payload_length (List.mem_singleton_self _)
    refine .field spells (.inr rfl) int fun m => .inr ⟨?_, rfl⟩
    simp only [List.length_append] at int
    exact (readField_outcome _ m _).2.mpr ⟨b, k', rfl, nested,
      (ih List.length_nil (show b.length < 2 ^ 62 by omega)).of_decode.2 rfl⟩

section

variable {M : Type}

theorem read_broken (c : Case M) (broken : Varint.Broken rest) (wt : Nat) (pre : Bytes) (m : M) :
    ∃ err, c.read wt (after pre rest) m = some (.error err) := by
  obtain ⟨name, slot⟩ := c
  cases slot with
  | varint set =>
    unfold Case.read
    simp only [readVarint_broken broken]
    split_ifs <;> exact ⟨_, rfl⟩
  | bytes set =>
    unfold Case.read
    simp only [readBytes_broken broken]
    split_ifs <;> exact ⟨_, rfl⟩

theorem read_overflow (c : Case M) (sized : Varint.Spells size l) (beyond : rest.length < l)
    (fits : (pre ++ size).length + l < 2 ^ 63) (m : M) :
    ∃ err, c.read 2 (after pre (size ++ rest)) m = some (.error err) := by
  have l64 : (UInt64.ofNat l).toNat = l := UInt64.toNat_ofNat_of_lt' sized.fits
  rw [← l64] at sized beyond fits
  obtain ⟨name, slot⟩ := c
  cases slot with
  | varint set => exact ⟨_, rfl⟩
  | bytes set =>
    unfold Case.read
    simp only [readBytes_overflow sized beyond fits]
    exact ⟨_, rfl⟩

end

section

variable (tagged : Varint.Spells tag (8 * n + wt)) (small : wt < 8)
include tagged small

theorem refused_or_unknown (fuel : Nat) (m : k.Message)
    (known : ∀ c : Case k.Message,
      ∃ err, c.read wt (after (pre ++ tag) rest) m = some (.error err)) :
    Refused (decodeLoop k.table (fuel + 1) (after pre (tag ++ rest)) m) ∨
      k.wireType n = none := by
  have row := k.row n
  cases entry : k.table n with
  | none =>
    rw [entry] at row
    cases row with
    | unknown type => exact .inr type
  | some c =>
    obtain ⟨err, read⟩ := known c
    refine .inl ⟨err, ?_⟩
    rw [decodeLoop_known k.table tagged small pre rest fuel m entry, read]
    rfl

end

def ScansNested (k : Kind) : Prop :=
  ∀ {n k' b}, k.nested n = some k' → b.length < 2 ^ 62 → Refused (k'.decode b) ∨ ∃ v, Scan k' 0 b v

theorem exists_scan_field (inner : ScansNested k) {f : Field} {bs : Bytes} (spells : f.Spells bs)
    (skippable : Skippable f) (int : (pre ++ (bs ++ rest)).length < 2 ^ 62) {m m' : k.Message}
    (read : readField k.table m f = pure m') (next : Scan k (pre ++ bs).length rest v) :
    ∃ v, Scan k pre.length (bs ++ rest) v := by
  obtain ⟨typed, nested⟩ := (readField_outcome k m f).1.mp ⟨m', read⟩
  rw [List.length_append] at next
  cases message : k.nested f.number with
  | none => exact ⟨v, .plain spells skippable typed message next⟩
  | some k' =>
    obtain ⟨n, p⟩ := f
    have type := typed 2 (Kind.nested_wireType message)
    cases p with
    | bytes b =>
      have size := spells.single.payload_length (List.mem_singleton_self _)
      simp only [List.length_append] at int
      rcases inner (b := b) message (by omega) with refused | ⟨v', inside⟩
      · exact absurd refused (nested b k' rfl message).not_refused
      · exact ⟨_, .message spells message inside next⟩
    | _ => simp [Payload.wireType] at type

/-- A length beyond the end is an error, is passed over or ends the process. -/
theorem exists_scan_beyond (tagged : Varint.Spells tag (8 * n + 2)) (sized : Varint.Spells size l)
    (beyond : rest.length < l) (fuel : Nat) (m : k.Message)
    (next : Refused (decodeLoop k.table fuel (after (pre ++ tag ++ size) rest) m) ∨
      ∃ v, Scan k (pre ++ tag ++ size).length rest v) :
    Refused (decodeLoop k.table (fuel + 1) (after pre (tag ++ (size ++ rest))) m) ∨
      ∃ v, Scan k pre.length (tag ++ (size ++ rest)) v := by
  have here : (pre ++ tag ++ size).length = pre.length + (tag ++ size).length := by grind
  rcases Nat.lt_or_ge ((pre ++ tag ++ size).length + l) (2 ^ 63) with fits | wraps
  · rcases refused_or_unknown tagged (by decide) fuel m
      (fun c => read_overflow c sized beyond fits m) with refused | unknown
    · exact .inl refused
    · rw [decodeLoop_skip tagged (by decide) unknown (skip_overflow sized beyond fits)]
      rw [here] at fits next
      exact next.imp_right fun ⟨v, next⟩ => ⟨_, .overflow tagged unknown sized beyond fits next⟩
  · rw [here] at wraps
    have row := k.row n
    cases entry : k.table n with
    | none =>
      rw [entry] at row
      cases row with
      | unknown type => exact .inr ⟨_, .length tagged (.inl type) sized wraps⟩
    | some c =>
      rw [entry] at row
      cases row with
      | varint type =>
        exact .inl ⟨_, (decodeLoop_known k.table tagged (by decide) pre _ fuel m entry).trans rfl⟩
      | bytes type => exact .inr ⟨_, .length tagged (.inr type) sized wraps⟩

theorem exists_scan (inner : ScansNested k) {bs : Bytes} (int : (pre ++ bs).length < 2 ^ 62)
    (enough : bs.length < fuel) (m : k.Message) :
    Refused (decodeLoop k.table fuel (after pre bs) m) ∨ ∃ v, Scan k pre.length bs v := by
  induction fuel generalizing pre bs m with
  | zero => exact absurd enough (Nat.not_lt_zero _)
  | succ fuel ih =>
    rcases Varint.broken_or_spells bs with broken | ⟨tag, rest, v, rfl, tagged⟩
    · by_cases done : bs = []
      · subst done
        exact .inr ⟨_, .done⟩
      · exact .inr ⟨_, .tag done broken⟩
    · have small : v % 8 < 8 := Nat.mod_lt v (by decide)
      have pos := tagged.length_pos
      rw [← Nat.div_add_mod v 8] at tagged
      have int' : (pre ++ tag ++ rest).length < 2 ^ 62 := by rwa [List.append_assoc]
      rw [List.length_append] at enough
      rcases payload_cases (v % 8) rest with type | ⟨type, broken⟩ |
        ⟨p, body, rest, wire, type, rfl, spells⟩ | ⟨size, l, rest, type, rfl, sized, beyond⟩
      · -- a wire type that is neither known nor skipped
        rcases refused_or_unknown tagged small fuel m
          (fun c => ⟨_, c.read_foreign type _ m⟩) with refused | unknown
        · exact .inl refused
        · rw [decodeLoop_skip tagged small unknown (skip_foreign type _)]
          refine (ih int' (by omega) m).imp_right fun ⟨v, next⟩ => ?_
          rw [List.length_append] at next
          exact ⟨_, .foreign tagged small unknown type next⟩
      · -- no payload
        exact (refused_or_unknown tagged small fuel m fun c => read_broken c broken _ _ m).imp_right
          fun unknown => ⟨_, .payload tagged unknown type broken⟩
      · have whole : Field.Spells (tag ++ body) ⟨v / 8, p⟩ :=
          ⟨tag, body, by rwa [wire], spells, rfl⟩
        have skippable : Skippable ⟨v / 8, p⟩ := by
          rw [Skippable, wire]
          exact type
        rw [← List.append_assoc tag] at int ⊢
        rw [List.length_append] at enough
        rw [decodeLoop_field k.table whole skippable (by omega)]
        rcases outcome_cases (readField k.table m ⟨v / 8, p⟩) with ⟨m', read⟩ | refused | crash
        · rw [read, pure_bind]
          refine (ih (by rwa [← List.append_assoc pre] at int) (by omega) m').imp_right
            fun ⟨v, next⟩ => exists_scan_field inner whole skippable int read next
        · exact .inl (refused.bind _)
        · obtain ⟨b, k', rfl, nested, ended⟩ := (readField_outcome k m _).2.mp crash
          have size := whole.single.payload_length (List.mem_singleton_self _)
          rw [List.length_append, @List.length_append _ (tag ++ body)] at int
          have short : b.length < 2 ^ 62 := by omega
          rcases inner nested short with refused | ⟨v', inside⟩
          · exact absurd ended refused.run_ne_none
          · have int' : (([] : Bytes) ++ b).length < 2 ^ 62 := short
            have overrun : v' = .overrun := not_not.mp fun returns =>
              ((inside.ends List.length_nil int').of_decode.1 returns).run_ne_none ended
            exact .inr ⟨_, .inner whole nested (overrun ▸ inside)⟩
      · rw [type] at tagged
        rw [List.length_append] at enough
        rw [← List.append_assoc] at int'
        exact exists_scan_beyond tagged sized beyond fuel m (ih int' (by omega) m)

theorem Kind.scan (inner : ScansNested k) {bs : Bytes} (int : bs.length < 2 ^ 62) :
    Refused (k.decode bs) ∨ ∃ v, Scan k 0 bs v := by
  have int' : (([] : Bytes) ++ bs).length < 2 ^ 62 := int
  rw [Kind.decode_eq]
  exact exists_scan inner int' (Nat.lt_succ_self _) k.zero

theorem scansNested (k : Kind) : ScansNested k := by
  intro n k' b nested int
  refine Kind.scan ?_ int
  intro n' k'' b' message
  simp [Kind.nested_leaf nested n'] at message

/-- The decoders accept exactly what is scanned to the end, and end the process exactly on
what overruns. -/
theorem Kind.decode_iff_scan {bs : Bytes} (int : bs.length < 2 ^ 62) :
    (k.Accepts bs ↔ ∃ v, v ≠ .overrun ∧ Scan k 0 bs v) ∧
      ((k.decode bs).run = none ↔ Scan k 0 bs .overrun) := by
  have int' : (([] : Bytes) ++ bs).length < 2 ^ 62 := int
  have ends {v : Verdict} (h : Scan k 0 bs v) := (h.ends List.length_nil int').of_decode
  refine ⟨⟨fun accepted => ?_, fun ⟨v, returns, h⟩ => (ends h).1 returns⟩,
    fun crash => ?_, fun h => (ends h).2 rfl⟩
  · rcases Kind.scan (scansNested k) int with refused | ⟨v, h⟩
    · exact absurd refused accepted.not_refused
    · exact ⟨v, fun overrun => accepted.run_ne_none ((ends h).2 overrun), h⟩
  · rcases Kind.scan (scansNested k) int with refused | ⟨v, h⟩
    · exact absurd crash refused.run_ne_none
    · have overrun : v = .overrun := not_not.mp fun returns =>
        ((ends h).1 returns).run_ne_none crash
      exact overrun ▸ h

/-- What is accepted is well formed if the loop passes over no bytes that are no field and
misreads no unknown field of fixed width; it is not well formed if the loop passes over bytes
that are no field. -/
theorem accepts_valid_iff (k : Kind) (bs : Bytes) (int : bs.length < 2 ^ 62) :
    (¬ Scan k 0 bs .malformed → ¬ Scan k 0 bs .misread → k.Accepts bs → Valid k bs) ∧
      (Scan k 0 bs .malformed → k.Accepts bs ∧ ¬ Valid k bs) := by
  rw [(Kind.decode_iff_scan int).1]
  refine ⟨fun whole read ⟨v, returns, h⟩ => ?_, fun h => ⟨⟨.malformed, nofun, h⟩, h.not_valid rfl⟩⟩
  cases v with
  | clean => exact h.valid rfl
  | misread => exact absurd h read
  | malformed => exact absurd h whole
  | overrun => exact absurd rfl returns

theorem status_field : Field.Spells [8, 2] ⟨1, .varint 2⟩ :=
  ⟨[8], [2], Varint.Spells.single (v := 8) (by decide), Varint.Spells.single (v := 2) (by decide),
    rfl⟩

theorem status_typed : Kind.hop.Typed ⟨1, .varint 2⟩ := by
  simp [Kind.Typed, Kind.wireType, Payload.wireType]

/-- A known field, and one whose tag announces another byte. -/
theorem accepts_valid_status :
    Valid .hop [8, 2] ∧ Kind.hop.Accepts [8, 2, 128] ∧ ¬ Valid .hop [8, 2, 128] := by
  have broken : Varint.Broken [128] := Varint.broken_of_uvarint (by decide)
  have scan {bs : Bytes} {v : Verdict} (next : Scan .hop 2 bs v) :
      Scan .hop 0 ([8, 2] ++ bs) v :=
    .plain status_field (.inl rfl) status_typed rfl next
  have returns : Kind.hop.Accepts ([8, 2] ++ []) :=
    (Kind.decode_iff_scan (by decide)).1.mpr ⟨.clean, nofun, scan .done⟩
  refine ⟨(accepts_valid_iff .hop [8, 2] (by decide)).1 (fun h => ?_) (fun h => ?_) returns,
    (accepts_valid_iff .hop [8, 2, 128] (by decide)).2 (scan (.tag (by decide) broken))⟩
  · exact h.not_valid rfl ((scan .done).valid rfl)
  · exact absurd (h.misread_byte rfl) (by decide)

/-- After an unknown field of fixed width both is possible: its payload spells fields, and
is there or is cut off. -/
theorem misread_undecided :
    (Scan .hop 0 (121 :: List.replicate 8 0) .misread ∧ Valid .hop (121 :: List.replicate 8 0)) ∧
      Scan .hop 0 [121, 0, 0] .misread ∧ ¬ Valid .hop [121, 0, 0] := by
  have tagged : Varint.Spells [121] (8 * 15 + 1) := Varint.Spells.single (v := 121) (by decide)
  have zeros : Field.Spells [0, 0] ⟨0, .varint 0⟩ :=
    ⟨[0], [0], Varint.Spells.single (v := 0) (by decide), Varint.Spells.single (v := 0) (by decide),
      rfl⟩
  have zero {pos : Nat} {bs : Bytes} (next : Scan .hop (pos + 2) bs .clean) :
      Scan .hop pos ([0, 0] ++ bs) .clean :=
    .plain zeros (.inl rfl) nofun rfl next
  have fixed : Field.Spells (121 :: List.replicate 8 0) ⟨15, .fixed64 (List.replicate 8 0)⟩ :=
    ⟨[121], _, tagged, ⟨rfl, rfl⟩, rfl⟩
  have valid : Valid .hop (121 :: List.replicate 8 0 ++ []) := .cons fixed nofun nofun .nil
  refine ⟨⟨.foreign tagged (by decide) rfl (by decide) (zero (zero (zero (zero .done)))), valid⟩,
    .foreign tagged (by decide) rfl (by decide) (zero .done), fun valid => ?_⟩
  have tail : Valid .hop ([121] ++ [0, 0]) := valid
  obtain ⟨p, body, rest', type, split, spells⟩ := tail.of_tag tagged (by decide)
  cases p with
  | fixed64 b =>
    obtain ⟨rfl, eight⟩ := spells
    have len := congrArg List.length split
    rw [List.length_append, eight] at len
    simp only [List.length_cons, List.length_nil] at len
    omega
  | _ => simp [Payload.wireType] at type

/-- A single byte that announces another one is an empty message for every decoder. -/
theorem broken_tag_accepted :
    (decodeHopMessage [128]).run = some (.ok {}) ∧ ¬ Valid .hop [128] ∧
    (decodeStopMessage [128]).run = some (.ok {}) ∧ ¬ Valid .stop [128] ∧
    (decodeCircuitV1 [128]).run = some (.ok {}) ∧ ¬ Valid .circuitV1 [128] := by
  have broken : Varint.Broken [128] := Varint.broken_of_uvarint (by decide)
  have malformed (k : Kind) : ¬ Valid k [128] := fun valid => valid.not_broken (by decide) broken
  exact ⟨by decide +kernel, malformed _, by decide +kernel, malformed _, by decide +kernel,
    malformed _⟩

end Relayhub
