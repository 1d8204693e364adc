import Toxera.Relayhub.CircuitRoundTrip
import Toxera.Relayhub.FieldOrder

/-!
# Messages that are cut off

A decoder takes an incomplete tag for the end of the message.
-/

namespace Relayhub

open Protobuf PbDecoder

variable {body p pre q r : Bytes} {f : Field} {l : List Field}

variable {M : Type}

def encodePayload : Payload → Bytes
  | .varint v => encodeVarint v.toNat
  | .bytes b => encodeVarint b.length ++ b
  | .fixed64 b => b
  | .fixed32 b => b

def encodeField (f : Field) : Bytes :=
  encodeTag f.number f.payload.wireType ++ encodePayload f.payload

def encodeFields (fs : List Field) : Bytes := fs.flatMap encodeField

theorem encodeFields_append (fs gs : List Field) :
    encodeFields (fs ++ gs) = encodeFields fs ++ encodeFields gs := List.flatMap_append ..

theorem encodeFields_single (f : Field) : encodeFields [f] = encodeField f :=
  List.flatMap_singleton ..

theorem encodeFields_ite (p : Prop) [Decidable p] (f : Field) :
    encodeFields (if p then [f] else []) = if p then encodeField f else [] := by
  split_ifs
  · exact encodeFields_single f
  · rfl

theorem encodeField_varint (field : Nat) (v : UInt64) :
    encodeField ⟨field, .varint v⟩ = pbEncodeVarintField field v := rfl

theorem encodeField_bytes (field : Nat) (data : Bytes) :
    encodeField ⟨field, .bytes data⟩ = pbEncodeLengthDelimField field data :=
  (List.append_assoc ..).symm

theorem encodeHopMessage_fields (msg : HopMessage) :
    encodeHopMessage msg = encodeFields (hopFields msg) := by
  simp only [encodeHopMessage, hopFields, encodeFields_append, encodeFields_single,
    encodeFields_ite, encodeField_varint, encodeField_bytes]

theorem encodeStopMessage_fields (msg : StopMessage) :
    encodeStopMessage msg = encodeFields (stopFields msg) := by
  simp only [encodeStopMessage, stopFields, encodeFields_append, encodeFields_single,
    encodeFields_ite, encodeField_varint, encodeField_bytes]

theorem encodeCircuitV1_fields (msg : CircuitV1Message) :
    encodeCircuitV1 msg = encodeFields (circuitV1Fields msg) := by
  simp only [encodeCircuitV1, circuitV1Fields, encodeFields_append, encodeFields_single,
    encodeFields_ite, encodeField_varint, encodeField_bytes]

theorem encodeFields_cut (cut : encodeFields l = p ++ r) :
    (∃ fs gs, l = fs ++ gs ∧ p = encodeFields fs) ∨
      ∃ fs f gs q q', l = fs ++ f :: gs ∧ p = encodeFields fs ++ q ∧ encodeField f = q ++ q' ∧
        q ≠ [] ∧ q' ≠ [] := by
  induction l generalizing p with
  | nil =>
    have nothing : p = [] := (List.append_eq_nil_iff.mp cut.symm).1
    exact Or.inl ⟨[], [], rfl, nothing⟩
  | cons f l ih =>
    have front : encodeField f ++ encodeFields l = p ++ r := cut
    rcases List.append_eq_append_iff.mp front with ⟨q, rfl, rest⟩ | ⟨q', whole, -⟩
    · -- the first field is before the cut
      rcases ih rest with ⟨fs, gs, rfl, rfl⟩ | ⟨fs, g, gs, q, q', rfl, rfl, inside⟩
      · exact Or.inl ⟨f :: fs, gs, rfl, rfl⟩
      · exact Or.inr ⟨f :: fs, g, gs, q, q', rfl, (List.append_assoc ..).symm, inside⟩
    · by_cases empty : p = []
      · exact Or.inl ⟨[], f :: l, rfl, empty⟩
      · by_cases full : q' = []
        · refine Or.inl ⟨[f], l, rfl, ?_⟩
          rw [full, List.append_nil] at whole
          rw [← whole, encodeFields_single]
        · exact Or.inr ⟨[], f, l, p, q', rfl, rfl, whole, empty, full⟩

def Case.Takes (c : Case M) (p : Payload) : Prop :=
  match c.slot, p with
  | .varint _, .varint _ => True
  | .bytes _, .bytes _ => True
  | _, _ => False

theorem readBytes_truncated {b : Bytes} {size : Bytes} (spells : Varint.Spells size b.length)
    (int : (pre ++ (size ++ b)).length < 2 ^ 63) (cut : size ++ b = q ++ r) (some_left : r ≠ []) :
    ∃ err d, (after pre q).readBytes = some (.error err, d) := by
  have overflow {a : Bytes} (short : a.length < b.length) :
      ∃ err d, (after pre (size ++ a)).readBytes = some (.error err, d) := by
    have b64 : (UInt64.ofNat b.length).toNat = b.length := UInt64.toNat_ofNat_of_lt' spells.fits
    rw [← b64] at spells short
    refine ⟨_, _, readBytes_overflow spells short ?_⟩
    simp only [List.length_append] at int ⊢
    omega
  have left := List.length_pos_iff.mpr some_left
  rcases List.append_eq_append_iff.mp cut with ⟨a, rfl, rfl⟩ | ⟨a, rfl, rfl⟩
  · grind
  · by_cases whole : a = []
    · subst whole
      have none : (after pre (q ++ [] ++ [])).readBytes = (after pre q).readBytes := by
        rw [List.append_nil, List.append_nil]
      rw [← none]
      exact overflow left
    · exact ⟨_, _, readBytes_broken (spells.truncated whole) pre⟩

theorem read_truncated {c : Case M} {p : Payload} (takes : c.Takes p) (spells : p.Spells body)
    (int : (pre ++ body).length < 2 ^ 63) (cut : body = q ++ r) (some_left : r ≠ []) (m : M) :
    ∃ err, c.read p.wireType (after pre q) m = some (.error err) := by
  obtain ⟨name, slot⟩ := c
  cases slot with
  | varint set =>
    cases p with
    | varint v =>
      subst cut
      have broken : Varint.Broken q := Varint.Spells.truncated spells some_left
      refine ⟨"varint decode failed", ?_⟩
      simp only [Case.read, Payload.wireType, ne_eq, not_true_eq_false, if_false,
        readVarint_broken broken, Option.map_some]
    | _ => exact absurd takes id
  | bytes set =>
    cases p with
    | bytes b =>
      obtain ⟨size, spells, rfl⟩ := spells
      obtain ⟨err, d, read⟩ := readBytes_truncated spells int cut some_left
      refine ⟨err, ?_⟩
      simp only [Case.read, Payload.wireType, ne_eq, not_true_eq_false, if_false, read,
        Option.bind_some]
    | _ => exact absurd takes id

theorem decodeLoop_truncated {cases : Nat → Option (Case M)} {c : Case M}
    (known : cases f.number = some c) (takes : c.Takes f.payload) {tag : Bytes}
    (tagged : Varint.Spells tag (8 * f.number + f.payload.wireType))
    (spells : f.payload.Spells body) (int : (pre ++ tag ++ body).length < 2 ^ 63)
    (cut : body = q ++ r) (some_left : r ≠ []) {fuel : Nat} (enough : 0 < fuel) (m : M) :
    ∃ err, (decodeLoop cases fuel (after pre (tag ++ q)) m).run = some (.error err) := by
  obtain ⟨fuel, rfl⟩ := Nat.exists_eq_add_one.mpr enough
  obtain ⟨err, read⟩ := read_truncated takes spells int cut some_left m
  refine ⟨err, ?_⟩
  rw [decodeLoop_known cases tagged f.payload.wireType_lt pre q fuel m known, read]
  rfl

theorem encodeTag_single {field wireType : Nat} (small : field < 16) (wt : wireType < 8) :
    ∃ b, encodeTag field wireType = [b] := by
  refine ⟨UInt8.ofNat (field <<< 3 ||| wireType), ?_⟩
  have tag : field <<< 3 ||| wireType < 128 := by
    rw [← Nat.shiftLeft_add_eq_or_of_lt wt, Nat.shiftLeft_eq]
    omega
  rw [encodeTag, encodeVarint, binaryMaxVarintLen64, putUvarint, if_pos tag]

theorem encodePayload_spells {p : Payload} (skippable : p.wireType = 0 ∨ p.wireType = 2)
    (int : (encodePayload p).length < 2 ^ 63) : p.Spells (encodePayload p) := by
  cases p with
  | varint v => exact encodeVarint_spells v.toNat_lt
  | bytes b =>
    rw [encodePayload, List.length_append] at int
    exact ⟨_, encodeVarint_spells (by omega), rfl⟩
  | fixed64 b => simp [Payload.wireType] at skippable
  | fixed32 b => simp [Payload.wireType] at skippable

theorem encodeFields_spells {fs : List Field} (small : ∀ f ∈ fs, f.number < 16)
    (skippable : ∀ f ∈ fs, Skippable f) (int : (encodeFields fs).length < 2 ^ 63) :
    SpellsAll (encodeFields fs) fs := by
  induction fs with
  | nil => exact .nil
  | cons f fs ih =>
    have shape : encodeFields (f :: fs) = encodeField f ++ encodeFields fs := rfl
    rw [shape, List.length_append] at int
    have number := small f List.mem_cons_self
    have rest := ih (fun g hg => small g (List.mem_cons_of_mem _ hg))
      (fun g hg => skippable g (List.mem_cons_of_mem _ hg)) (by omega)
    rw [encodeField, List.length_append] at int
    have body := encodePayload_spells (skippable f List.mem_cons_self) (by omega)
    exact .cons ⟨_, _, encodeTag_spells (by omega) f.payload.wireType_lt, body, rfl⟩ rest

structure Tabled (cases : Nat → Option (Case M)) (known : Field → Prop) : Prop where
  takes : ∀ {f}, known f → ∃ c, cases f.number = some c ∧ c.Takes f.payload
  small : ∀ {f}, known f → f.number < 16

section

variable {cases : Nat → Option (Case M)} {known : Field → Prop} {value : List Field → M}
  (reads : FieldByField cases known value) (table : Tabled cases known)
include reads table

theorem spellsAll_known {fs : List Field} (all : ∀ f ∈ fs, known f)
    (int : (encodeFields fs).length < 2 ^ 63) : SpellsAll (encodeFields fs) fs :=
  encodeFields_spells (fun f hf => table.small (all f hf)) (fun f hf => reads.skippable (all f hf))
    int

theorem decodeFields_inside_field {fs : List Field} (all : ∀ f ∈ fs, known f) (hf : known f)
    (int : (encodeFields fs ++ encodeField f).length < 2 ^ 63) (cut : encodeField f = q ++ r)
    (started : q ≠ []) (some_left : r ≠ []) :
    ∃ err, (decodeFields cases (value []) (encodeFields fs ++ q)).run = some (.error err) := by
  obtain ⟨b, tag⟩ := encodeTag_single (table.small hf) f.payload.wireType_lt
  obtain ⟨body, rfl, rest⟩ : ∃ body, q = encodeTag f.number f.payload.wireType ++ body ∧
      encodePayload f.payload = body ++ r := by
    rw [encodeField, tag] at cut
    rw [tag]
    cases q with
    | nil => exact absurd rfl started
    | cons b' body => grind
  obtain ⟨c, row, takes⟩ := table.takes hf
  have number := table.small hf
  rw [encodeField, ← List.append_assoc] at int
  have sizes := int
  simp only [List.length_append, rest] at sizes
  have small : (encodeFields fs).length < 2 ^ 63 := by omega
  have payload : (encodePayload f.payload).length < 2 ^ 63 := by
    rw [rest, List.length_append]
    omega
  have front : (encodeFields fs ++ (encodeTag f.number f.payload.wireType ++ body)).length <
      2 ^ 63 := by
    simp only [List.length_append]
    omega
  obtain ⟨fuel, left, run⟩ := decodeFields_append cases (spellsAll_known reads table all small)
    (fun g hg => reads.skippable (all g hg)) front
  rw [run, reads.foldlM all, pure_bind]
  exact decodeLoop_truncated row takes (encodeTag_spells (by omega) f.payload.wireType_lt)
    (encodePayload_spells (reads.skippable hf) payload) int rest some_left
    (Nat.zero_lt_of_lt left) _

theorem decodeFields_cut (all : ∀ f ∈ l, known f) (int : (encodeFields l).length < 2 ^ 63)
    (cut : encodeFields l = p ++ r) :
    (∃ err, (decodeFields cases (value []) p).run = some (.error err)) ∨
      ∃ fs gs, l = fs ++ gs ∧ p = encodeFields fs ∧
        decodeFields cases (value []) p = pure (value fs) := by
  rcases encodeFields_cut cut with ⟨fs, gs, rfl, rfl⟩ |
    ⟨fs, f, gs, q, q', rfl, rfl, inside, started, some_left⟩
  · have front : ∀ f ∈ fs, known f := fun f hf => all f (List.mem_append_left _ hf)
    rw [encodeFields_append, List.length_append] at int
    have small : (encodeFields fs).length < 2 ^ 63 := by omega
    exact Or.inr ⟨fs, gs, rfl, rfl, reads.decodes small (spellsAll_known reads table front small)
      front⟩
  · have shape : encodeFields (f :: gs) = encodeField f ++ encodeFields gs := rfl
    rw [encodeFields_append, shape, ← List.append_assoc, List.length_append] at int
    exact Or.inl (decodeFields_inside_field reads table
      (fun g hg => all g (List.mem_append_left _ hg)) (all f (by simp)) (by omega) inside started
      some_left)

end

theorem hop_tabled : Tabled hopCases HopField where
  takes known := by cases known <;> exact ⟨_, rfl, trivial⟩
  small known := by cases known <;> simp

theorem stop_tabled : Tabled stopCases StopField where
  takes known := by cases known <;> exact ⟨_, rfl, trivial⟩
  small known := by cases known <;> simp

theorem circuitV1_tabled : Tabled circuitV1Cases CircuitV1Field where
  takes known := by cases known <;> exact ⟨_, rfl, trivial⟩
  small known := by cases known <;> simp

def HopMessage.only (msg : HopMessage) (ns : List Nat) : HopMessage where
  type := if 1 ∈ ns then msg.type else 0
  peer := if 2 ∈ ns then msg.peer else none
  reservation := if 3 ∈ ns then msg.reservation else none
  limit := if 4 ∈ ns then msg.limit else none
  status := if 5 ∈ ns then msg.status else 0

def StopMessage.only (msg : StopMessage) (ns : List Nat) : StopMessage where
  type := if 1 ∈ ns then msg.type else 0
  peer := if 2 ∈ ns then msg.peer else none
  limit := if 3 ∈ ns then msg.limit else none
  status := if 4 ∈ ns then msg.status else 0

def CircuitV1Message.only (msg : CircuitV1Message) (ns : List Nat) : CircuitV1Message where
  type := if 1 ∈ ns then msg.type else 0
  srcPeer := if 2 ∈ ns then msg.srcPeer else none
  dstPeer := if 3 ∈ ns then msg.dstPeer else none
  code := if 4 ∈ ns then msg.code else 0

section

variable {fs gs : List Field} (once : ((fs ++ gs).map Field.number).Nodup)
include once

theorem HopMessage.ofFields_front :
    ofFields fs = (ofFields (fs ++ gs)).only (fs.map Field.number) := by
  simp only [ofFields, only, varints_front once, strings_front once, mk.injEq]
  refine ⟨?_, ?_, ?_, ?_, ?_⟩ <;> split_ifs <;> rfl

theorem StopMessage.ofFields_front :
    ofFields fs = (ofFields (fs ++ gs)).only (fs.map Field.number) := by
  simp only [ofFields, only, varints_front once, strings_front once, mk.injEq]
  refine ⟨?_, ?_, ?_, ?_⟩ <;> split_ifs <;> rfl

theorem CircuitV1Message.ofFields_front :
    ofFields fs = (ofFields (fs ++ gs)).only (fs.map Field.number) := by
  simp only [ofFields, only, varints_front once, strings_front once, mk.injEq]
  refine ⟨?_, ?_, ?_, ?_⟩ <;> split_ifs <;> rfl

end

theorem hopFields_once (msg : HopMessage) : ((hopFields msg).map Field.number).Nodup := by
  unfold hopFields
  split_ifs <;> simp

theorem stopFields_once (msg : StopMessage) : ((stopFields msg).map Field.number).Nodup := by
  unfold stopFields
  split_ifs <;> simp

theorem circuitV1Fields_once (msg : CircuitV1Message) :
    ((circuitV1Fields msg).map Field.number).Nodup := by
  unfold circuitV1Fields
  split_ifs <;> simp

theorem exists_decoded {N : Type} {decode : Bytes → Outcome N} {encode : Option N → Bytes}
    {x : Option N} (decodes : ∀ {n}, x = some n → decode (encode x) = pure n)
    (present : x.isSome) : ∃ n, decode (encode x) = pure n := by
  obtain ⟨n, rfl⟩ := Option.isSome_iff_exists.mp present
  exact ⟨n, decodes rfl⟩

theorem hopFields_known (msg : HopMessage) (int : (encodeHopMessage msg).length < 2 ^ 63) :
    ∀ f ∈ hopFields msg, HopField f := by
  have inner := (encodeHopMessage_writes msg).inner int
  intro f hf
  have mem := hf
  simp only [hopFields, List.mem_append, List.mem_ite_nil_right, List.mem_singleton] at mem
  rcases mem with (((rfl | ⟨present, rfl⟩) | ⟨present, rfl⟩) | ⟨present, rfl⟩) | ⟨-, rfl⟩
  · exact .type _
  · obtain ⟨p, decodes⟩ := exists_decoded (fun h => decodePeer_encodePeer h (inner _ hf)) present
    exact .peer decodes
  · obtain ⟨r, decodes⟩ :=
      exists_decoded (fun h => decodeReservation_encodeReservation h (inner _ hf)) present
    exact .reservation decodes
  · obtain ⟨l, decodes⟩ := exists_decoded (fun h => decodeLimit_encodeLimit h (inner _ hf)) present
    exact .limit decodes
  · exact .status _

theorem stopFields_known (msg : StopMessage) (int : (encodeStopMessage msg).length < 2 ^ 63) :
    ∀ f ∈ stopFields msg, StopField f := by
  have inner := (encodeStopMessage_writes msg).inner int
  intro f hf
  have mem := hf
  simp only [stopFields, List.mem_append, List.mem_ite_nil_right, List.mem_singleton] at mem
  rcases mem with ((rfl | ⟨present, rfl⟩) | ⟨present, rfl⟩) | ⟨-, rfl⟩
  · exact .type _
  · obtain ⟨p, decodes⟩ := exists_decoded (fun h => decodePeer_encodePeer h (inner _ hf)) present
    exact .peer decodes
  · obtain ⟨l, decodes⟩ := exists_decoded (fun h => decodeLimit_encodeLimit h (inner _ hf)) present
    exact .limit decodes
  · exact .status _

theorem circuitV1Fields_known (msg : CircuitV1Message)
    (int : (encodeCircuitV1 msg).length < 2 ^ 63) :
    ∀ f ∈ circuitV1Fields msg, CircuitV1Field f := by
  have inner := (encodeCircuitV1_writes msg).inner int
  intro f hf
  have mem := hf
  simp only [circuitV1Fields, List.mem_append, List.mem_ite_nil_right, List.mem_singleton] at mem
  rcases mem with ((rfl | ⟨present, rfl⟩) | ⟨present, rfl⟩) | ⟨-, rfl⟩
  · exact .type _
  · obtain ⟨p, decodes⟩ := exists_decoded (fun h => decodePeer_encodePeer h (inner _ hf)) present
    exact .srcPeer decodes
  · obtain ⟨p, decodes⟩ := exists_decoded (fun h => decodePeer_encodePeer h (inner _ hf)) present
    exact .dstPeer decodes
  · exact .code _

/-- A proper part of the encoding, from its beginning, is refused, or it ends between two
fields and the fields before that are returned. -/
def NeverMisread (encode : M → Bytes) (decode : Bytes → Outcome M) (fields : M → List Field)
    (only : M → List Nat → M) (msg : M) : Prop :=
  encode msg = encodeFields (fields msg) ∧
  ∀ p, p <+: encode msg → p ≠ encode msg →
    (∃ err, (decode p).run = some (.error err)) ∨
    ∃ fs, fs <+: fields msg ∧ p = encodeFields fs ∧
      (decode p).run = some (.ok (only msg (fs.map Field.number)))

theorem FieldByField.neverMisread {cases : Nat → Option (Case M)} {known : Field → Prop}
    {value : List Field → M} (reads : FieldByField cases known value) (table : Tabled cases known)
    {encode : M → Bytes} {fields : M → List Field} {only : M → List Nat → M} {msg : M}
    (encoded : encode msg = encodeFields (fields msg)) (int : (encode msg).length < 2 ^ 63)
    (all : ∀ f ∈ fields msg, known f) (once : ((fields msg).map Field.number).Nodup)
    (front : ∀ {fs gs}, ((fs ++ gs).map Field.number).Nodup →
      value fs = only (value (fs ++ gs)) (fs.map Field.number))
    (whole : decodeFields cases (value []) (encode msg) = pure msg) :
    NeverMisread encode (decodeFields cases (value [])) fields only msg := by
  refine ⟨encoded, ?_⟩
  rintro p ⟨r, cut⟩ -
  rw [encoded] at cut int whole
  have spells := spellsAll_known reads table all int
  have rebuilt : value (fields msg) = msg :=
    Option.some.inj (congrArg returned ((reads.decodes int spells all).symm.trans whole))
  rcases decodeFields_cut reads table all int cut.symm with refused | ⟨fs, gs, split, rfl, decodes⟩
  · exact Or.inl refused
  · grind

theorem cut_messages_never_misread :
    (∀ msg : HopMessage, 0 ≤ msg.status → (encodeHopMessage msg).length < 2 ^ 63 →
      NeverMisread encodeHopMessage decodeHopMessage hopFields HopMessage.only msg) ∧
    (∀ msg : StopMessage, 0 ≤ msg.status → (encodeStopMessage msg).length < 2 ^ 63 →
      NeverMisread encodeStopMessage decodeStopMessage stopFields StopMessage.only msg) ∧
    (∀ msg : CircuitV1Message, 0 ≤ msg.code → (encodeCircuitV1 msg).length < 2 ^ 63 →
      NeverMisread encodeCircuitV1 decodeCircuitV1 circuitV1Fields CircuitV1Message.only msg) := by
  refine ⟨fun msg status int => ?_, fun msg status int => ?_, fun msg code int => ?_⟩
  · exact hop_fieldByField.neverMisread hop_tabled (encodeHopMessage_fields msg) int
      (hopFields_known msg int) (hopFields_once msg) HopMessage.ofFields_front
      (decodeHopMessage_encodeHopMessage msg status int)
  · exact stop_fieldByField.neverMisread stop_tabled (encodeStopMessage_fields msg) int
      (stopFields_known msg int) (stopFields_once msg) StopMessage.ofFields_front
      (decodeStopMessage_encodeStopMessage msg status int)
  · exact circuitV1_fieldByField.neverMisread circuitV1_tabled (encodeCircuitV1_fields msg) int
      (circuitV1Fields_known msg int) (circuitV1Fields_once msg) CircuitV1Message.ofFields_front
      (decodeCircuitV1_encodeCircuitV1 msg code int)

end Relayhub
