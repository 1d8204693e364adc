import Toxera.Relayhub.CircuitFields

/-!
# The six decoders by kind

The decoders of `relayhub/circuitpb.go` and `circuitv1.go` are one loop over six tables.
-/

namespace Relayhub

open Protobuf PbDecoder

inductive Kind where
  | hop
  | stop
  | circuitV1
  | peer
  | reservation
  | limit

variable {N : Type} {k k' : Kind} {n wt fuel : Nat} {name : String}

namespace Kind

/-- The kind of message that a field holds. -/
def nested : Kind → Nat → Option Kind
  | hop, 2 => some peer
  | hop, 3 => some reservation
  | hop, 4 => some limit
  | stop, 2 => some peer
  | stop, 3 => some limit
  | circuitV1, 2 => some peer
  | circuitV1, 3 => some peer
  | _, _ => none

/-- The wire type that the decoder wants for a field; none for a field it does not know. -/
def wireType : Kind → Nat → Option Nat
  | hop, 1 | hop, 5 => some 0
  | hop, 2 | hop, 3 | hop, 4 => some 2
  | stop, 1 | stop, 4 => some 0
  | stop, 2 | stop, 3 => some 2
  | circuitV1, 1 | circuitV1, 4 => some 0
  | circuitV1, 2 | circuitV1, 3 => some 2
  | peer, 1 | peer, 2 => some 2
  | reservation, 1 => some 0
  | reservation, 2 | reservation, 3 => some 2
  | limit, 1 | limit, 2 => some 0
  | _, _ => none

def Typed (k : Kind) (f : Field) : Prop :=
  ∀ wt, k.wireType f.number = some wt → f.payload.wireType = wt

def Message : Kind → Type
  | hop => HopMessage
  | stop => StopMessage
  | circuitV1 => CircuitV1Message
  | peer => Peer
  | reservation => Reservation
  | limit => Limit

def decode : (k : Kind) → Bytes → Outcome k.Message
  | hop => decodeHopMessage
  | stop => decodeStopMessage
  | circuitV1 => decodeCircuitV1
  | peer => decodePeer
  | reservation => decodeReservation
  | limit => decodeLimit

def table : (k : Kind) → Nat → Option (Case k.Message)
  | hop => hopCases
  | stop => stopCases
  | circuitV1 => circuitV1Cases
  | peer => peerCases
  | reservation => reservationCases
  | limit => limitCases

def zero : (k : Kind) → k.Message
  | hop => ({} : HopMessage)
  | stop => ({} : StopMessage)
  | circuitV1 => ({} : CircuitV1Message)
  | peer => ({} : Peer)
  | reservation => ({} : Reservation)
  | limit => ({} : Limit)

theorem decode_eq (k : Kind) (bs : Bytes) : k.decode bs = decodeFields k.table k.zero bs := by
  cases k <;> rfl

theorem nested_wireType (h : k.nested n = some k') : k.wireType n = some 2 := by
  unfold Kind.nested at h
  split at h <;> simp_all [wireType]

theorem nested_leaf (h : k.nested n = some k') (n' : Nat) : k'.nested n' = none := by
  unfold Kind.nested at h
  split at h <;> cases h <;> rfl

end Kind

section

variable {M : Type}

def Accepted (x : Outcome M) : Prop := ∃ m, x = pure m

def Refused (x : Outcome M) : Prop := ∃ err, x = throw err

theorem outcome_cases (x : Outcome M) : Accepted x ∨ Refused x ∨ x.run = none := by
  match x with
  | some (.ok m) => exact .inl ⟨m, rfl⟩
  | some (.error err) => exact .inr (.inl ⟨err, rfl⟩)
  | none => exact .inr (.inr rfl)

theorem Accepted.not_refused {x : Outcome M} (h : Accepted x) : ¬ Refused x := by
  rintro ⟨err, same⟩
  obtain ⟨m, rfl⟩ := h
  cases same

theorem Accepted.run_ne_none {x : Outcome M} (h : Accepted x) : x.run ≠ none := by
  obtain ⟨m, rfl⟩ := h
  exact Option.some_ne_none _

theorem Refused.run_ne_none {x : Outcome M} (h : Refused x) : x.run ≠ none := by
  obtain ⟨err, rfl⟩ := h
  exact Option.some_ne_none _

theorem accepted_bind {x : Outcome M} {g : M → Outcome N} :
    Accepted (x >>= g) ↔ ∃ m, x = pure m ∧ Accepted (g m) := by
  constructor
  · rintro ⟨n, h⟩
    match x, h with
    | some (.ok m), h => exact ⟨m, rfl, n, h⟩
  · rintro ⟨m, rfl, h⟩
    rwa [pure_bind]

theorem Refused.bind {x : Outcome M} (h : Refused x) (g : M → Outcome N) : Refused (x >>= g) := by
  obtain ⟨err, rfl⟩ := h
  exact ⟨err, rfl⟩

theorem bind_of_none {x : Outcome M} (h : x.run = none) (g : M → Outcome N) :
    (x >>= g).run = none := by
  match x, h with
  | none, _ => rfl

theorem run_ne_none_of_bind {x : Outcome M} {g : M → Outcome N} (h : (x >>= g).run ≠ none) :
    x.run ≠ none :=
  fun crash => h (bind_of_none crash g)

end

def Kind.Accepts (k : Kind) (bs : Bytes) : Prop := Accepted (k.decode bs)

section

variable {M : Type}

/-- What a message inside of a message does to the outcome. -/
theorem message_outcome {decode : Bytes → Outcome N} {set : N → M → M} {b : Bytes} {m : M}
    {x : Outcome M} (eq : x = ((decode b).run.map fun
      | .error err => .error (name ++ " decode: " ++ err)
      | .ok n => .ok (set n m) : Option (Except String M))) :
    (Accepted x ↔ Accepted (decode b)) ∧ (x.run = none ↔ (decode b).run = none) := by
  subst eq
  match read : decode b with
  | some (.ok n) => exact ⟨iff_of_true ⟨set n m, rfl⟩ ⟨n, rfl⟩, iff_of_false nofun nofun⟩
  | some (.error err) =>
    exact ⟨iff_of_false (fun h => h.not_refused ⟨_, rfl⟩) fun h => h.not_refused ⟨err, rfl⟩,
      iff_of_false nofun nofun⟩
  | none =>
    exact ⟨iff_of_false (fun h => h.run_ne_none rfl) fun h => h.run_ne_none rfl,
      iff_of_true rfl rfl⟩

/-- A field that the table does not know, an integer, or a byte string that may be a
message itself. -/
inductive Row (k : Kind) (n : Nat) : Option (Case k.Message) → Prop
  | unknown (type : k.wireType n = none) (leaf : k.nested n = none) : Row k n none
  | varint {name : String} {set : UInt64 → k.Message → k.Message} (type : k.wireType n = some 0)
      (leaf : k.nested n = none) : Row k n (some ⟨name, .varint set⟩)
  | bytes {name : String} {set : Bytes → k.Message → Outcome k.Message}
      (type : k.wireType n = some 2)
      (stores : ∀ b m, (Accepted (set b m) ↔ ∀ k', k.nested n = some k' → k'.Accepts b) ∧
        ((set b m).run = none ↔ ∃ k', k.nested n = some k' ∧ (k'.decode b).run = none)) :
      Row k n (some ⟨name, .bytes set⟩)

theorem Row.leaf {set : Bytes → k.Message → k.Message}
    (type : k.wireType n = some 2) (leaf : k.nested n = none) :
    Row k n (some ⟨name, .bytes fun b m => pure (set b m)⟩) := by
  refine .bytes type fun b m => ⟨iff_of_true ⟨set b m, rfl⟩ ?_, iff_of_false nofun ?_⟩ <;>
    simp [leaf]

theorem Row.message (k' : Kind) {set : k'.Message → k.Message → k.Message}
    (nested : k.nested n = some k') : Row k n (some (.message name k'.decode set)) := by
  refine .bytes (Kind.nested_wireType nested) fun b m => ?_
  obtain ⟨accepted, crashed⟩ := @message_outcome _ name _ k'.decode set b m _ rfl
  refine ⟨accepted.trans ?_, crashed.trans ?_⟩ <;> simp [nested, Kind.Accepts]

theorem Kind.row (k : Kind) (n : Nat) : Row k n (k.table n) := by
  cases k with
  | hop =>
    match n with
    | 1 | 5 => exact .varint rfl rfl
    | 2 => exact .message .peer rfl
    | 3 => exact .message .reservation rfl
    | 4 => exact .message .limit rfl
    | 0 | n + 6 => exact .unknown rfl rfl
  | stop =>
    match n with
    | 1 | 4 => exact .varint rfl rfl
    | 2 => exact .message .peer rfl
    | 3 => exact .message .limit rfl
    | 0 | n + 5 => exact .unknown rfl rfl
  | circuitV1 =>
    match n with
    | 1 | 4 => exact .varint rfl rfl
    | 2 | 3 => exact .message .peer rfl
    | 0 | n + 5 => exact .unknown rfl rfl
  | peer =>
    match n with
    | 1 | 2 => exact .leaf rfl rfl
    | 0 | n + 3 => exact .unknown rfl rfl
  | reservation =>
    match n with
    | 1 => exact .varint rfl rfl
    | 2 | 3 => exact .leaf rfl rfl
    | 0 | n + 4 => exact .unknown rfl rfl
  | limit =>
    match n with
    | 1 | 2 => exact .varint rfl rfl
    | 0 | n + 3 => exact .unknown rfl rfl

theorem Kind.table_eq_none (unknown : k.wireType n = none) : k.table n = none := by
  have row := k.row n
  generalize k.table n = entry at row
  cases row with
  | unknown => rfl
  | varint type => simp [type] at unknown
  | bytes type => simp [type] at unknown

/-- A field is stored exactly if its wire type is right and the message in it decodes; the
process ends exactly if it ends in that message. -/
theorem readField_outcome (k : Kind) (m : k.Message) (f : Field) :
    (Accepted (readField k.table m f) ↔ k.Typed f ∧
      ∀ b k', f.payload = .bytes b → k.nested f.number = some k' → k'.Accepts b) ∧
    ((readField k.table m f).run = none ↔
      ∃ b k', f.payload = .bytes b ∧ k.nested f.number = some k' ∧ (k'.decode b).run = none) := by
  obtain ⟨n, p⟩ := f
  have row := k.row n
  have wrong (err : String) : ¬ Accepted (throw err : Outcome k.Message) :=
    fun h => h.not_refused ⟨err, rfl⟩
  unfold readField Kind.Typed
  simp only
  generalize k.table n = entry at row
  cases row with
  | unknown type leaf => simp [type, leaf, Accepted]
  | varint type leaf =>
    cases p with
    | varint v => simp [type, leaf, Payload.wireType, Accepted]
    | _ => simp [type, leaf, Payload.wireType, wrong]
  | bytes type stores =>
    cases p with
    | bytes b => simp [stores, type, Payload.wireType, forall_comm (α := List UInt8)]
    | _ => simp [type, Payload.wireType, wrong]

end

theorem decodeLoop_broken {M : Type} (cases : Nat → Option (Case M)) {rest : Bytes}
    (broken : Varint.Broken rest) (enough : 0 < fuel) (pre : Bytes) (m : M) :
    decodeLoop cases fuel (after pre rest) m = pure m := by
  obtain ⟨fuel, rfl⟩ := Nat.exists_eq_add_one.mpr enough
  rw [decodeLoop]
  split_ifs with more
  · rw [decodeTag, if_neg (by omega), readVarint_broken broken]
    rfl
  · rfl

/-- A length that takes the position beyond 2^63 passes the test as a negative one, and `make`
is asked for more bytes than there are. -/
theorem readBytes_wraps {l : UInt64} {size pre rest : Bytes} (sized : Varint.Spells size l.toNat)
    (int : (pre ++ (size ++ rest)).length < 2 ^ 62)
    (wraps : 2 ^ 63 ≤ (pre ++ size).length + l.toNat) :
    (after pre (size ++ rest)).readBytes = none := by
  have l64 := l.toNat_lt
  rw [← List.append_assoc, List.length_append] at int
  have pos : int64 ((after (pre ++ size) rest).pos + int64 l.toNat) =
      (pre ++ size).length + l.toNat - 2 ^ 64 := by
    rw [int64_add_right, after_pos]
    exact int64_wraps (by omega) (by omega)
  have passes : ¬ ((after (pre ++ size) rest).data.length : Int) <
      (pre ++ size).length + l.toNat - 2 ^ 64 := by
    rw [after_length]
    omega
  have big : (after (pre ++ size) rest).data.length < l.toNat := by
    rw [after_length]
    omega
  rw [readBytes, readVarint_after sized, Option.bind_some]
  simp only [pos, if_neg passes, if_pos big]

theorem PbDecoder.skip_foreign (type : wt ≠ 0 ∧ wt ≠ 2) (d : PbDecoder) : d.skip wt = some d := by
  rw [skip, if_neg type.1, if_neg type.2]

theorem decodeLoop_skip {d : PbDecoder} {tag : Bytes}
    (tagged : Varint.Spells tag (8 * n + wt)) (small : wt < 8) (unknown : k.wireType n = none)
    {pre rest : Bytes} (skipped : (after (pre ++ tag) rest).skip wt = some d) (fuel : Nat)
    (m : k.Message) :
    decodeLoop k.table (fuel + 1) (after pre (tag ++ rest)) m = decodeLoop k.table fuel d m := by
  rw [decodeLoop_unknown k.table tagged small pre rest fuel m (Kind.table_eq_none unknown), skipped]
  rfl

theorem Case.read_foreign {M : Type} (c : Case M) (type : wt ≠ 0 ∧ wt ≠ 2) (d : PbDecoder)
    (m : M) : c.read wt d m = some (.error (c.wrongType wt)) := by
  obtain ⟨name, slot⟩ := c
  cases slot with
  | varint set => exact if_pos type.1
  | bytes set => exact if_pos type.2

end Relayhub
