import Toxera.Relayhub.CircuitFields

/-!
# Fields in any order

A decoder that reads a sequence of known fields returns what they say field by field: the
last occurrence of a field that a message has once, and all occurrences of one that it may
repeat.
-/

namespace Relayhub

open Protobuf

variable {fs : List Field}

variable {M : Type}

inductive PeerField : Field → Prop
  | id (b : Bytes) : PeerField ⟨1, .bytes b⟩
  | addr (b : Bytes) : PeerField ⟨2, .bytes b⟩

inductive ReservationField : Field → Prop
  | expire (v : UInt64) : ReservationField ⟨1, .varint v⟩
  | addr (b : Bytes) : ReservationField ⟨2, .bytes b⟩
  | voucher (b : Bytes) : ReservationField ⟨3, .bytes b⟩

inductive LimitField : Field → Prop
  | duration (v : UInt64) : LimitField ⟨1, .varint v⟩
  | data (v : UInt64) : LimitField ⟨2, .varint v⟩

inductive HopField : Field → Prop
  | type (v : UInt64) : HopField ⟨1, .varint v⟩
  | peer {b : Bytes} {p : Peer} (decodes : decodePeer b = pure p) : HopField ⟨2, .bytes b⟩
  | reservation {b : Bytes} {r : Reservation} (decodes : decodeReservation b = pure r) :
      HopField ⟨3, .bytes b⟩
  | limit {b : Bytes} {l : Limit} (decodes : decodeLimit b = pure l) : HopField ⟨4, .bytes b⟩
  | status (v : UInt64) : HopField ⟨5, .varint v⟩

inductive StopField : Field → Prop
  | type (v : UInt64) : StopField ⟨1, .varint v⟩
  | peer {b : Bytes} {p : Peer} (decodes : decodePeer b = pure p) : StopField ⟨2, .bytes b⟩
  | limit {b : Bytes} {l : Limit} (decodes : decodeLimit b = pure l) : StopField ⟨3, .bytes b⟩
  | status (v : UInt64) : StopField ⟨4, .varint v⟩

inductive CircuitV1Field : Field → Prop
  | type (v : UInt64) : CircuitV1Field ⟨1, .varint v⟩
  | srcPeer {b : Bytes} {p : Peer} (decodes : decodePeer b = pure p) :
      CircuitV1Field ⟨2, .bytes b⟩
  | dstPeer {b : Bytes} {p : Peer} (decodes : decodePeer b = pure p) :
      CircuitV1Field ⟨3, .bytes b⟩
  | code (v : UInt64) : CircuitV1Field ⟨4, .varint v⟩

def returned (x : Outcome M) : Option M := x.run.bind Except.toOption

@[simp] theorem returned_pure (m : M) : returned (pure m) = some m := rfl

def Peer.ofFields (fs : List Field) : Peer where
  id := (strings fs 1).getLast?
  addrs := strings fs 2

def Reservation.ofFields (fs : List Field) : Reservation where
  expire := (varints fs 1).getLast?.getD 0
  addrs := strings fs 2
  voucher := (strings fs 3).getLast?

def Limit.ofFields (fs : List Field) : Limit where
  duration := ((varints fs 1).getLast?.getD 0).toUInt32
  data := (varints fs 2).getLast?.getD 0

def HopMessage.ofFields (fs : List Field) : HopMessage where
  type := ((varints fs 1).getLast?.getD 0).toUInt32.toInt32
  peer := (strings fs 2).getLast?.bind fun b => returned (decodePeer b)
  reservation := (strings fs 3).getLast?.bind fun b => returned (decodeReservation b)
  limit := (strings fs 4).getLast?.bind fun b => returned (decodeLimit b)
  status := ((varints fs 5).getLast?.getD 0).toUInt32.toInt32

def StopMessage.ofFields (fs : List Field) : StopMessage where
  type := ((varints fs 1).getLast?.getD 0).toUInt32.toInt32
  peer := (strings fs 2).getLast?.bind fun b => returned (decodePeer b)
  limit := (strings fs 3).getLast?.bind fun b => returned (decodeLimit b)
  status := ((varints fs 4).getLast?.getD 0).toUInt32.toInt32

def CircuitV1Message.ofFields (fs : List Field) : CircuitV1Message where
  type := ((varints fs 1).getLast?.getD 0).toInt64
  srcPeer := (strings fs 2).getLast?.bind fun b => returned (decodePeer b)
  dstPeer := (strings fs 3).getLast?.bind fun b => returned (decodePeer b)
  code := ((varints fs 4).getLast?.getD 0).toInt64

structure FieldByField (cases : Nat → Option (Case M)) (known : Field → Prop)
    (value : List Field → M) : Prop where
  skippable : ∀ {f}, known f → Skippable f
  read : ∀ fs {f}, known f → readField cases (value fs) f = pure (value (fs ++ [f]))

section

variable {cases : Nat → Option (Case M)} {known : Field → Prop} {value : List Field → M}

theorem FieldByField.foldlM (h : FieldByField cases known value) (all : ∀ f ∈ fs, known f) :
    fs.foldlM (readField cases) (value []) = pure (value fs) := by
  induction fs using List.reverseRecOn with
  | nil => rfl
  | append_singleton fs f ih =>
    have front := ih fun g hg => all g (List.mem_append_left _ hg)
    rw [List.foldlM_append, front, pure_bind, List.foldlM_cons, h.read fs (all f (by simp)),
      pure_bind, List.foldlM_nil]

theorem FieldByField.decodes (h : FieldByField cases known value) {bs : Bytes}
    (int : bs.length < 2 ^ 63) (spells : SpellsAll bs fs) (all : ∀ f ∈ fs, known f) :
    decodeFields cases (value []) bs = pure (value fs) := by
  rw [decodeFields_spelled cases _ spells (fun f hf => h.skippable (all f hf)) int, h.foldlM all]

theorem readField_message {N : Type} {name : String} {decode : Bytes → Outcome N} {set : N → M → M}
    {field : Nat} (known : cases field = some (.message name decode set)) {b : Bytes} {n : N}
    (decodes : decode b = pure n) (m : M) :
    readField cases m ⟨field, .bytes b⟩ = pure (set n m) := by
  rw [readField, known]
  simp only [Case.message, decodes]
  rfl

end

theorem peer_fieldByField : FieldByField peerCases PeerField Peer.ofFields where
  skippable known := by cases known <;> simp [Skippable, Payload.wireType]
  read fs f known := by cases known <;> simp [readField, peerCases, Peer.ofFields]

theorem reservation_fieldByField :
    FieldByField reservationCases ReservationField Reservation.ofFields where
  skippable known := by cases known <;> simp [Skippable, Payload.wireType]
  read fs f known := by cases known <;> simp [readField, reservationCases, Reservation.ofFields]

theorem limit_fieldByField : FieldByField limitCases LimitField Limit.ofFields where
  skippable known := by cases known <;> simp [Skippable, Payload.wireType]
  read fs f known := by cases known <;> simp [readField, limitCases, Limit.ofFields]

theorem hop_fieldByField : FieldByField hopCases HopField HopMessage.ofFields where
  skippable known := by cases known <;> simp [Skippable, Payload.wireType]
  read fs f known := by
    cases known with
    | type v => simp [readField, hopCases, HopMessage.ofFields]
    | peer decodes =>
      rw [readField_message rfl decodes]
      simp [HopMessage.ofFields, decodes]
    | reservation decodes =>
      rw [readField_message rfl decodes]
      simp [HopMessage.ofFields, decodes]
    | limit decodes =>
      rw [readField_message rfl decodes]
      simp [HopMessage.ofFields, decodes]
    | status v => simp [readField, hopCases, HopMessage.ofFields]

theorem stop_fieldByField : FieldByField stopCases StopField StopMessage.ofFields where
  skippable known := by cases known <;> simp [Skippable, Payload.wireType]
  read fs f known := by
    cases known with
    | type v => simp [readField, stopCases, StopMessage.ofFields]
    | peer decodes =>
      rw [readField_message rfl decodes]
      simp [StopMessage.ofFields, decodes]
    | limit decodes =>
      rw [readField_message rfl decodes]
      simp [StopMessage.ofFields, decodes]
    | status v => simp [readField, stopCases, StopMessage.ofFields]

theorem circuitV1_fieldByField :
    FieldByField circuitV1Cases CircuitV1Field CircuitV1Message.ofFields where
  skippable known := by cases known <;> simp [Skippable, Payload.wireType]
  read fs f known := by
    cases known with
    | type v => simp [readField, circuitV1Cases, CircuitV1Message.ofFields]
    | srcPeer decodes =>
      rw [readField_message rfl decodes]
      simp [CircuitV1Message.ofFields, decodes]
    | dstPeer decodes =>
      rw [readField_message rfl decodes]
      simp [CircuitV1Message.ofFields, decodes]
    | code v => simp [readField, circuitV1Cases, CircuitV1Message.ofFields]

/-- The decoder returns what the fields say, and so the same for the fields in another
order. -/
def ReadsByNumber (decode : Bytes → Outcome M) (known : Field → Prop) (value : List Field → M) :
    Prop :=
  ∀ {bs : Bytes} {fs : List Field}, bs.length < 2 ^ 63 → SpellsAll bs fs → (∀ f ∈ fs, known f) →
    decode bs = pure (value fs) ∧
    ∀ {bs' : Bytes} {fs' : List Field}, bs'.length < 2 ^ 63 → SpellsAll bs' fs' →
      Reordered fs fs' → decode bs' = decode bs

theorem FieldByField.readsByNumber {cases : Nat → Option (Case M)} {known : Field → Prop}
    {value : List Field → M} (h : FieldByField cases known value)
    (order : ∀ {fs fs'}, Reordered fs fs' → value fs = value fs') :
    ReadsByNumber (decodeFields cases (value [])) known value := by
  intro bs fs int spells all
  have decodes := h.decodes int spells all
  refine ⟨decodes, ?_⟩
  intro bs' fs' int' spells' reordered
  have all' : ∀ f ∈ fs', known f := fun f hf => all f (reordered.perm.mem_iff.mpr hf)
  rw [decodes, h.decodes int' spells' all', order reordered]

theorem decoders_read_by_number :
    ReadsByNumber decodeHopMessage HopField HopMessage.ofFields ∧
    ReadsByNumber decodePeer PeerField Peer.ofFields ∧
    ReadsByNumber decodeReservation ReservationField Reservation.ofFields ∧
    ReadsByNumber decodeLimit LimitField Limit.ofFields := by
  refine ⟨hop_fieldByField.readsByNumber fun h => ?_, peer_fieldByField.readsByNumber fun h => ?_,
    reservation_fieldByField.readsByNumber fun h => ?_,
    limit_fieldByField.readsByNumber fun h => ?_⟩
  · simp only [HopMessage.ofFields, h.varints, h.strings]
  · simp only [Peer.ofFields, h.strings]
  · simp only [Reservation.ofFields, h.varints, h.strings]
  · simp only [Limit.ofFields, h.varints]

end Relayhub
