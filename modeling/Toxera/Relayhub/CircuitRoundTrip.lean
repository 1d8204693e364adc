import Toxera.Relayhub.CircuitFields

/-!
# Encoded messages are decoded again

The encoders of the circuit protocols write well-formed fields, and reading these fields
one after the other rebuilds the message.
-/

namespace Relayhub

open Protobuf

variable {bs : Bytes} {f : Field} {v : Nat}

variable {M : Type}

theorem putUvarint_base128 {n : Nat} (fits : v < 128 ^ (n + 1)) :
    Varint.Base128 (putUvarint (n + 1) v) v ∧ (putUvarint (n + 1) v).length ≤ n + 1 := by
  induction n generalizing v with
  | zero =>
    have small : v < 128 := fits
    rw [putUvarint, if_pos small]
    exact ⟨.last_of_lt small, le_rfl⟩
  | succ n ih =>
    rw [putUvarint]
    split_ifs with small
    · exact ⟨.last_of_lt small, Nat.succ_le_succ (Nat.zero_le _)⟩
    · have rest : v / 128 < 128 ^ (n + 1) := by
        rw [Nat.div_lt_iff_lt_mul (by decide)]
        exact fits
      obtain ⟨digits, short⟩ := ih rest
      exact ⟨.more_of_div digits, Nat.succ_le_succ short⟩

theorem encodeVarint_spells (fits : v < 2 ^ 64) : Varint.Spells (encodeVarint v) v := by
  have big : v < 128 ^ (9 + 1) := lt_trans fits (by decide)
  obtain ⟨digits, short⟩ := putUvarint_base128 big
  exact ⟨digits, short, fits⟩

theorem encodeTag_spells {field wireType : Nat} (small : field < 2 ^ 32) (wt : wireType < 8) :
    Varint.Spells (encodeTag field wireType) (8 * field + wireType) := by
  rw [encodeTag, ← Nat.shiftLeft_add_eq_or_of_lt wt, Nat.shiftLeft_eq, Nat.mul_comm]
  exact encodeVarint_spells (by omega)

/-- The bytes spell fields that any decoder can read, provided that they fit in a slice. -/
structure Writes (bs : Bytes) (fs : List Field) : Prop where
  spells : bs.length < 2 ^ 63 → SpellsAll bs fs
  skippable : ∀ f ∈ fs, Skippable f

theorem Writes.nil : Writes [] [] := ⟨fun _ => .nil, by simp⟩

theorem Writes.append {cs : Bytes} {fs gs : List Field} (h : Writes bs fs) (h' : Writes cs gs) :
    Writes (bs ++ cs) (fs ++ gs) := by
  refine ⟨fun int => ?_, fun f hf => ?_⟩
  · rw [List.length_append] at int
    exact (h.spells (by omega)).append (h'.spells (by omega))
  · exact (List.mem_append.mp hf).elim (h.skippable f) (h'.skippable f)

theorem Writes.ite {fs : List Field} (h : Writes bs fs) (p : Prop) [Decidable p] :
    Writes (if p then bs else []) (if p then fs else []) := by
  split_ifs
  · exact h
  · exact .nil

theorem writes_varintField {field : Nat} (small : field < 2 ^ 32) (v : UInt64) :
    Writes (pbEncodeVarintField field v) [⟨field, .varint v⟩] where
  spells _ := Field.Spells.single
    ⟨_, _, encodeTag_spells small (Payload.wireType_lt _), encodeVarint_spells v.toNat_lt, rfl⟩
  skippable := by simp [Skippable, Payload.wireType]

theorem writes_delimField {field : Nat} (small : field < 2 ^ 32) (data : Bytes) :
    Writes (pbEncodeLengthDelimField field data) [⟨field, .bytes data⟩] where
  spells int := by
    rw [pbEncodeLengthDelimField, List.length_append] at int
    have size := encodeVarint_spells (by omega : data.length < 2 ^ 64)
    rw [pbEncodeLengthDelimField, List.append_assoc]
    exact Field.Spells.single
      ⟨_, _, encodeTag_spells small (Payload.wireType_lt _), ⟨_, size, rfl⟩, rfl⟩
  skippable := by simp [Skippable, Payload.wireType]

theorem writes_delimFields {field : Nat} (small : field < 2 ^ 32) (items : List Bytes) :
    Writes (pbEncodeLengthDelimFields field items)
      (items.map fun item => ⟨field, .bytes item⟩) := by
  induction items with
  | nil => exact .nil
  | cons item items ih => exact (writes_delimField small item).append ih

theorem writes_optional {field : Nat} (small : field < 2 ^ 32) (x : Option Bytes) :
    Writes (x.elim [] fun b => pbEncodeLengthDelimField field b)
      (x.elim [] fun b => [⟨field, .bytes b⟩]) := by
  cases x with
  | none => exact .nil
  | some b => exact writes_delimField small b

def peerFields (p : Peer) : List Field :=
  (p.id.elim [] fun id => [⟨1, .bytes id⟩]) ++
  if 0 < p.addrs.length then p.addrs.map fun addr => ⟨2, .bytes addr⟩ else []

def reservationFields (r : Reservation) : List Field :=
  (if 0 < r.expire then [⟨1, .varint r.expire⟩] else []) ++
  (if 0 < r.addrs.length then r.addrs.map fun addr => ⟨2, .bytes addr⟩ else []) ++
  r.voucher.elim [] fun voucher => [⟨3, .bytes voucher⟩]

def limitFields (l : Limit) : List Field :=
  (if 0 < l.duration then [⟨1, .varint l.duration.toUInt64⟩] else []) ++
  if 0 < l.data then [⟨2, .varint l.data⟩] else []

def hopFields (msg : HopMessage) : List Field :=
  [⟨1, .varint msg.type.toInt64.toUInt64⟩] ++
  (if msg.peer.isSome then [⟨2, .bytes (encodePeer msg.peer)⟩] else []) ++
  (if msg.reservation.isSome then [⟨3, .bytes (encodeReservation msg.reservation)⟩] else []) ++
  (if msg.limit.isSome then [⟨4, .bytes (encodeLimit msg.limit)⟩] else []) ++
  if 0 < msg.status then [⟨5, .varint msg.status.toInt64.toUInt64⟩] else []

def stopFields (msg : StopMessage) : List Field :=
  [⟨1, .varint msg.type.toInt64.toUInt64⟩] ++
  (if msg.peer.isSome then [⟨2, .bytes (encodePeer msg.peer)⟩] else []) ++
  (if msg.limit.isSome then [⟨3, .bytes (encodeLimit msg.limit)⟩] else []) ++
  if 0 < msg.status then [⟨4, .varint msg.status.toInt64.toUInt64⟩] else []

def circuitV1Fields (msg : CircuitV1Message) : List Field :=
  [⟨1, .varint msg.type.toUInt64⟩] ++
  (if msg.srcPeer.isSome then [⟨2, .bytes (encodePeer msg.srcPeer)⟩] else []) ++
  (if msg.dstPeer.isSome then [⟨3, .bytes (encodePeer msg.dstPeer)⟩] else []) ++
  if 0 < msg.code then [⟨4, .varint msg.code.toUInt64⟩] else []

theorem encodePeer_writes (p : Peer) : Writes (encodePeer (some p)) (peerFields p) :=
  (writes_optional (by decide) p.id).append ((writes_delimFields (by decide) p.addrs).ite _)

theorem encodeReservation_writes (r : Reservation) :
    Writes (encodeReservation (some r)) (reservationFields r) :=
  (((writes_varintField (by decide) r.expire).ite _).append
    ((writes_delimFields (by decide) r.addrs).ite _)).append (writes_optional (by decide) r.voucher)

theorem encodeLimit_writes (l : Limit) : Writes (encodeLimit (some l)) (limitFields l) :=
  ((writes_varintField (by decide) _).ite _).append ((writes_varintField (by decide) _).ite _)

theorem encodeHopMessage_writes (msg : HopMessage) :
    Writes (encodeHopMessage msg) (hopFields msg) :=
  ((((writes_varintField (by decide) _).append ((writes_delimField (by decide) _).ite _)).append
    ((writes_delimField (by decide) _).ite _)).append
    ((writes_delimField (by decide) _).ite _)).append ((writes_varintField (by decide) _).ite _)

theorem encodeStopMessage_writes (msg : StopMessage) :
    Writes (encodeStopMessage msg) (stopFields msg) :=
  (((writes_varintField (by decide) _).append ((writes_delimField (by decide) _).ite _)).append
    ((writes_delimField (by decide) _).ite _)).append ((writes_varintField (by decide) _).ite _)

theorem encodeCircuitV1_writes (msg : CircuitV1Message) :
    Writes (encodeCircuitV1 msg) (circuitV1Fields msg) :=
  (((writes_varintField (by decide) _).append ((writes_delimField (by decide) _).ite _)).append
    ((writes_delimField (by decide) _).ite _)).append ((writes_varintField (by decide) _).ite _)

def Yields (cases : Nat → Option (Case M)) (fs : List Field) (m m' : M) : Prop :=
  fs.foldlM (readField cases) m = pure m'

section Yields

variable {cases : Nat → Option (Case M)} {fs gs : List Field} {m m' m'' : M} {field : Nat}

theorem Yields.append (h : Yields cases fs m m') (h' : Yields cases gs m' m'') :
    Yields cases (fs ++ gs) m m'' := by
  rw [Yields, List.foldlM_append, h, pure_bind, h']

theorem Yields.single (h : readField cases m f = pure m') : Yields cases [f] m m' := by
  rw [Yields, List.foldlM_cons, h]
  rfl

theorem Yields.ite {p : Prop} [Decidable p] (h : readField cases m f = pure m')
    (zero : ¬ p → m = m') : Yields cases (if p then [f] else []) m m' := by
  split_ifs with written
  · exact .single h
  · exact congrArg pure (zero written)

theorem Yields.optional {x : Option Bytes}
    (present : ∀ b, x = some b → readField cases m ⟨field, .bytes b⟩ = pure m')
    (absent : x = none → m = m') :
    Yields cases (x.elim [] fun b => [⟨field, .bytes b⟩]) m m' := by
  cases x with
  | none => exact congrArg pure (absent rfl)
  | some b => exact .single (present b rfl)

theorem Yields.repeated (put : List Bytes → M)
    (reads : ∀ done b, readField cases (put done) ⟨field, .bytes b⟩ = pure (put (done ++ [b])))
    (items : List Bytes) :
    Yields cases (if 0 < items.length then items.map fun item => ⟨field, .bytes item⟩ else [])
      (put []) (put items) := by
  have collects (done : List Bytes) :
      Yields cases (items.map fun item => ⟨field, .bytes item⟩) (put done)
        (put (done ++ items)) := by
    induction items generalizing done with
    | nil =>
      rw [List.append_nil]
      rfl
    | cons item items ih =>
      have rest := ih (done ++ [item])
      rw [List.append_assoc] at rest
      exact (Yields.single (reads done item)).append rest
  split_ifs with nonempty
  · exact collects []
  · grind

theorem Yields.message {N : Type} {name : String} {decode : Bytes → Outcome N} {set : N → M → M}
    (known : cases field = some (.message name decode set)) {encode : Option N → Bytes}
    {x : Option N}
    (decodes : ∀ {n}, x = some n → (encode x).length < 2 ^ 63 → decode (encode x) = pure n)
    (int : x.isSome → (encode x).length < 2 ^ 63) (present : ∀ n, x = some n → set n m = m')
    (absent : x = none → m = m') :
    Yields cases (if x.isSome then [⟨field, .bytes (encode x)⟩] else []) m m' := by
  cases x with
  | none => exact congrArg pure (absent rfl)
  | some n =>
    refine Yields.single ?_
    rw [← present n rfl, readField, known]
    simp only [Case.message, decodes rfl (int rfl)]
    rfl

theorem Writes.decodes (h : Writes bs fs) (int : bs.length < 2 ^ 63) (yields : Yields cases fs m m') :
    decodeFields cases m bs = pure m' :=
  (decodeFields_spelled cases m (h.spells int) h.skippable int).trans yields

end Yields

theorem decodePeer_encodePeer {x : Option Peer} {p : Peer} (present : x = some p)
    (int : (encodePeer x).length < 2 ^ 63) : decodePeer (encodePeer x) = pure p := by
  subst present
  have id : Yields peerCases (p.id.elim [] fun id => [⟨1, .bytes id⟩]) {} ⟨p.id, []⟩ :=
    .optional (fun b present => by rw [present]; rfl) (fun absent => by rw [absent])
  have addrs : Yields peerCases
      (if 0 < p.addrs.length then p.addrs.map fun addr => ⟨2, .bytes addr⟩ else [])
      ⟨p.id, []⟩ p :=
    .repeated (fun addrs => (⟨p.id, addrs⟩ : Peer)) (fun _ _ => rfl) p.addrs
  exact (encodePeer_writes p).decodes int (id.append addrs)

theorem decodeReservation_encodeReservation {x : Option Reservation} {r : Reservation}
    (present : x = some r) (int : (encodeReservation x).length < 2 ^ 63) :
    decodeReservation (encodeReservation x) = pure r := by
  subst present
  have expire : Yields reservationCases (if 0 < r.expire then [⟨1, .varint r.expire⟩] else [])
      {} ⟨r.expire, [], none⟩ := by
    refine .ite rfl fun zero => ?_
    rw [UInt64.pos_iff_ne_zero, not_not] at zero
    rw [zero]
  have addrs : Yields reservationCases
      (if 0 < r.addrs.length then r.addrs.map fun addr => ⟨2, .bytes addr⟩ else [])
      ⟨r.expire, [], none⟩ ⟨r.expire, r.addrs, none⟩ :=
    .repeated (fun addrs => (⟨r.expire, addrs, none⟩ : Reservation)) (fun _ _ => rfl) r.addrs
  have voucher : Yields reservationCases (r.voucher.elim [] fun voucher => [⟨3, .bytes voucher⟩])
      ⟨r.expire, r.addrs, none⟩ ⟨r.expire, r.addrs, r.voucher⟩ :=
    .optional (fun b present => by rw [present]; rfl) (fun absent => by rw [absent])
  exact (encodeReservation_writes r).decodes int ((expire.append addrs).append voucher)

theorem decodeLimit_encodeLimit {x : Option Limit} {l : Limit} (present : x = some l)
    (int : (encodeLimit x).length < 2 ^ 63) : decodeLimit (encodeLimit x) = pure l := by
  subst present
  have duration : Yields limitCases
      (if 0 < l.duration then [⟨1, .varint l.duration.toUInt64⟩] else []) {} ⟨l.duration, 0⟩ := by
    refine .ite ?_ fun zero => ?_
    · show pure (⟨l.duration.toUInt64.toUInt32, 0⟩ : Limit) = _
      rw [UInt32.toUInt32_toUInt64]
    · grind
  have data : Yields limitCases (if 0 < l.data then [⟨2, .varint l.data⟩] else [])
      ⟨l.duration, 0⟩ ⟨l.duration, l.data⟩ := by
    refine .ite rfl fun zero => ?_
    rw [UInt64.pos_iff_ne_zero, not_not] at zero
    rw [zero]
  exact (encodeLimit_writes l).decodes int (duration.append data)

theorem toInt32_extended (x : Int32) : x.toInt64.toUInt64.toUInt32.toInt32 = x := by
  apply Int32.toBitVec_inj.mp
  show (x.toBitVec.signExtend 64).setWidth 32 = _
  rw [← BitVec.signExtend_eq_setWidth_of_le _ (by decide)]
  exact congrArg Int32.toBitVec (Int32.toInt32_toInt64 x)

theorem Writes.inner {fs : List Field} (h : Writes bs fs) (int : bs.length < 2 ^ 63) (field : Nat)
    {b : Bytes} (mem : ⟨field, .bytes b⟩ ∈ fs) : b.length < 2 ^ 63 :=
  ((h.spells int).payload_length mem).trans_lt int

theorem decodeHopMessage_encodeHopMessage (msg : HopMessage) (status : 0 ≤ msg.status)
    (int : (encodeHopMessage msg).length < 2 ^ 63) :
    decodeHopMessage (encodeHopMessage msg) = pure msg := by
  have writes := encodeHopMessage_writes msg
  obtain ⟨type, peer, resv, limit, code⟩ := msg
  have step₁ : Yields hopCases [⟨1, .varint type.toInt64.toUInt64⟩] {} { type := type } := by
    refine .single ?_
    show pure ({ type := type.toInt64.toUInt64.toUInt32.toInt32 } : HopMessage) = _
    rw [toInt32_extended]
  have step₂ : Yields hopCases (if peer.isSome then [⟨2, .bytes (encodePeer peer)⟩] else [])
      { type := type } { type := type, peer := peer } := by
    refine .message rfl decodePeer_encodePeer (fun present => ?_) (fun p present => by rw [present])
      fun absent => by rw [absent]
    exact writes.inner int 2 (by simp [hopFields, present])
  have step₃ : Yields hopCases (if resv.isSome then [⟨3, .bytes (encodeReservation resv)⟩] else [])
      { type := type, peer := peer } { type := type, peer := peer, reservation := resv } := by
    refine .message rfl decodeReservation_encodeReservation (fun present => ?_)
      (fun r present => by rw [present]) fun absent => by rw [absent]
    exact writes.inner int 3 (by simp [hopFields, present])
  have step₄ : Yields hopCases (if limit.isSome then [⟨4, .bytes (encodeLimit limit)⟩] else [])
      { type := type, peer := peer, reservation := resv } ⟨type, peer, resv, limit, 0⟩ := by
    refine .message rfl decodeLimit_encodeLimit (fun present => ?_)
      (fun l present => by rw [present]) fun absent => by rw [absent]
    exact writes.inner int 4 (by simp [hopFields, present])
  have step₅ : Yields hopCases (if 0 < code then [⟨5, .varint code.toInt64.toUInt64⟩] else [])
      ⟨type, peer, resv, limit, 0⟩ ⟨type, peer, resv, limit, code⟩ := by
    refine .ite ?_ fun zero => by rw [Int32.le_antisymm (Int32.not_lt.mp zero) status]
    show pure (⟨type, peer, resv, limit, code.toInt64.toUInt64.toUInt32.toInt32⟩ : HopMessage) = _
    rw [toInt32_extended]
  exact writes.decodes int ((((step₁.append step₂).append step₃).append step₄).append step₅)

theorem decodeStopMessage_encodeStopMessage (msg : StopMessage) (status : 0 ≤ msg.status)
    (int : (encodeStopMessage msg).length < 2 ^ 63) :
    decodeStopMessage (encodeStopMessage msg) = pure msg := by
  have writes := encodeStopMessage_writes msg
  obtain ⟨type, peer, limit, code⟩ := msg
  have step₁ : Yields stopCases [⟨1, .varint type.toInt64.toUInt64⟩] {} { type := type } := by
    refine .single ?_
    show pure ({ type := type.toInt64.toUInt64.toUInt32.toInt32 } : StopMessage) = _
    rw [toInt32_extended]
  have step₂ : Yields stopCases (if peer.isSome then [⟨2, .bytes (encodePeer peer)⟩] else [])
      { type := type } { type := type, peer := peer } := by
    refine .message rfl decodePeer_encodePeer (fun present => ?_) (fun p present => by rw [present])
      fun absent => by rw [absent]
    exact writes.inner int 2 (by simp [stopFields, present])
  have step₃ : Yields stopCases (if limit.isSome then [⟨3, .bytes (encodeLimit limit)⟩] else [])
      { type := type, peer := peer } ⟨type, peer, limit, 0⟩ := by
    refine .message rfl decodeLimit_encodeLimit (fun present => ?_)
      (fun l present => by rw [present]) fun absent => by rw [absent]
    exact writes.inner int 3 (by simp [stopFields, present])
  have step₄ : Yields stopCases (if 0 < code then [⟨4, .varint code.toInt64.toUInt64⟩] else [])
      ⟨type, peer, limit, 0⟩ ⟨type, peer, limit, code⟩ := by
    refine .ite ?_ fun zero => by rw [Int32.le_antisymm (Int32.not_lt.mp zero) status]
    show pure (⟨type, peer, limit, code.toInt64.toUInt64.toUInt32.toInt32⟩ : StopMessage) = _
    rw [toInt32_extended]
  exact writes.decodes int (((step₁.append step₂).append step₃).append step₄)

theorem decodeCircuitV1_encodeCircuitV1 (msg : CircuitV1Message) (status : 0 ≤ msg.code)
    (int : (encodeCircuitV1 msg).length < 2 ^ 63) :
    decodeCircuitV1 (encodeCircuitV1 msg) = pure msg := by
  have writes := encodeCircuitV1_writes msg
  obtain ⟨type, src, dst, code⟩ := msg
  have step₁ : Yields circuitV1Cases [⟨1, .varint type.toUInt64⟩] {} { type := type } := by
    refine .single ?_
    show pure ({ type := type.toUInt64.toInt64 } : CircuitV1Message) = _
    rw [Int64.toInt64_toUInt64]
  have step₂ : Yields circuitV1Cases (if src.isSome then [⟨2, .bytes (encodePeer src)⟩] else [])
      { type := type } { type := type, srcPeer := src } := by
    refine .message rfl decodePeer_encodePeer (fun present => ?_) (fun p present => by rw [present])
      fun absent => by rw [absent]
    exact writes.inner int 2 (by simp [circuitV1Fields, present])
  have step₃ : Yields circuitV1Cases (if dst.isSome then [⟨3, .bytes (encodePeer dst)⟩] else [])
      { type := type, srcPeer := src } ⟨type, src, dst, 0⟩ := by
    refine .message rfl decodePeer_encodePeer (fun present => ?_) (fun p present => by rw [present])
      fun absent => by rw [absent]
    exact writes.inner int 3 (by simp [circuitV1Fields, present])
  have step₄ : Yields circuitV1Cases (if 0 < code then [⟨4, .varint code.toUInt64⟩] else [])
      ⟨type, src, dst, 0⟩ ⟨type, src, dst, code⟩ := by
    refine .ite ?_ fun zero => by rw [Int64.le_antisymm (Int64.not_lt.mp zero) status]
    show pure (⟨type, src, dst, code.toUInt64.toInt64⟩ : CircuitV1Message) = _
    rw [Int64.toInt64_toUInt64]
  exact writes.decodes int (((step₁.append step₂).append step₃).append step₄)

/-- Every message whose encoding fits in a slice is decoded again. -/
theorem codec_round_trip :
    (∀ msg : HopMessage, 0 ≤ msg.status → (encodeHopMessage msg).length < 2 ^ 63 →
      (decodeHopMessage (encodeHopMessage msg)).run = some (.ok msg)) ∧
    (∀ msg : StopMessage, 0 ≤ msg.status → (encodeStopMessage msg).length < 2 ^ 63 →
      (decodeStopMessage (encodeStopMessage msg)).run = some (.ok msg)) ∧
    (∀ msg : CircuitV1Message, 0 ≤ msg.code → (encodeCircuitV1 msg).length < 2 ^ 63 →
      (decodeCircuitV1 (encodeCircuitV1 msg)).run = some (.ok msg)) :=
  ⟨decodeHopMessage_encodeHopMessage, decodeStopMessage_encodeStopMessage,
    decodeCircuitV1_encodeCircuitV1⟩

end Relayhub
