import Toxera.Lib.Protobuf
import Toxera.Relayhub.Socket

/-!
# Messages of the circuit protocols

The messages of `relayhub/circuitpb.go` and `relayhub/circuitv1.go` with their
hand-written encoders and decoders.
-/

namespace Relayhub

open Protobuf

structure Peer where
  id : Option Bytes := none
  addrs : List Bytes := []
  deriving DecidableEq

structure Reservation where
  expire : UInt64 := 0
  addrs : List Bytes := []
  voucher : Option Bytes := none
  deriving DecidableEq

structure Limit where
  duration : UInt32 := 0
  data : UInt64 := 0
  deriving DecidableEq

structure HopMessage where
  type : Int32 := 0
  peer : Option Peer := none
  reservation : Option Reservation := none
  limit : Option Limit := none
  status : Int32 := 0
  deriving DecidableEq

structure StopMessage where
  type : Int32 := 0
  peer : Option Peer := none
  limit : Option Limit := none
  status : Int32 := 0
  deriving DecidableEq

structure CircuitV1Message where
  type : Int64 := 0
  srcPeer : Option Peer := none
  dstPeer : Option Peer := none
  code : Int64 := 0
  deriving DecidableEq

def encodeTag (field wireType : Nat) : Bytes := encodeVarint (field <<< 3 ||| wireType)

def pbEncodeVarintField (field : Nat) (v : UInt64) : Bytes :=
  encodeTag field 0 ++ encodeVarint v.toNat

def pbEncodeLengthDelimField (field : Nat) (data : Bytes) : Bytes :=
  encodeTag field 2 ++ encodeVarint data.length ++ data

def pbEncodeLengthDelimFields (field : Nat) (items : List Bytes) : Bytes :=
  items.flatMap fun item => encodeTag field 2 ++ encodeVarint item.length ++ item

def encodePeer : Option Peer → Bytes
  | none => []
  | some p =>
    (p.id.elim [] fun id => pbEncodeLengthDelimField 1 id) ++
    (if 0 < p.addrs.length then pbEncodeLengthDelimFields 2 p.addrs else [])

def encodeReservation : Option Reservation → Bytes
  | none => []
  | some r =>
    (if 0 < r.expire then pbEncodeVarintField 1 r.expire else []) ++
    (if 0 < r.addrs.length then pbEncodeLengthDelimFields 2 r.addrs else []) ++
    (r.voucher.elim [] fun voucher => pbEncodeLengthDelimField 3 voucher)

def encodeLimit : Option Limit → Bytes
  | none => []
  | some l =>
    (if 0 < l.duration then pbEncodeVarintField 1 l.duration.toUInt64 else []) ++
    (if 0 < l.data then pbEncodeVarintField 2 l.data else [])

def encodeHopMessage (msg : HopMessage) : Bytes :=
  pbEncodeVarintField 1 msg.type.toInt64.toUInt64 ++
  (if msg.peer.isSome then pbEncodeLengthDelimField 2 (encodePeer msg.peer) else []) ++
  (if msg.reservation.isSome then
    pbEncodeLengthDelimField 3 (encodeReservation msg.reservation) else []) ++
  (if msg.limit.isSome then pbEncodeLengthDelimField 4 (encodeLimit msg.limit) else []) ++
  (if 0 < msg.status then pbEncodeVarintField 5 msg.status.toInt64.toUInt64 else [])

def encodeStopMessage (msg : StopMessage) : Bytes :=
  pbEncodeVarintField 1 msg.type.toInt64.toUInt64 ++
  (if msg.peer.isSome then pbEncodeLengthDelimField 2 (encodePeer msg.peer) else []) ++
  (if msg.limit.isSome then pbEncodeLengthDelimField 3 (encodeLimit msg.limit) else []) ++
  (if 0 < msg.status then pbEncodeVarintField 4 msg.status.toInt64.toUInt64 else [])

def encodeCircuitV1 (msg : CircuitV1Message) : Bytes :=
  pbEncodeVarintField 1 msg.type.toUInt64 ++
  (if msg.srcPeer.isSome then pbEncodeLengthDelimField 2 (encodePeer msg.srcPeer) else []) ++
  (if msg.dstPeer.isSome then pbEncodeLengthDelimField 3 (encodePeer msg.dstPeer) else []) ++
  (if 0 < msg.code then pbEncodeVarintField 4 msg.code.toUInt64 else [])

def decodeVarint (data : Bytes) : UInt64 × Int :=
  let (v, n) := Varint.uvarint data
  (UInt64.ofNat v, n)

def sliceFrom (b : Bytes) (n : Int) : Option Bytes :=
  if 0 ≤ n ∧ n ≤ b.length then some (b.drop n.toNat) else none

structure PbDecoder where
  data : Bytes
  pos : Int
  deriving DecidableEq

def newPbDecoder (data : Bytes) : PbDecoder := ⟨data, 0⟩

namespace PbDecoder

def remaining (d : PbDecoder) : Option Bytes := sliceFrom d.data d.pos

def readVarint (d : PbDecoder) : Option (Except String UInt64 × PbDecoder) :=
  d.remaining.map fun rest =>
    match decodeVarint rest with
    | (v, n) =>
      if n ≤ 0 then (.error "varint decode failed", d) else (.ok v, { d with pos := d.pos + n })

def readBytes (d : PbDecoder) : Option (Except String Bytes × PbDecoder) :=
  d.readVarint.bind fun
    | (.error err, d) => some (.error err, d)
    | (.ok l, d) =>
      if d.data.length < int64 (d.pos + int64 l.toNat) then some (.error "bytes overflow", d)
      else if d.data.length < l.toNat then none
      else
        d.remaining.map fun rest =>
          (.ok (rest.take l.toNat ++ List.replicate (l.toNat - rest.length) 0),
            { d with pos := int64 (d.pos + int64 l.toNat) })

def decodeTag (d : PbDecoder) : Option (Except String (Nat × Nat) × PbDecoder) :=
  if d.data.length ≤ d.pos then some (.error "EOF", d)
  else
    d.readVarint.map fun
      | (.error err, d) => (.error err, d)
      | (.ok v, d) => (.ok (v.toNat >>> 3, v.toNat &&& 7), d)

/-- The default of every `switch`: errors of the reads are ignored, and the payloads of
other wire types are left in place. -/
def skip (d : PbDecoder) (wt : Nat) : Option PbDecoder :=
  if wt = 0 then d.readVarint.map Prod.snd
  else if wt = 2 then d.readBytes.map Prod.snd
  else some d

end PbDecoder

abbrev Outcome := ExceptT String Option

inductive Slot (M : Type) where
  | varint (set : UInt64 → M → M)
  | bytes (set : Bytes → M → Outcome M)

structure Case (M : Type) where
  name : String
  slot : Slot M

variable {M : Type}

def Case.message {N : Type} (name : String) (decode : Bytes → Outcome N) (set : N → M → M) :
    Case M :=
  ⟨name, .bytes fun b m => ((decode b).run.map fun
    | .error err => .error (name ++ " decode: " ++ err)
    | .ok n => .ok (set n m) : Option (Except String M))⟩

def Case.wrongType (c : Case M) (wt : Nat) : String :=
  c.name ++ ": unexpected wire type " ++ toString wt

def Case.read (c : Case M) (wt : Nat) (d : PbDecoder) (m : M) :
    Option (Except String (PbDecoder × M)) :=
  match c.slot with
  | .varint set =>
    if wt ≠ 0 then some (.error (c.wrongType wt))
    else
      d.readVarint.map fun
        | (.error err, _) => .error err
        | (.ok v, d) => .ok (d, set v m)
  | .bytes set =>
    if wt ≠ 2 then some (.error (c.wrongType wt))
    else
      d.readBytes.bind fun
        | (.error err, _) => some (.error err)
        | (.ok b, d) => (set b m).run.map fun r => r.map fun m => (d, m)

def decodeLoop (cases : Nat → Option (Case M)) : Nat → PbDecoder → M → Outcome M
  | 0, _, _ => (none : Option (Except String M))
  | fuel + 1, d, m =>
    if d.pos < d.data.length then
      (d.decodeTag.bind fun
        | (.error _, _) => some (.ok m)
        | (.ok (field, wt), d) =>
          match cases field with
          | none => (d.skip wt).bind fun d => (decodeLoop cases fuel d m).run
          | some c =>
            (c.read wt d m).bind fun
              | .error err => some (.error err)
              | .ok (d, m) => (decodeLoop cases fuel d m).run : Option (Except String M))
    else pure m

def decodeFields (cases : Nat → Option (Case M)) (zero : M) (data : Bytes) : Outcome M :=
  decodeLoop cases (data.length + 1) (newPbDecoder data) zero

def peerCases : Nat → Option (Case Peer)
  | 1 => some ⟨"peer.id", .bytes fun b p => pure { p with id := some b }⟩
  | 2 => some ⟨"peer.addrs", .bytes fun addr p => pure { p with addrs := p.addrs ++ [addr] }⟩
  | _ => none

def decodePeer (data : Bytes) : Outcome Peer := decodeFields peerCases {} data

def reservationCases : Nat → Option (Case Reservation)
  | 1 => some ⟨"reservation.expire", .varint fun v r => { r with expire := v }⟩
  | 2 => some ⟨"reservation.addrs",
      .bytes fun addr r => pure { r with addrs := r.addrs ++ [addr] }⟩
  | 3 => some ⟨"reservation.voucher", .bytes fun b r => pure { r with voucher := some b }⟩
  | _ => none

def decodeReservation (data : Bytes) : Outcome Reservation := decodeFields reservationCases {} data

def limitCases : Nat → Option (Case Limit)
  | 1 => some ⟨"limit.duration", .varint fun v l => { l with duration := v.toUInt32 }⟩
  | 2 => some ⟨"limit.data", .varint fun v l => { l with data := v }⟩
  | _ => none

def decodeLimit (data : Bytes) : Outcome Limit := decodeFields limitCases {} data

def hopCases : Nat → Option (Case HopMessage)
  | 1 => some ⟨"hop.type", .varint fun v msg => { msg with type := v.toUInt32.toInt32 }⟩
  | 2 => some (.message "hop.peer" decodePeer fun peer msg => { msg with peer := some peer })
  | 3 => some (.message "hop.reservation" decodeReservation
      fun resv msg => { msg with reservation := some resv })
  | 4 => some (.message "hop.limit" decodeLimit fun limit msg => { msg with limit := some limit })
  | 5 => some ⟨"hop.status", .varint fun v msg => { msg with status := v.toUInt32.toInt32 }⟩
  | _ => none

def decodeHopMessage (data : Bytes) : Outcome HopMessage := decodeFields hopCases {} data

def stopCases : Nat → Option (Case StopMessage)
  | 1 => some ⟨"stop.type", .varint fun v msg => { msg with type := v.toUInt32.toInt32 }⟩
  | 2 => some (.message "stop.peer" decodePeer fun peer msg => { msg with peer := some peer })
  | 3 => some (.message "stop.limit" decodeLimit fun limit msg => { msg with limit := some limit })
  | 4 => some ⟨"stop.status", .varint fun v msg => { msg with status := v.toUInt32.toInt32 }⟩
  | _ => none

def decodeStopMessage (data : Bytes) : Outcome StopMessage := decodeFields stopCases {} data

def circuitV1Cases : Nat → Option (Case CircuitV1Message)
  | 1 => some ⟨"v1.type", .varint fun v msg => { msg with type := v.toInt64 }⟩
  | 2 => some (.message "v1.srcPeer" decodePeer fun peer msg => { msg with srcPeer := some peer })
  | 3 => some (.message "v1.dstPeer" decodePeer fun peer msg => { msg with dstPeer := some peer })
  | 4 => some ⟨"v1.code", .varint fun v msg => { msg with code := v.toInt64 }⟩
  | _ => none

def decodeCircuitV1 (data : Bytes) : Outcome CircuitV1Message :=
  decodeFields circuitV1Cases {} data

end Relayhub
