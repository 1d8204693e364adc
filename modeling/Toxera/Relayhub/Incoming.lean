import Toxera.Relayhub.CircuitRoundTrip
import Toxera.Relayhub.Dispatch

/-!
# Incoming streams of relayhub

The way of a stream to the dispatch loop: a protocol is negotiated, the relay names the
remote peer in a STOP message of version 1 or 2 of the circuit protocol, and the peer
sends its first message.
-/

namespace Relayhub

variable {α : Type}

inductive Proto where
  | circuitV1
  | stopV2
  | other
  deriving DecidableEq

def readVarint (r : Bytes) : Except String (UInt64 × Bytes) :=
  let (v, n) := decodeVarint r
  if 0 < n then .ok (v, r.drop n.toNat)
  else if r = [] then .error "EOF"
  else if n < 0 ∨ binaryMaxVarintLen64 ≤ r.length then
    .error "binary: varint overflows a 64-bit integer"
  else .error "unexpected EOF"

def readOnePb (r : Bytes) : Except String (Bytes × Bytes) :=
  match readVarint r with
  | .error err => .error err
  | .ok (l, r) =>
    if 4096 < l.toNat then .error "protobuf message too large"
    else if l.toNat ≤ r.length then .ok (r.take l.toNat, r.drop l.toNat)
    else .error (if r = [] then "EOF" else "unexpected EOF")

def errRelayStatus : String := "relay status error"

def wrap {α : Type} (text : String) (x : Outcome α) : Outcome α := x.adapt (text ++ ": " ++ ·)

def stopTypeConnect : Int32 := 0

def acceptV2Stop (stream : Bytes) (sent : Except String Unit) : Outcome Bytes := do
  let (data, stream) ← wrap "read v2 stop" (ofExcept (readOnePb stream))
  let msg ← wrap "decode v2 stop" (decodeStopMessage data)
  if msg.type ≠ stopTypeConnect then
    throw (errRelayStatus ++ ": expected CONNECT, got type " ++ toString msg.type)
  wrap "send v2 status" (ofExcept sent)
  return stream

def circuitV1TypeStop : Int64 := 2
def circuitV1TypeCanHop : Int64 := 4

def acceptV1Hop (stream : Bytes) (sent : Except String Unit) : Outcome (Option Bytes) := do
  let (data, stream) ← wrap "read v1 msg" (ofExcept (readOnePb stream))
  let msg ← wrap "decode v1 msg" (decodeCircuitV1 data)
  if msg.type = circuitV1TypeStop then
    wrap "send v1 status" (ofExcept sent)
    return some stream
  else if msg.type = circuitV1TypeCanHop then return none -- a probe, answered and closed
  else throw (errRelayStatus ++ ": unexpected v1 type " ++ toString msg.type)

def handleIncoming (proto : Except String Proto) (stream : Bytes) (sent : Except String Unit) :
    Outcome (Option Bytes) := do
  match ← wrap "ms respond" (ofExcept proto) with
  | .circuitV1 => acceptV1Hop stream sent
  | .stopV2 => return some (← acceptV2Stop stream sent)
  | .other => return none

def firstMessage (proto : Except String Proto) (stream : Bytes) (sent : Except String Unit) :
    Option (Option (Bytes × Bytes)) :=
  (handleIncoming proto stream sent).run.map fun
    | .ok (some conn) => (readOnePb conn).toOption
    | _ => none

def dispatchStream (c : RelayClient) (proto : Except String Proto) (stream : Bytes)
    (sent : Except String Unit) : Option RelayClient :=
  (firstMessage proto stream sent).bind fun
    | none => some c
    | some (data, unread) => c.dispatch data unread

def firstRoute (proto : Except String Proto) (stream : Bytes) (sent : Except String Unit) :
    Option Route :=
  (firstMessage proto stream sent).join.map fun first => route first.1

theorem isSome_dispatchStream {c c' : RelayClient} {proto : Except String Proto} {stream : Bytes}
    {sent : Except String Unit} (h : dispatchStream c proto stream sent = some c') (id : Bytes) :
    (c'.connSockets id).isSome = true ↔
      (c.connSockets id).isSome = true ∨ firstRoute proto stream sent = some (.data id) := by
  obtain ⟨first, read, dispatched⟩ := Option.bind_eq_some_iff.mp h
  cases first with
  | none =>
    cases dispatched
    simp [firstRoute, read]
  | some first =>
    rw [RelayClient.isSome_dispatch dispatched]
    simp [firstRoute, read]

def remotePeer (proto : Except String Proto) (stream : Bytes) : Option Bytes :=
  match proto, readOnePb stream with
  | .ok .stopV2, .ok (data, _) =>
    match (decodeStopMessage data).run with
    | some (.ok msg) => msg.peer.bind Peer.id
    | _ => none
  | .ok .circuitV1, .ok (data, _) =>
    match (decodeCircuitV1 data).run with
    | some (.ok msg) => msg.srcPeer.bind Peer.id
    | _ => none
  | _, _ => none

theorem readVarint_spelled {bs : Bytes} {v : UInt64} (spells : Varint.Spells bs v.toNat)
    (rest : Bytes) : readVarint (bs ++ rest) = .ok (v, rest) := by
  have read : decodeVarint (bs ++ rest) = (v, (bs.length : Int)) := by
    rw [decodeVarint, Varint.uvarint_append spells]
    simp
  rw [readVarint, read]
  simp only
  rw [if_pos (Int.natCast_pos.mpr spells.length_pos), Int.toNat_natCast, List.drop_left]

def stopStream (peer : Peer) (data unread : Bytes) : Bytes :=
  pbMessage (encodeStopMessage { peer := some peer }) ++ (pbMessage data ++ unread)

end Relayhub
