import Toxera.GoTox.Requests

/-!
# Built packets and the dispatcher

The builders of `go-tox-tcpclient/packet.go` for what a server sends, against
`dispatchPacket` of `tcpclient.go`.
-/

namespace GoTox

open CryptoCore Packet

def buildRoutingResponse (connID : UInt8) (pk : Bytes) : Bytes :=
  copyAt (1 :: (connID + numReservedPorts) :: zeros publicKeySize) 2 (pk.take publicKeySize)

def buildConnNotification (connID : UInt8) : Bytes := [2, connID]

def buildPing (id : UInt64) : Bytes := 4 :: putUint64 id

def buildOOBRecv (srcPK data : Bytes) : Bytes :=
  let pkt := copyAt (7 :: zeros (publicKeySize + data.length)) 1 (srcPK.take publicKeySize)
  copyAt pkt (1 + publicKeySize) data

theorem buildRoutingResponse_eq (connID : UInt8) (pk : CryptoKey) :
    buildRoutingResponse connID pk.val = 1 :: (connID + numReservedPorts) :: pk.val := by
  have whole : pk.val.length = publicKeySize := pk.property
  have copied := copyAt_zeros [1, connID + numReservedPorts] pk.val publicKeySize
    (Nat.le_of_eq whole)
  rw [whole, Nat.sub_self] at copied
  rw [buildRoutingResponse, List.take_of_length_le (Nat.le_of_eq whole)]
  exact copied.trans (List.append_nil _)

theorem buildOOBRecv_eq (srcPK : CryptoKey) (data : Bytes) :
    buildOOBRecv srcPK.val data = 7 :: srcPK.val ++ data := by
  have whole : srcPK.val.length = publicKeySize := srcPK.property
  have key := copyAt_zeros [7] srcPK.val (publicKeySize + data.length) (by omega)
  rw [whole, Nat.add_sub_cancel_left] at key
  have body := copyAt_zeros ([7] ++ srcPK.val) data data.length le_rfl
  rw [Nat.sub_self, List.length_append, whole] at body
  rw [buildOOBRecv, List.take_of_length_le (Nat.le_of_eq whole)]
  exact (congrArg (fun pkt => copyAt pkt (1 + publicKeySize) data) key).trans
    (body.trans (List.append_nil _))

theorem bytesToUint64_putUint64 (id : UInt64) : bytesToUint64 (putUint64 id) = id := by
  rw [bytesToUint64, beVal_putUint64, UInt64.ofNat_toNat]

theorem parseId_put (ptype : UInt8) (id : UInt64) :
    parseId ptype (ptype :: putUint64 id) = some id := by
  have whole : ¬ ((ptype :: putUint64 id).length < 1 + 8 ∨
      (ptype :: putUint64 id)[0]? ≠ some ptype) := by
    rintro (short | other)
    · rw [List.length_cons, putUint64_length] at short
      omega
    · exact other rfl
  rw [parseId, if_neg whole, List.drop_one, List.tail_cons,
    List.take_of_length_le (putUint64_length id).le, bytesToUint64_putUint64]

def hexChar (n : UInt8) : UInt8 := if n < 10 then 48 + n else 87 + n

def hexEncode (b : Bytes) : Bytes :=
  b.flatMap fun (x : UInt8) => [hexChar (x >>> 4), hexChar (x &&& 15)]

theorem hexByte (x : UInt8) :
    fromHexChar (hexChar (x >>> 4)) = some (x >>> 4) ∧
      fromHexChar (hexChar (x &&& 15)) = some (x &&& 15) ∧ x >>> 4 <<< 4 ||| x &&& 15 = x := by
  have all : ∀ n : Fin 256,
      fromHexChar (hexChar (UInt8.ofFin n >>> 4)) = some (UInt8.ofFin n >>> 4) ∧
      fromHexChar (hexChar (UInt8.ofFin n &&& 15)) = some (UInt8.ofFin n &&& 15) ∧
      UInt8.ofFin n >>> 4 <<< 4 ||| UInt8.ofFin n &&& 15 = UInt8.ofFin n := by
    decide +kernel
  exact all x.toFin

theorem hexDecode_hexEncode (b : Bytes) : hexDecode (hexEncode b) = some b := by
  induction b with
  | nil => rfl
  | cons x b ih =>
    obtain ⟨high, low, joined⟩ := hexByte x
    rw [hexEncode, List.flatMap_cons]
    simp only [List.cons_append, List.nil_append]
    rw [hexDecode, high, low, ← hexEncode, ih, Option.bind_some, Option.bind_some,
      Option.map_some, joined]

inductive Notice where
  | routingResponse (connID : UInt8) (pk : CryptoKey)
  | connected (connID : UInt8)
  | disconnected (connID : UInt8)
  | oob (srcPK : CryptoKey) (data : Bytes)
  | data (connID : UInt8) (data : Bytes)

namespace Notice

def Named : Notice → Prop
  | .routingResponse connID _ | .connected connID | .disconnected connID | .data connID _ =>
    connID.toNat < numClientConnections
  | .oob _ _ => True

def build : Notice → Except String Bytes
  | .routingResponse connID pk => .ok (buildRoutingResponse connID pk.val)
  | .connected connID => .ok (buildConnNotification (connID + numReservedPorts))
  | .disconnected connID => .ok (buildDisconnNotification (connID + numReservedPorts))
  | .oob srcPK payload => .ok (buildOOBRecv srcPK.val payload)
  | .data connID payload => buildDataPacket connID payload

def call : Notice → Call
  | .routingResponse connID pk => .routingResponse connID pk.val
  | .connected connID => .connectionStatus connID true
  | .disconnected connID => .connectionStatus connID false
  | .oob srcPK payload => .oobData srcPK.val payload
  | .data connID payload => .data connID payload

end Notice

namespace Call

def wanted (callbacks : Callbacks) : Call → Bool
  | .routingResponse _ _ => callbacks.onRoutingResponse
  | .connectionStatus _ _ => callbacks.onConnectionStatus
  | .data _ _ => callbacks.onData
  | .oobData _ _ => callbacks.onOOBData
  | .disconnected => callbacks.onDisconnected

def connID : Call → Option UInt8
  | .routingResponse connID _ | .connectionStatus connID _ | .data connID _ => some connID
  | .oobData _ _ | .disconnected => none

def pubkey : Call → Option Bytes
  | .routingResponse _ pubkey | .oobData pubkey _ => some pubkey
  | .connectionStatus _ _ | .data _ _ | .disconnected => none

def keyText (call : Call) : Option Bytes := call.pubkey.map hexEncode

end Call

theorem offset_toNat {connID : UInt8} (named : connID.toNat < numClientConnections) :
    (connID + numReservedPorts).toNat = connID.toNat + 16 := by
  rw [UInt8.toNat_add]
  refine Nat.mod_eq_of_lt ?_
  calc connID.toNat + 16 < numClientConnections + 16 := Nat.add_lt_add_right named 16
    _ = 2 ^ 8 := rfl

theorem offset_ge {connID : UInt8} (named : connID.toNat < numClientConnections) :
    connID + numReservedPorts ≥ numReservedPorts := by
  rw [ge_iff_le, UInt8.le_iff_toNat_le, offset_toNat named]
  exact Nat.le_add_left ..

theorem actualID_offset {connID : UInt8} (named : connID.toNat < numClientConnections) :
    actualID (connID + numReservedPorts) = some ⟨connID.toNat, named⟩ := by
  have back : connID + numReservedPorts - numReservedPorts = connID := UInt8.add_sub_cancel ..
  rw [actualID, if_pos (offset_ge named)]
  simp only [back]
  exact dif_pos named

theorem dispatch_routingResponse (c : TCPClient) {connID : UInt8}
    (named : connID.toNat < numClientConnections) (pk : CryptoKey) :
    (dispatchPacket c (buildRoutingResponse connID pk.val)).2 =
      if c.callbacks.onRoutingResponse then some (.routingResponse connID pk.val) else none := by
  have parsed : parseRoutingResponse (1 :: (connID + numReservedPorts) :: pk.val) =
      some (connID + numReservedPorts, pk.val) := by
    have whole : pk.val.length = publicKeySize := pk.property
    rw [parseRoutingResponse, if_neg (by simp [whole]; omega)]
    simp [← whole]
  rw [buildRoutingResponse_eq]
  show (handleRoutingResponse c _).2 = _
  simp only [handleRoutingResponse, parsed, actualID_offset named, UInt8.ofNat_toNat]

theorem dispatch_connNotification (c : TCPClient) {connID : UInt8}
    (named : connID.toNat < numClientConnections) :
    (dispatchPacket c (buildConnNotification (connID + numReservedPorts))).2 =
      if c.callbacks.onConnectionStatus then some (.connectionStatus connID true) else none := by
  have parsed : parseConnNotification (buildConnNotification (connID + numReservedPorts)) =
      some (connID + numReservedPorts) := rfl
  show (handleConnNotification c _).2 = _
  simp only [handleConnNotification, parsed, Option.bind_some, actualID_offset named,
    UInt8.ofNat_toNat]

theorem dispatch_disconnNotification (c : TCPClient) {connID : UInt8}
    (named : connID.toNat < numClientConnections) :
    (dispatchPacket c (buildDisconnNotification (connID + numReservedPorts))).2 =
      if c.callbacks.onConnectionStatus then some (.connectionStatus connID false) else none := by
  have parsed : parseDisconnNotification (buildDisconnNotification (connID + numReservedPorts)) =
      some (connID + numReservedPorts) := rfl
  show (handleDisconnNotification c _).2 = _
  simp only [handleDisconnNotification, parsed, Option.bind_some, actualID_offset named,
    UInt8.ofNat_toNat]

theorem dispatch_oobRecv (c : TCPClient) (srcPK : CryptoKey) (data : Bytes) :
    (dispatchPacket c (buildOOBRecv srcPK.val data)).2 =
      if c.callbacks.onOOBData then some (.oobData srcPK.val data) else none := by
  have whole : srcPK.val.length = publicKeySize := srcPK.property
  have parsed : parseOOBRecv (7 :: srcPK.val ++ data) = some (srcPK.val, data) := by
    grind [parseOOBRecv]
  rw [buildOOBRecv_eq]
  show handleOOBRecv c _ = _
  rw [handleOOBRecv, parsed]
  rfl

theorem dispatchPacket_high (c : TCPClient) {ptype : UInt8} (high : ptype ≥ numReservedPorts)
    (rest : Bytes) :
    dispatchPacket c (ptype :: rest) = (c, handleData c (ptype :: rest)) := by
  have other : ∀ t : UInt8, t < numReservedPorts → ptype ≠ t := by grind
  simp only [dispatchPacket]
  rw [if_neg (other 4 (by decide)), if_neg (other 5 (by decide)), if_neg (other 1 (by decide)),
    if_neg (other 2 (by decide)), if_neg (other 3 (by decide)), if_neg (other 7 (by decide)),
    if_neg (other 9 (by decide))]

theorem dispatch_data (c : TCPClient) {connID : UInt8}
    (named : connID.toNat < numClientConnections) (data : Bytes) :
    ∃ plain, buildDataPacket connID data = .ok plain ∧
      (dispatchPacket c plain).2 =
        if c.callbacks.onData then some (.data connID data) else none := by
  refine ⟨_, if_neg (Nat.not_le.mpr named), ?_⟩
  have low : ¬ connID + numReservedPorts < numReservedPorts := UInt8.not_lt.mpr (offset_ge named)
  have back : connID + numReservedPorts - numReservedPorts = connID := UInt8.add_sub_cancel ..
  rw [dispatchPacket_high c (offset_ge named)]
  simp only [handleData, isDataPacket, offset_ge named, decide_true, if_true, parseDataPacket,
    if_neg low, back, Option.bind_some]

theorem dispatch_notice (c : TCPClient) {n : Notice} (named : n.Named) :
    ∃ plain, n.build = .ok plain ∧
      (dispatchPacket c plain).2 = if n.call.wanted c.callbacks then some n.call else none := by
  cases n with
  | routingResponse connID pk => exact ⟨_, rfl, dispatch_routingResponse c named pk⟩
  | connected connID => exact ⟨_, rfl, dispatch_connNotification c named⟩
  | disconnected connID => exact ⟨_, rfl, dispatch_disconnNotification c named⟩
  | oob srcPK data => exact ⟨_, rfl, dispatch_oobRecv c srcPK data⟩
  | data connID data => exact dispatch_data c named data

theorem dispatch_ping (c : TCPClient) (id : UInt64) :
    dispatchPacket c (buildPing id) = (sendPlaintext c (buildPong id), none) := by
  have parsed : parsePing (buildPing id) = some id := parseId_put 4 id
  show (handlePing c (buildPing id), none) = _
  rw [handlePing, parsed]

theorem dispatch_pong (c : TCPClient) (id : UInt64) :
    dispatchPacket c (buildPong id) =
      ({ c with pingID := if id = c.pingID then 0 else c.pingID }, none) := by
  have parsed : parsePong (buildPong id) = some id := parseId_put 5 id
  show (handlePong c (buildPong id), none) = _
  rw [handlePong, parsed]
  simp only
  split_ifs with both same same
  · rfl
  · exact absurd both.2 same
  · -- an id of zero matches only while no ping is outstanding
    have zero : id = 0 := by grind
    rw [← zero, same]
  · rfl

structure Call.Fits (callbacks : Callbacks) (call : Call) : Prop where
  wanted : call.wanted callbacks = true
  slot : ∀ connID, call.connID = some connID → connID.toNat < numClientConnections

theorem fits_of_slot {callbacks : Callbacks} {call call' : Call} {set : Bool}
    (h : (if set then some call' else none) = some call) (wanted : call'.wanted callbacks = set)
    {i : Fin numClientConnections} (slot : call'.connID = some (UInt8.ofNat i.val)) :
    call.Fits callbacks := by
  split_ifs at h with isSet
  cases h
  refine ⟨wanted.trans isSet, fun connID named => ?_⟩
  obtain rfl := Option.some.inj (slot.symm.trans named)
  rw [UInt8.toNat_ofNat_of_lt' (i.isLt.trans (by decide))]
  exact i.isLt

theorem handleData_fits {c : TCPClient} {plain : Bytes} {call : Call}
    (h : handleData c plain = some call) : call.Fits c.callbacks := by
  unfold handleData at h
  by_cases isData : isDataPacket plain
  · rw [if_pos isData] at h
    obtain ⟨⟨connID, data⟩, parsed, called⟩ := Option.bind_eq_some_iff.mp h
    unfold parseDataPacket at parsed
    split at parsed
    · cases parsed
    · rename_i first rest
      split_ifs at parsed with low
      cases parsed
      -- what is left after the reserved ports is the number of a slot
      have above : numReservedPorts ≤ first := UInt8.not_lt.mp low
      have small : (first - numReservedPorts).toNat < numClientConnections := by
        have := first.toNat_lt
        rw [UInt8.toNat_sub_of_le _ _ above]
        simp only [numReservedPorts, numClientConnections, UInt8.reduceToNat]
        omega
      have slot : UInt8.ofNat (first - numReservedPorts).toNat = first - numReservedPorts :=
        UInt8.ofNat_toNat
      exact fits_of_slot (i := ⟨_, small⟩) called rfl (congrArg some slot.symm)
  · rw [if_neg isData] at h
    cases h

theorem dispatchPacket_fits {c : TCPClient} {plain : Bytes} {call : Call}
    (h : (dispatchPacket c plain).2 = some call) : call.Fits c.callbacks := by
  unfold dispatchPacket at h
  split at h
  · cases h
  · split_ifs at h
    · unfold handleRoutingResponse at h
      split at h
      · cases h
      · split at h
        · cases h
        · exact fits_of_slot h rfl rfl
    · unfold handleConnNotification at h
      split at h
      · cases h
      · exact fits_of_slot h rfl rfl
    · unfold handleDisconnNotification at h
      split at h
      · cases h
      · exact fits_of_slot h rfl rfl
    · -- a packet from beyond the slots names none of them
      obtain ⟨r, -, h⟩ := Option.bind_eq_some_iff.mp h
      split_ifs at h with wanted
      cases h
      exact ⟨wanted, by rintro connID ⟨⟩⟩
    · exact handleData_fits h

/-- Builders and dispatcher agree. -/
theorem dispatch_agrees (c : TCPClient) :
    (∀ n : Notice, n.Named → ∃ plain, n.build = .ok plain ∧
      (dispatchPacket c plain).2 = if n.call.wanted c.callbacks then some n.call else none) ∧
    (∀ call : Call, ∀ text, call.keyText = some text → hexDecode text = call.pubkey) ∧
    (∀ id, dispatchPacket c (buildPong id) =
      ({ c with pingID := if id = c.pingID then 0 else c.pingID }, none)) ∧
    (∀ id, dispatchPacket c (buildPing id) = (sendPlaintext c (buildPong id), none) ∧
      (c.done = false → (sendPlaintext c (buildPong id)).writeCh = c.writeCh ++ [buildPong id])) ∧
    ∀ plain call, (dispatchPacket c plain).2 = some call → call.Fits c.callbacks := by
  refine ⟨fun n named => dispatch_notice c named, ?_, dispatch_pong c, ?_,
    fun plain call h => dispatchPacket_fits h⟩
  · intro call text spelled
    obtain ⟨key, has, rfl⟩ := Option.map_eq_some_iff.mp spelled
    rw [hexDecode_hexEncode, has]
  · intro id
    refine ⟨dispatch_ping c id, fun opened => ?_⟩
    simp [sendPlaintext, opened]

end GoTox
