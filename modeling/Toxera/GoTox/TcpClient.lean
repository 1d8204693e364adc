import Toxera.GoTox.Packet

/-!
# The client of go-tox-tcpclient

The state of `go-tox-tcpclient/tcpclient.go` after `Connect` and what its loops and its
calls do to it: one round of the write loop, one round of the read loop with the dispatch
of a packet, and the lookups and updates of the connection slots.
-/

namespace GoTox

open CryptoCore Packet

def numReservedPorts : UInt8 := 16
def numClientConnections : Nat := 240

inductive ClientStatus where
  | noStatus
  | connecting
  | unconfirmed
  | confirmed
  | disconnected
  deriving DecidableEq, Repr

inductive SlotStatus where
  | free
  | offline
  | online
  deriving DecidableEq, Repr

structure ConnSlot where
  status : SlotStatus
  pubkey : CryptoKey
  deriving DecidableEq

structure Callbacks where
  onRoutingResponse : Bool
  onConnectionStatus : Bool
  onData : Bool
  onOOBData : Bool
  onDisconnected : Bool

inductive Call where
  | routingResponse (connID : UInt8) (pubkey : Bytes)
  | connectionStatus (connID : UInt8) (online : Bool)
  | data (connID : UInt8) (data : Bytes)
  | oobData (pubkey data : Bytes)
  | disconnected
  deriving DecidableEq

structure TCPClient where
  status : ClientStatus
  /-- `conn` is not nil -/
  conn : Bool
  reader : PacketReader
  writeCh : List Bytes
  /-- `doneCh` is closed -/
  done : Bool
  shrkey : CryptoKey
  sentNonce : CBNonce
  recvNonce : CBNonce
  pingID : UInt64
  conns : Fin numClientConnections → ConnSlot
  callbacks : Callbacks

def connectedClient (s : Session) (r : List Bytes) (callbacks : Callbacks) : TCPClient where
  status := .confirmed
  conn := true
  reader := newPacketReader r
  writeCh := []
  done := false
  shrkey := s.shrkey
  sentNonce := s.sentNonce
  recvNonce := s.recvNonce
  pingID := 0
  conns := fun _ => ⟨.free, keyOfBytes []⟩
  callbacks := callbacks

def buildPong (id : UInt64) : Bytes := 5 :: putUint64 id

def buildDisconnNotification (connID : UInt8) : Bytes := [3, connID]

def buildDataPacket (connID : UInt8) (data : Bytes) : Except String Bytes :=
  if connID.toNat ≥ numClientConnections then .error "invalid connection ID"
  else .ok ((connID + numReservedPorts) :: data)

def bytesToUint64 (b : Bytes) : UInt64 := UInt64.ofNat (beVal b)

def parseId (ptype : UInt8) (plain : Bytes) : Option UInt64 :=
  if plain.length < 1 + 8 ∨ plain[0]? ≠ some ptype then none
  else some (bytesToUint64 ((plain.drop 1).take 8))

def parsePing : Bytes → Option UInt64 := parseId 4
def parsePong : Bytes → Option UInt64 := parseId 5

def parseRoutingResponse (plain : Bytes) : Option (UInt8 × Bytes) :=
  if plain.length < 1 + 1 + publicKeySize ∨ plain[0]? ≠ some 1 then none
  else plain[1]?.map fun connID => (connID, (plain.drop 2).take publicKeySize)

def parseNotification (ptype : UInt8) (plain : Bytes) : Option UInt8 :=
  if plain.length < 2 ∨ plain[0]? ≠ some ptype then none else plain[1]?

def parseConnNotification : Bytes → Option UInt8 := parseNotification 2
def parseDisconnNotification : Bytes → Option UInt8 := parseNotification 3

def parseOOBRecv (plain : Bytes) : Option (Bytes × Bytes) :=
  if plain.length < 1 + publicKeySize ∨ plain[0]? ≠ some 7 then none
  else some ((plain.drop 1).take publicKeySize, plain.drop (1 + publicKeySize))

def isDataPacket (plain : Bytes) : Bool :=
  match plain with
  | [] => false
  | connID :: _ => connID ≥ numReservedPorts

def parseDataPacket (plain : Bytes) : Option (UInt8 × Bytes) :=
  match plain with
  | [] => none
  | connID :: data => if connID < numReservedPorts then none else some (connID - numReservedPorts, data)

def actualID (connID : UInt8) : Option (Fin numClientConnections) :=
  if connID ≥ numReservedPorts then
    if h : (connID - numReservedPorts).toNat < numClientConnections then some ⟨_, h⟩ else none
  else none

def TCPClient.setSlot (c : TCPClient) (i : Fin numClientConnections) (slot : ConnSlot) :
    TCPClient :=
  { c with conns := Function.update c.conns i slot }

def ConnSlot.bind (slot : ConnSlot) (pk : Bytes) : ConnSlot :=
  ⟨.offline, ⟨copyAt slot.pubkey.val 0 pk,
    (copyAt_length _ (Nat.zero_le _) _).trans slot.pubkey.property⟩⟩

def findConnID (c : TCPClient) (pubkey : Bytes) : Option (Fin numClientConnections) :=
  (List.finRange numClientConnections).find? fun i =>
    (c.conns i).status ≠ .free ∧ (c.conns i).pubkey.val = pubkey

def sendPlaintext (c : TCPClient) (plain : Bytes) : TCPClient :=
  if c.done then c else { c with writeCh := c.writeCh ++ [plain] }

def errInvalidKey : String := "invalid key"
def errPeerNotFound : String := "peer not found"

def sendData (c : TCPClient) (pubkey : Option Bytes) (data : Bytes) : TCPClient × Option String :=
  match pubkey with
  | none => (c, some errInvalidKey)
  | some b =>
    match findConnID c b with
    | none => (c, some errPeerNotFound)
    | some connID =>
      match buildDataPacket (UInt8.ofNat connID) data with
      | .error err => (c, some err)
      | .ok pkt => (sendPlaintext c pkt, none)

def disconnectLookup (c : TCPClient) (pubkey : Option Bytes) :
    Except String (Fin numClientConnections) :=
  match pubkey with
  | none => .error errInvalidKey
  | some b =>
    match findConnID c b with
    | none => .error errPeerNotFound
    | some connID => .ok connID

def disconnectFree (c : TCPClient) (connID : Fin numClientConnections) : TCPClient :=
  let c := c.setSlot connID { c.conns connID with status := .free }
  sendPlaintext c (buildDisconnNotification (UInt8.ofNat connID + numReservedPorts))

def handleDisconnect (c : TCPClient) : TCPClient × Option Call :=
  ({ c with done := true, conn := false, status := .disconnected },
    if c.callbacks.onDisconnected then some .disconnected else none)

def handlePing (c : TCPClient) (plain : Bytes) : TCPClient :=
  match parsePing plain with
  | none => c
  | some id => sendPlaintext c (buildPong id)

def handlePong (c : TCPClient) (plain : Bytes) : TCPClient :=
  match parsePong plain with
  | none => c
  | some id => if id ≠ 0 ∧ id = c.pingID then { c with pingID := 0 } else c

def handleRoutingResponse (c : TCPClient) (plain : Bytes) : TCPClient × Option Call :=
  match parseRoutingResponse plain with
  | none => (c, none)
  | some (connID, pk) =>
    match actualID connID with
    | none => (c, none)
    | some i => (c.setSlot i ((c.conns i).bind pk),
        if c.callbacks.onRoutingResponse then some (.routingResponse (UInt8.ofNat i) pk) else none)

def handleConnNotification (c : TCPClient) (plain : Bytes) : TCPClient × Option Call :=
  match (parseConnNotification plain).bind actualID with
  | none => (c, none)
  | some i => (c.setSlot i { c.conns i with status := .online },
      if c.callbacks.onConnectionStatus then some (.connectionStatus (UInt8.ofNat i) true)
      else none)

def handleDisconnNotification (c : TCPClient) (plain : Bytes) : TCPClient × Option Call :=
  match (parseDisconnNotification plain).bind actualID with
  | none => (c, none)
  | some i =>
    (if (c.conns i).status = .online then c.setSlot i { c.conns i with status := .offline } else c,
      if c.callbacks.onConnectionStatus then some (.connectionStatus (UInt8.ofNat i) false)
      else none)

def handleOOBRecv (c : TCPClient) (plain : Bytes) : Option Call :=
  (parseOOBRecv plain).bind fun r =>
    if c.callbacks.onOOBData then some (.oobData r.1 r.2) else none

def handleData (c : TCPClient) (plain : Bytes) : Option Call :=
  if isDataPacket plain then
    (parseDataPacket plain).bind fun r =>
      if c.callbacks.onData then some (.data r.1 r.2) else none
  else none

def dispatchPacket (c : TCPClient) (plain : Bytes) : TCPClient × Option Call :=
  match plain with
  | [] => (c, none)
  | ptype :: _ =>
    if ptype = 4 then (handlePing c plain, none)
    else if ptype = 5 then (handlePong c plain, none)
    else if ptype = 1 then handleRoutingResponse c plain
    else if ptype = 2 then handleConnNotification c plain
    else if ptype = 3 then handleDisconnNotification c plain
    else if ptype = 7 then (c, handleOOBRecv c plain)
    else if ptype = 9 then (c, none) -- an onion response is parsed and dropped
    else (c, handleData c plain)

variable (B : Box)

inductive WriteOutcome where
  /-- the packet is not written and the loop goes on -/
  | skipped
  | wrote (pkt : Bytes)
  /-- the loop ends -/
  | stopped
  deriving DecidableEq

/-- One round of the write loop on a packet; the flag says that the socket takes it. -/
def writeRound (c : TCPClient) (plain : Bytes) (written : Bool) : TCPClient × WriteOutcome :=
  match encodePacket B c.shrkey c.sentNonce plain with
  | .error _ => (c, .skipped)
  | .ok (pkt, nonce) =>
    let c := { c with sentNonce := nonce }
    if c.conn = false then (c, .stopped)
    else if written then (c, .wrote pkt)
    else ((handleDisconnect c).1, .stopped)

def writeLoop (c : TCPClient) : List (Bytes × Bool) → TCPClient × List Bytes
  | [] => (c, [])
  | (plain, written) :: rest =>
    match writeRound B c plain written with
    | (c, .skipped) => writeLoop c rest
    | (c, .wrote pkt) =>
      let r := writeLoop c rest
      (r.1, pkt :: r.2)
    | (c, .stopped) => (c, [])

inductive ReadOutcome where
  /-- a packet that does not decode is passed over -/
  | undecoded
  | dispatched (plain : Bytes) (call : Option Call)
  /-- the loop ends -/
  | ended (call : Option Call)
  deriving DecidableEq

def readRound (c : TCPClient) : TCPClient × ReadOutcome :=
  match c.reader.readPacket with
  | (reader, .error _) =>
    let r := handleDisconnect { c with reader := reader }
    (r.1, .ended r.2)
  | (reader, .ok data) =>
    let c := { c with reader := reader }
    match decodePacket B c.shrkey c.recvNonce data with
    | .error _ => (c, .undecoded)
    | .ok (plain, nonce) =>
      let r := dispatchPacket { c with recvNonce := nonce } plain
      (r.1, .dispatched plain r.2)

def readLoop : Nat → TCPClient → TCPClient × List ReadOutcome
  | 0, c => (c, [])
  | n + 1, c =>
    match readRound B c with
    | (c, .ended call) => (c, [.ended call])
    | (c, outcome) =>
      let r := readLoop n c
      (r.1, outcome :: r.2)

structure TCPClient.SameLoops (c c' : TCPClient) : Prop where
  status : c'.status = c.status
  conn : c'.conn = c.conn
  reader : c'.reader = c.reader
  shrkey : c'.shrkey = c.shrkey
  sentNonce : c'.sentNonce = c.sentNonce
  recvNonce : c'.recvNonce = c.recvNonce

theorem TCPClient.SameLoops.refl (c : TCPClient) : c.SameLoops c := ⟨rfl, rfl, rfl, rfl, rfl, rfl⟩

theorem setSlot_sameLoops (c : TCPClient) (i : Fin numClientConnections) (slot : ConnSlot) :
    c.SameLoops (c.setSlot i slot) :=
  ⟨rfl, rfl, rfl, rfl, rfl, rfl⟩

theorem sendPlaintext_sameLoops (c : TCPClient) (plain : Bytes) :
    c.SameLoops (sendPlaintext c plain) := by
  unfold sendPlaintext
  split_ifs
  · exact .refl c
  · exact ⟨rfl, rfl, rfl, rfl, rfl, rfl⟩

theorem dispatchPacket_sameLoops (c : TCPClient) (plain : Bytes) :
    c.SameLoops (dispatchPacket c plain).1 := by
  unfold dispatchPacket
  split
  · exact .refl c
  · split_ifs
    · unfold handlePing
      split
      · exact .refl c
      · exact sendPlaintext_sameLoops c _
    · unfold handlePong
      split
      · exact .refl c
      · split_ifs
        · exact ⟨rfl, rfl, rfl, rfl, rfl, rfl⟩
        · exact .refl c
    · unfold handleRoutingResponse
      split
      · exact .refl c
      · split
        · exact .refl c
        · exact setSlot_sameLoops c _ _
    · unfold handleConnNotification
      split
      · exact .refl c
      · exact setSlot_sameLoops c _ _
    · unfold handleDisconnNotification
      split
      · exact .refl c
      · simp only
        split_ifs
        · exact setSlot_sameLoops c _ _
        · exact .refl c
    · exact .refl c
    · exact .refl c
    · exact .refl c

end GoTox
