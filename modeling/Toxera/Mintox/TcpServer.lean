import Mathlib.Data.List.AList
import Mathlib.Data.Finset.Insert
import Mathlib.Data.Finset.Erase
import Toxera.Lib.Chan
import Toxera.Mintox.CryptoCore

/-!
# The TCP relay server of mintox

The state and the handlers of `mintox/tcp_server.go`, as the code computes them.
-/

namespace TcpServer

open CryptoCore

def numReservedPorts : UInt8 := 16
def numClientConnections : Nat := 240

inductive TcpStatus where
  | noStatus
  | connected
  | unconfirmed
  | confirmed
  deriving DecidableEq, Repr

structure PeerConnInfo where
  pubkey : CryptoKey
  status : UInt8
  otherid : UInt8
  connid : UInt8
  deriving DecidableEq

/-- The three tables of a connection and the objects that two of them point to. -/
structure RoutingTables where
  connInfos : CryptoKey → Option Nat
  connInfos2 : UInt8 → Option Nat
  connIds : UInt8 → Option Bool
  pcis : Nat → PeerConnInfo
  npci : Nat

structure TCPSecureConn where
  pubkey : Option CryptoKey
  status : TcpStatus
  tables : RoutingTables
  cwctrlq : Chan Bytes
  cwdataq : Chan Bytes
  stopC : Chan Unit
  sockClosed : Bool
  onClosed : Bool
  onConfirmed : Bool
  /-- the read loop has not ended -/
  reading : Bool
  /-- the ping loop has been started -/
  pinging : Bool

structure TCPServer where
  conn : Nat → TCPSecureConn
  accepted : Nat
  conns : AList (fun _ : CryptoKey => Nat)
  hsConns : Finset Nat

def initConnids : UInt8 → Option Bool :=
  (List.range numClientConnections).foldl
    (fun ids i => Function.update ids (UInt8.ofNat i) (some false)) (fun _ => none)

def connidKeys : List UInt8 := (List.range numClientConnections).map UInt8.ofNat

structure RangeOrder where
  keys : List UInt8
  perm : keys.Perm connidKeys

def nextConnid (ids : UInt8 → Option Bool) : List UInt8 → (UInt8 → Option Bool) × UInt8
  | [] => (ids, 0)
  | connid :: rest =>
    if ids connid = some false then
      (Function.update ids connid (some true), connid + numReservedPorts)
    else nextConnid ids rest

def zeroPci : PeerConnInfo :=
  ⟨⟨List.replicate publicKeySize 0, List.length_replicate⟩, 0, 0, 0⟩

def RoutingTables.empty : RoutingTables where
  connInfos := fun _ => none
  connInfos2 := fun _ => none
  connIds := initConnids
  pcis := fun _ => zeroPci
  npci := 0

def RoutingTables.modifyPci (t : RoutingTables) (p : Nat)
    (f : PeerConnInfo → PeerConnInfo) : RoutingTables :=
  { t with pcis := Function.update t.pcis p (f (t.pcis p)) }

def RoutingTables.enter (t : RoutingTables) (pci : PeerConnInfo) : RoutingTables where
  connInfos := Function.update t.connInfos pci.pubkey (some t.npci)
  connInfos2 := Function.update t.connInfos2 pci.connid (some t.npci)
  connIds := t.connIds
  pcis := Function.update t.pcis t.npci pci
  npci := t.npci + 1

def newTCPSecureConn : TCPSecureConn where
  pubkey := none
  status := .noStatus
  tables := .empty
  cwctrlq := .make 64
  cwdataq := .make 128
  stopC := .make 0
  sockClosed := false
  onClosed := true
  onConfirmed := true
  reading := true
  pinging := false

def sendCtrlPacket (c : TCPSecureConn) (data : Bytes) : Option TCPSecureConn :=
  if data.length > 2048 then some c
  else if c.cwctrlq.len ≥ c.cwctrlq.cap then some c
  else (c.cwctrlq.trySend data).map fun q => { c with cwctrlq := q }

def sendDataPacket (c : TCPSecureConn) (connid : UInt8) (data : Bytes) : Option TCPSecureConn :=
  if data.length > 2048 then some c
  else if c.cwdataq.len ≥ c.cwdataq.cap then some c
  else (c.cwdataq.trySend (connid :: data)).map fun q => { c with cwdataq := q }

def routingResponse (connid : UInt8) (peerpk : CryptoKey) : Bytes := 1 :: connid :: peerpk.val
def connectNotification (connid : UInt8) : Bytes := [2, connid]
def disconnectNotification (connid : UInt8) : Bytes := [3, connid]

def sendRoutingResponse (c : TCPSecureConn) (connid : UInt8) (peerpk : CryptoKey) :
    Option TCPSecureConn :=
  sendCtrlPacket c (routingResponse connid peerpk)

def handlePingRequest (c : TCPSecureConn) (rpkt : Bytes) : Option TCPSecureConn :=
  sendCtrlPacket c (5 :: rpkt.drop 1)

def newTCPServer : TCPServer where
  conn := fun _ => newTCPSecureConn
  accepted := 0
  conns := ∅
  hsConns := ∅

def TCPServer.setConn (s : TCPServer) (i : Nat) (c : TCPSecureConn) : TCPServer :=
  { s with conn := Function.update s.conn i c }

def TCPServer.modifyPci (s : TCPServer) (i p : Nat) (f : PeerConnInfo → PeerConnInfo) :
    TCPServer :=
  s.setConn i { s.conn i with tables := (s.conn i).tables.modifyPci p f }

def sendConnectNotification (s : TCPServer) (i : Nat) (connid : UInt8) : Option TCPServer :=
  (sendCtrlPacket (s.conn i) (connectNotification connid)).map (s.setConn i)

def sendDisconnectNotification (s : TCPServer) (i : Nat) (connid : UInt8) : Option TCPServer :=
  (sendCtrlPacket (s.conn i) (disconnectNotification connid)).map (s.setConn i)

def beginRouting (c : TCPSecureConn) (order : List UInt8) (peerpk : CryptoKey) :
    Option (TCPSecureConn × Option Nat) :=
  let done (connid : UInt8) := (sendRoutingResponse c connid peerpk).map fun c' => (c', none)
  let fresh : Option (TCPSecureConn × Option Nat) :=
    let (ids, connid) := nextConnid c.tables.connIds order
    if connid = 0 then done 0
    else
      let tables := { c.tables with connIds := ids }
      let tables := tables.enter ⟨peerpk, 1, 0, connid⟩
      (sendRoutingResponse { c with tables := tables } connid peerpk).map fun c' =>
        (c', some c.tables.npci)
  match c.pubkey with
  | none => none
  | some self =>
    -- a request for oneself is denied
    if peerpk = self then done 0
    else match c.tables.connInfos peerpk with
      | some p => if (c.tables.pcis p).status > 0 then done (c.tables.pcis p).connid else fresh
      | none => fresh

/-- The second part: when the peer has asked for this connection too, both
objects become linked and both sides are notified. -/
def linkRouting (s : TCPServer) (i p : Nat) (peerpk : CryptoKey) : Option TCPServer :=
  match s.conns.lookup peerpk, (s.conn i).pubkey with
  | none, _ => some s
  | some _, none => none
  | some j, some self =>
    match (s.conn j).tables.connInfos self with
    | none => some s
    | some q =>
      let connid := ((s.conn i).tables.pcis p).connid
      let otherid := ((s.conn j).tables.pcis q).connid
      let s₁ := s.modifyPci i p fun x => { x with status := 2, otherid := otherid }
      let s₂ := s₁.modifyPci j q fun x => { x with status := 2, otherid := connid }
      (sendConnectNotification s₂ i connid).bind fun s₃ => sendConnectNotification s₃ j otherid

def handleRoutingRequest (s : TCPServer) (i : Nat) (order : List UInt8) (reqpkt : Bytes) :
    Option TCPServer :=
  -- the slice `reqpkt[1 : 1+PUBLIC_KEY_SIZE]` is out of range for a shorter packet
  if reqpkt.length < 1 + publicKeySize then none
  else
    (newCryptoKey ((reqpkt.drop 1).take publicKeySize)).bind fun peerpk =>
      (beginRouting (s.conn i) order peerpk).bind fun r =>
        match r.2 with
        | none => some (s.setConn i r.1)
        | some p => linkRouting (s.setConn i r.1) i p peerpk

def resetPci (x : PeerConnInfo) : PeerConnInfo := { x with status := 1, otherid := 0 }

def handleDisconnectNotification (s : TCPServer) (i : Nat) (pkt : Bytes) : Option TCPServer :=
  match pkt[1]? with
  | none => none
  | some connid =>
    match (s.conn i).tables.connInfos2 connid with
    | none => none -- the assertion on a known id
    | some p =>
      let pci0 := (s.conn i).tables.pcis p
      match s.conns.lookup pci0.pubkey with
      | none => some s
      | some j =>
        match (s.conn j).tables.connInfos2 pci0.otherid with
        | none => some s
        | some q =>
          let peercid := ((s.conn j).tables.pcis q).connid
          sendDisconnectNotification ((s.modifyPci j q resetPci).modifyPci i p resetPci) j peercid

def handleRoutingData (s : TCPServer) (i : Nat) (rpkt : Bytes) : Option TCPServer :=
  match rpkt with
  | [] => none
  | connid :: data =>
    match (s.conn i).tables.connInfos2 connid with
    | none => some s
    | some p =>
      match s.conns.lookup ((s.conn i).tables.pcis p).pubkey, (s.conn i).pubkey with
      | none, _ => some s
      | some _, none => none
      | some j, some self =>
        match (s.conn j).tables.connInfos self with
        | none => some s
        | some q =>
          (sendDataPacket (s.conn j) ((s.conn j).tables.pcis q).connid data).map (s.setConn j)

def dispatch (s : TCPServer) (i : Nat) (order : List UInt8) (plnpkt : Bytes) : Option TCPServer :=
  match plnpkt with
  | [] => none
  | ptype :: _ =>
    if ptype = 4 then (handlePingRequest (s.conn i) plnpkt).map (s.setConn i)
    else if ptype = 5 then some s
    else if ptype = 0 then handleRoutingRequest s i order plnpkt
    else if ptype = 1 ∨ ptype = 2 then some s
    else if ptype = 3 then handleDisconnectNotification s i plnpkt
    else if ptype = 6 ∨ ptype = 7 ∨ ptype = 8 ∨ ptype = 9 then some s
    else if ptype ≥ numReservedPorts then handleRoutingData s i plnpkt
    else if ptype > 9 ∧ ptype < numReservedPorts then some s
    else none

def TCPServer.registered (s : TCPServer) : List Nat := s.conns.entries.map Sigma.snd

def resetLink (delbinpk : CryptoKey) (s : TCPServer) (j : Nat) : TCPServer :=
  match (s.conn j).tables.connInfos delbinpk with
  | none => s
  | some p => s.modifyPci j p resetPci

def notifyClosed (delbinpk : CryptoKey) (s : TCPServer) (j : Nat) : Except TCPServer TCPServer :=
  match (s.conn j).tables.connInfos delbinpk with
  | none => .ok s
  | some p =>
    match sendDisconnectNotification s j ((s.conn j).tables.pcis p).connid with
    | none => .error s
    | some s' => .ok s'

/-- First every registered connection's object for the key is reset, then each
such connection is notified once. -/
def killAccepted (s : TCPServer) (delbinpk : CryptoKey) : Except TCPServer TCPServer :=
  s.registered.dedup.foldlM (notifyClosed delbinpk) (s.registered.foldl (resetLink delbinpk) s)

def onConnClosed (s : TCPServer) (i : Nat) : Except TCPServer TCPServer :=
  let s₁ := { s with hsConns := s.hsConns.erase i }
  match (s₁.conn i).pubkey with
  | none => .error s₁
  | some binpk => killAccepted { s₁ with conns := s₁.conns.erase binpk } binpk

/-- What `doClose` does after the callback: drop the callbacks, close the socket
and then the three channels, up to the first that is closed already. -/
def finishClose (c : TCPSecureConn) : TCPSecureConn :=
  let c := { c with onClosed := false, onConfirmed := false, sockClosed := true }
  match c.cwctrlq.close with
  | none => c
  | some ctrlq =>
    let c := { c with cwctrlq := ctrlq }
    match c.cwdataq.close with
    | none => c
    | some dataq =>
      let c := { c with cwdataq := dataq }
      match c.stopC.close with
      | none => c
      | some stopC => { c with stopC := stopC }

def doClose (s : TCPServer) (i : Nat) : TCPServer :=
  let s₁ := s.setConn i { s.conn i with status := .noStatus }
  if (s₁.conn i).onClosed then
    match onConnClosed s₁ i with
    | .error s₂ => s₂
    | .ok s₂ => s₂.setConn i (finishClose (s₂.conn i))
  else s₁.setConn i (finishClose (s₁.conn i))

def onConnConfirmed (s : TCPServer) (i : Nat) : Option TCPServer :=
  let s₁ := { s with hsConns := s.hsConns.erase i }
  match (s₁.conn i).pubkey with
  | none => none
  | some binpk =>
    let s₂ := match s₁.conns.lookup binpk with
      | none => s₁
      | some oc =>
        let s' := { s₁ with conns := s₁.conns.erase binpk }
        doClose (s'.setConn oc { s'.conn oc with onClosed := false }) oc
    some { s₂ with conns := s₂.conns.insert binpk i }

def startHandshake (s : TCPServer) : TCPServer :=
  { s.setConn s.accepted newTCPSecureConn with
    accepted := s.accepted + 1, hsConns := insert s.accepted s.hsConns }

end TcpServer
