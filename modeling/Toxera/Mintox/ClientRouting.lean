import Toxera.Mintox.TcpClient

/-!
# How the TCP client of mintox handles packets

The switch of `doReadPacket` in `mintox/tcp_client.go` for a confirmed client, the
handlers it selects and the functions they send with.
-/

namespace TcpClient

open CryptoCore

structure BiMap (α β : Type) where
  immutable : Bool
  forward : α → Option β
  inverse : β → Option α

def BiMap.new (α β : Type) : BiMap α β := ⟨false, fun _ => none, fun _ => none⟩

def BiMap.insert {α β : Type} [DecidableEq α] [DecidableEq β] (b : BiMap α β) (k : α) (v : β) :
    Option (BiMap α β) :=
  if b.immutable then none
  else some { b with
    forward := Function.update b.forward k (some v)
    inverse := Function.update b.inverse v (some k) }

structure SendItem where
  value : Bytes
  prior : Nat

structure SendQueue where
  items : List SendItem
  disposed : Bool

def SendQueue.put (q : SendQueue) (item : SendItem) : SendQueue :=
  if q.disposed then q else { q with items := q.items ++ [item] }

structure Callbacks where
  routingResponseFunc : Bool
  routingStatusFunc : Bool
  routingDataFunc : Bool
  onReservedData : Bool

inductive Call where
  | routingResponse (connid : UInt8) (pubkey : CryptoKey)
  | routingStatus (connid status : UInt8)
  | routingData (connid : UInt8) (data : Bytes)
  | reservedData (connid : UInt8) (data : Bytes)
  deriving DecidableEq

structure RoutingClient extends TCPClient where
  pingRequestId : UInt64
  conns : BiMap UInt8 CryptoKey
  sendq : SendQueue
  callbacks : Callbacks
  writable : conns.immutable = false

abbrev Handled := RoutingClient × Option Call

/-- A packet that is too long, or comes when the client is not confirmed, is
refused with an error that the handlers only print. -/
def sendCtrlPacket (c : RoutingClient) (data : Bytes) : RoutingClient :=
  if data.length > 2048 then c
  else if c.status ≠ .confirmed then c
  else { c with sendq := c.sendq.put ⟨data, 0⟩ }

def handlePingRequest (c : RoutingClient) (rpkt : Bytes) : Handled :=
  (sendCtrlPacket c (5 :: rpkt.drop 1), none)

def pongId (rpkt : Bytes) : UInt64 :=
  if 8 ≤ (rpkt.drop 1).length then UInt64.ofNat (beVal ((rpkt.drop 1).take 8)) else 0

/-- A pong that does not belong to the last ping is an error that nobody reads. -/
def handlePingResponse2 (c : RoutingClient) (rpkt : Bytes) : Handled :=
  if pongId rpkt ≠ c.pingRequestId then (c, none) else ({ c with pingRequestId := 0 }, none)

theorem BiMap.insert_immutable {α β : Type} [DecidableEq α] [DecidableEq β] {b b' : BiMap α β}
    {k : α} {v : β} (h : b.insert k v = some b') : b'.immutable = b.immutable := by
  unfold BiMap.insert at h
  split_ifs at h
  rw [← Option.some.inj h]

def RoutingClient.insertConn (c : RoutingClient) (connid : UInt8) (pubkey : CryptoKey) :
    Option RoutingClient :=
  match h : c.conns.insert connid pubkey with
  | none => none
  | some conns =>
    some { c with conns := conns, writable := (BiMap.insert_immutable h).trans c.writable }

def handleRoutingResponse (c : RoutingClient) (rspdat : Bytes) : Option Handled :=
  if rspdat[0]? ≠ some 1 then none
  else rspdat[1]?.bind fun connid =>
    if rspdat.length < 2 + publicKeySize then none
    else
      (newCryptoKey ((rspdat.drop 2).take publicKeySize)).bind fun pubkey =>
        (c.insertConn connid pubkey).map fun c' =>
          (c', if c.callbacks.routingResponseFunc then some (.routingResponse connid pubkey)
            else none)

def handleNotification (status : UInt8) (c : RoutingClient) (rpkt : Bytes) : Option Handled :=
  rpkt[1]?.map fun connid =>
    (c, if c.callbacks.routingStatusFunc then some (.routingStatus connid status) else none)

def handleConnectionNotification : RoutingClient → Bytes → Option Handled := handleNotification 2
def handleDisconnectNotification : RoutingClient → Bytes → Option Handled := handleNotification 1

def handleRoutingData (c : RoutingClient) (rpkt : Bytes) : Option Handled :=
  rpkt[0]?.map fun connid => (c, if c.callbacks.routingDataFunc then
    some (.routingData connid (rpkt.drop 1)) else none)

def handleReservedData (c : RoutingClient) (rpkt : Bytes) : Option Handled :=
  rpkt[0]?.map fun connid => (c, if c.callbacks.onReservedData then
    some (.reservedData connid (rpkt.drop 1)) else none)

def dispatch (c : RoutingClient) (plnpkt : Bytes) : Option Handled :=
  match plnpkt with
  | [] => none
  | ptype :: _ =>
    if ptype = 4 then some (handlePingRequest c plnpkt)
    else if ptype = 5 then some (handlePingResponse2 c plnpkt)
    else if ptype = 1 then handleRoutingResponse c plnpkt
    else if ptype = 2 then handleConnectionNotification c plnpkt
    else if ptype = 3 then handleDisconnectNotification c plnpkt
    else if ptype = 7 ∨ ptype = 9 then some (c, none)
    else if ptype ≥ 16 then handleRoutingData c plnpkt
    else if ptype > 9 ∧ ptype < 16 then handleReservedData c plnpkt
    else none

theorem insertConn_isSome (c : RoutingClient) (connid : UInt8) (pubkey : CryptoKey) :
    ∃ c', c.insertConn connid pubkey = some c' := by
  unfold RoutingClient.insertConn
  split
  · rename_i h
    simp [BiMap.insert, c.writable] at h
  · exact ⟨_, rfl⟩

theorem handleRoutingResponse_isSome_iff (c : RoutingClient) (rest : Bytes) :
    (∃ r, handleRoutingResponse c (1 :: rest) = some r) ↔ 1 + publicKeySize ≤ rest.length := by
  unfold handleRoutingResponse
  rw [if_neg (by simp)]
  cases rest with
  | nil => simp
  | cons connid key =>
    rw [List.getElem?_cons_succ, List.getElem?_cons_zero, Option.bind_some]
    by_cases short : key.length < publicKeySize
    · grind
    · have full : (key.take publicKeySize).length = publicKeySize := by
        rw [List.length_take]
        omega
      refine iff_of_true ?_ (by simp only [List.length_cons]; omega)
      rw [if_neg (by simp only [List.length_cons]; omega), List.drop_succ_cons,
        List.drop_succ_cons, List.drop_zero, newCryptoKey, dif_pos full, Option.bind_some]
      obtain ⟨c', hc'⟩ := insertConn_isSome c connid ⟨_, full⟩
      exact ⟨_, Option.map_eq_some_iff.mpr ⟨c', hc', rfl⟩⟩

def Harmless (plnpkt : Bytes) : Prop :=
  ∃ ptype rest, plnpkt = ptype :: rest ∧ ptype ≠ 0 ∧ ptype ≠ 6 ∧ ptype ≠ 8 ∧
    (ptype = 1 → 1 + publicKeySize ≤ rest.length) ∧
    (ptype = 2 ∨ ptype = 3 → 1 ≤ rest.length)

theorem dispatch_isSome_iff (c : RoutingClient) (plnpkt : Bytes) :
    (∃ r, dispatch c plnpkt = some r) ↔ Harmless plnpkt := by
  cases plnpkt with
  | nil => simp [dispatch, Harmless]
  | cons ptype rest =>
    have harmless : Harmless (ptype :: rest) ↔ ptype ≠ 0 ∧ ptype ≠ 6 ∧ ptype ≠ 8 ∧
        (ptype = 1 → 1 + publicKeySize ≤ rest.length) ∧
        (ptype = 2 ∨ ptype = 3 → 1 ≤ rest.length) := by
      constructor
      · rintro ⟨p, r, heq, h⟩
        obtain ⟨rfl, rfl⟩ := List.cons.inj heq
        exact h
      · intro h
        exact ⟨ptype, rest, rfl, h⟩
    have notifies : ∀ status, (∃ r, handleNotification status c (ptype :: rest) = some r) ↔
        1 ≤ rest.length := by
      intro status
      cases rest <;> simp [handleNotification]
    -- the types that are neither refused nor checked for their length
    have others : (∀ t ∈ ([0, 1, 2, 3, 6, 8] : List UInt8), ptype ≠ t) →
        Harmless (ptype :: rest) := by
      intro h
      refine harmless.mpr ⟨h 0 (by decide), h 6 (by decide), h 8 (by decide),
        fun h1 => absurd h1 (h 1 (by decide)), fun h23 => ?_⟩
      exact absurd h23 (not_or.mpr ⟨h 2 (by decide), h 3 (by decide)⟩)
    have large : 9 < ptype → ∀ t ∈ ([0, 1, 2, 3, 6, 8] : List UInt8), ptype ≠ t := by grind
    rw [dispatch]
    by_cases ping : ptype = 4
    · rw [if_pos ping]
      exact iff_of_true ⟨_, rfl⟩ (others (by simp [ping]))
    by_cases pong : ptype = 5
    · rw [if_neg ping, if_pos pong]
      exact iff_of_true ⟨_, rfl⟩ (others (by simp [pong]))
    by_cases response : ptype = 1
    · rw [if_neg ping, if_neg pong, if_pos response]
      subst response
      rw [handleRoutingResponse_isSome_iff, harmless]
      simp
    by_cases connect : ptype = 2
    · rw [if_neg ping, if_neg pong, if_neg response, if_pos connect]
      subst connect
      rw [handleConnectionNotification, notifies, harmless]
      simp
    by_cases disconnect : ptype = 3
    · rw [if_neg ping, if_neg pong, if_neg response, if_neg connect, if_pos disconnect]
      subst disconnect
      rw [handleDisconnectNotification, notifies, harmless]
      simp
    rw [if_neg ping, if_neg pong, if_neg response, if_neg connect, if_neg disconnect]
    split_ifs with todo data reserved
    · grind
    · exact iff_of_true ⟨_, rfl⟩ (others (large (Nat.lt_of_lt_of_le (by decide : 9 < 16) data)))
    · exact iff_of_true ⟨_, rfl⟩ (others (large reserved.1))
    · grind

end TcpClient
