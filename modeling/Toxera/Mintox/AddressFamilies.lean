import Toxera.Mintox.SendNodes

/-!
# Address families

The family byte of a node in a `SEND_NODES` packet says whether the address is of four or
sixteen bytes, and whether the node is reached over UDP or TCP: a TCP family is the UDP
family with the bit of weight 128.
-/

namespace Dht

open CryptoCore Packet

inductive Network where
  | udp | tcp
  deriving DecidableEq

structure NetAddr where
  network : Network
  ip : IP
  port : UInt16
  deriving DecidableEq

def isTcp (byte0 : UInt8) : Bool := byte0 &&& 128 == 1

def readNetNode (buf : Bytes) : Option (CloseNode NetAddr × Bytes) :=
  let istcp := isTcp (buf.headD 0)
  let isip6 := isIp6 (buf.headD 0)
  let behind := buf.tail.drop (ipSize isip6)
  let port := uint16 behind
  let keys := behind.drop 2
  (newCryptoKey (keys.take publicKeySize)).map fun nodekey =>
    (⟨⟨if istcp then .tcp else .udp, readIP isip6 buf.tail, port⟩, nodekey⟩,
      keys.drop publicKeySize)

def readNetNodes : Nat → Bytes → Option (List (CloseNode NetAddr))
  | 0, _ => some []
  | n + 1, buf =>
    (readNetNode buf).bind fun r => (readNetNodes n r.2).map fun nodes => r.1 :: nodes

def parseNetNodes (plain : Bytes) : Option (List (CloseNode NetAddr) × UInt64) :=
  if plain.length < 8 then none
  else (readNetNodes (plain.headD 0).toNat plain.tail).map fun nodes =>
    (nodes, uint64 (plain.drop (plain.length - 8)))

theorem isTcp_eq_false (byte0 : UInt8) : isTcp byte0 = false := by
  rw [isTcp, beq_eq_false_iff_ne]
  intro one
  have lowest := congrArg (fun b => b.toNat.testBit 0) one
  simp [UInt8.toNat_and] at lowest

def overUdp (node : CloseNode UDPAddr) : CloseNode NetAddr :=
  ⟨⟨.udp, node.addr.ip, node.addr.port⟩, node.pubkey⟩

theorem readNetNode_eq (buf : Bytes) :
    readNetNode buf = (readNode buf).map fun r => (overUdp r.1, r.2) := by
  simp only [readNetNode, isTcp_eq_false, readNode, Option.map_map]
  rfl

theorem readNetNodes_eq (n : Nat) (buf : Bytes) :
    readNetNodes n buf = (readNodes n buf).map fun nodes => nodes.map overUdp := by
  induction n generalizing buf with
  | zero => rfl
  | succ n ih =>
    rw [readNetNodes, readNodes, readNetNode_eq]
    cases readNode buf with
    | none => rfl
    | some r =>
      simp only [Option.map_some, Option.bind_some, ih, Option.map_map]
      rfl

theorem parseNetNodes_eq (plain : Bytes) :
    parseNetNodes plain = (parseSendNodes plain).map fun r => (r.1.map overUdp, r.2) := by
  unfold parseNetNodes parseSendNodes
  split_ifs
  · rfl
  · simp only [readNetNodes_eq, Option.map_map]
    rfl

inductive Family where
  | inet | inet6 | tcpInet | tcpInet6
  deriving DecidableEq

namespace Family

def byte : Family → UInt8
  | inet => toxAfInet
  | inet6 => toxAfInet6
  | tcpInet => 130
  | tcpInet6 => 138

def addressSize : Family → Nat
  | inet | tcpInet => 4
  | inet6 | tcpInet6 => 16

def network : Family → Network
  | inet | inet6 => .udp
  | tcpInet | tcpInet6 => .tcp

theorem isIp6_byte (f : Family) : ipSize (isIp6 f.byte) = f.addressSize := by
  cases f <;> decide

end Family

structure NodeEntry where
  family : Family
  ip : IP
  port : UInt16
  pubkey : CryptoKey
  size : ip.bytes.length = family.addressSize

namespace NodeEntry

def encode (e : NodeEntry) : Bytes :=
  e.family.byte :: (e.ip.bytes ++ (putUint16 e.port ++ e.pubkey.val))

def node (e : NodeEntry) : CloseNode NetAddr := ⟨⟨e.family.network, e.ip, e.port⟩, e.pubkey⟩

def udpNode (e : NodeEntry) : CloseNode UDPAddr := ⟨⟨e.ip, e.port⟩, e.pubkey⟩

end NodeEntry

def entriesBody (entries : List NodeEntry) (id : UInt64) : Bytes :=
  UInt8.ofNat entries.length :: entries.flatMap NodeEntry.encode ++ putUint64 id

theorem readNode_encode (e : NodeEntry) (rest : Bytes) :
    readNode (e.encode ++ rest) = some (e.udpNode, rest) := by
  have entry := readNode_entry (UInt8.ofNat (e.port.toNat / 256))
    (UInt8.ofNat (e.port.toNat % 256)) rfl (e.size.trans e.family.isIp6_byte.symm) e.pubkey rest
  have port : uint16 [UInt8.ofNat (e.port.toNat / 256), UInt8.ofNat (e.port.toNat % 256)] =
      e.port := uint16_putUint16 e.port []
  rw [port] at entry
  rw [NodeEntry.udpNode, ← entry]
  simp [NodeEntry.encode, putUint16]

theorem parseSendNodes_entries {entries : List NodeEntry} (few : entries.length < 256)
    (id : UInt64) :
    parseSendNodes (entriesBody entries id) = some (entries.map NodeEntry.udpNode, id) :=
  parseSendNodes_counted few id (readNodes_flatMap readNode_encode entries _)

theorem overUdp_udpNode_iff (e : NodeEntry) :
    overUdp e.udpNode = e.node ↔ e.family.network = .udp := by
  simp [overUdp, NodeEntry.udpNode, NodeEntry.node, eq_comm]

/-- Every entry is read with its key, its address and its port, and all entries with their
network exactly when there is no TCP node among them. -/
theorem nodes_recovered_iff (entries : List NodeEntry) (few : entries.length < 256)
    (id : UInt64) :
    parseNetNodes (entriesBody entries id) =
        some (entries.map fun e => ⟨⟨.udp, e.ip, e.port⟩, e.pubkey⟩, id) ∧
      (parseNetNodes (entriesBody entries id) = some (entries.map NodeEntry.node, id) ↔
        ∀ e ∈ entries, e.family = .inet ∨ e.family = .inet6) := by
  have read : parseNetNodes (entriesBody entries id) =
      some (entries.map fun e => overUdp e.udpNode, id) := by
    rw [parseNetNodes_eq, parseSendNodes_entries few, Option.map_some, List.map_map]
    rfl
  refine ⟨read, ?_⟩
  have udp (f : Family) : f.network = .udp ↔ f = .inet ∨ f = .inet6 := by cases f <;> decide
  simp only [read, Option.some.injEq, Prod.mk.injEq, and_true, List.map_inj_left,
    overUdp_udpNode_iff, udp]

def nodeEntry (family : Family) (size : 4 = family.addressSize) : NodeEntry where
  family := family
  ip := ipv4Node.addr.ip
  port := 33445
  pubkey := keyOf 1
  size := size

theorem nodes_recovered_udp :
    parseNetNodes (entriesBody [nodeEntry .inet rfl] 9) = some ([(nodeEntry .inet rfl).node], 9) :=
  (nodes_recovered_iff [nodeEntry .inet rfl] (by decide) 9).2.mpr (by decide)

/-- One TCP node, which is read as a UDP node. -/
theorem tcp_node_read_as_udp :
    parseNetNodes (entriesBody [nodeEntry .tcpInet rfl] 9) =
        some ([(nodeEntry .inet rfl).node], 9) ∧
      (nodeEntry .tcpInet rfl).node.addr.network = .tcp := by
  decide +kernel

end Dht
