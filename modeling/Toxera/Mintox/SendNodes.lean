import Toxera.Mintox.NodeItems
import Toxera.Mintox.Packet

/-!
# Nodes on the wire

The body of a SEND_NODES packet: `sendnodes_ipv6` and `pack_ip_port` of
`mintox/dht_private.go` write it, the loop of `HandleSendNodesIpv6` reads it.
-/

namespace Dht

open CryptoCore Packet PriorityList

def toxAfInet : UInt8 := 2
def toxAfInet6 : UInt8 := 10

structure IP where
  bytes : Bytes
  len : bytes.length = 4 ∨ bytes.length = 16
  deriving DecidableEq

structure UDPAddr where
  ip : IP
  port : UInt16
  deriving DecidableEq

variable {addr : UDPAddr} {ip : IP} {ip4 : Bytes} {isip6 : Bool} {nodes : List (CloseNode UDPAddr)}
  {port : UInt16}

def v4InV6Prefix : Bytes := List.replicate 10 0 ++ [0xff, 0xff]

namespace IP

def to4 (ip : IP) : Option Bytes :=
  if ip.bytes.length = 4 then some ip.bytes
  else if ip.bytes.take 12 = v4InV6Prefix then some (ip.bytes.drop 12)
  else none

def Equal (ip x : IP) : Prop :=
  if ip.bytes.length = x.bytes.length then ip.bytes = x.bytes
  else if ip.bytes.length = 4 then x.bytes.take 12 = v4InV6Prefix ∧ ip.bytes = x.bytes.drop 12
  else ip.bytes.take 12 = v4InV6Prefix ∧ ip.bytes.drop 12 = x.bytes

theorem to4_length (h : ip.to4 = some ip4) : ip4.length = 4 := by
  unfold to4 at h
  split_ifs at h with short mapped
  · exact Option.some.inj h ▸ short
  · cases h
    rw [List.length_drop, ip.len.resolve_left short]

theorem length_of_to4 (h : ip.to4 = none) : ip.bytes.length = 16 := by
  refine ip.len.resolve_left fun short => ?_
  rw [to4, if_pos short] at h
  cases h

theorem equal_to4 (h : ip.to4 = some ip4) : Equal ⟨ip4, Or.inl (to4_length h)⟩ ip := by
  have four := to4_length h
  unfold to4 at h
  split_ifs at h with short mapped
  · cases h
    rw [Equal, if_pos rfl]
  · cases h
    rw [Equal, if_neg (fun same => short (same.symm.trans four)), if_pos four]
    exact ⟨mapped, rfl⟩

end IP

def writeAt (i : Nat) (data buf : Bytes) : Bytes :=
  buf.take i ++ data ++ buf.drop (i + data.length)

def packIpPort (addr : UDPAddr) : Bytes :=
  match addr.ip.to4 with
  | some ip4 => writeAt (1 + 4) (putUint16 addr.port) (toxAfInet :: ip4 ++ [0, 0])
  | none => writeAt (1 + 4) (putUint16 addr.port) (toxAfInet6 :: addr.ip.bytes ++ [0, 0])

def packNode (node : CloseNode UDPAddr) : Bytes := packIpPort node.addr ++ node.pubkey.val

def sendNodesBody (nodes : List (CloseNode UDPAddr)) (sbdata : Bytes) : Bytes :=
  UInt8.ofNat nodes.length :: nodes.flatMap packNode ++ sbdata

def sendnodesIpv6 (d : DHT UDPAddr) (pubkey _clientid : CryptoKey) (sbdata : Bytes)
    (clock : CryptoKey → Nat → Time) (draw : Draws maxSentNodes) : Option (Option Bytes) :=
  (getCloseNodes d pubkey clock draw).map fun nodes =>
    if nodes.length ≤ 0 then none else some (sendNodesBody nodes sbdata)

def fill (n : Nat) (buf : Bytes) : Bytes := buf.take n ++ List.replicate (n - buf.length) 0

@[simp] theorem fill_length (n : Nat) (buf : Bytes) : (fill n buf).length = n := by
  simp only [fill, List.length_append, List.length_take, List.length_replicate]
  omega

theorem fill_append {n : Nat} {a : Bytes} (rest : Bytes) (len : a.length = n) :
    fill n (a ++ rest) = a := by
  have none : n - (a ++ rest).length = 0 := by
    rw [List.length_append]
    omega
  rw [fill, none, List.take_left' len, List.replicate_zero, List.append_nil]

def isIp6 (byte0 : UInt8) : Bool := byte0 &&& 127 == toxAfInet6

def ipSize (isip6 : Bool) : Nat := if isip6 then 16 else 4

def readIP (isip6 : Bool) (buf : Bytes) : IP where
  bytes := fill (ipSize isip6) buf
  len := by cases isip6 <;> simp [ipSize]

def readNode (buf : Bytes) : Option (CloseNode UDPAddr × Bytes) :=
  let isip6 := isIp6 (buf.headD 0)
  let behind := buf.tail.drop (ipSize isip6)
  let port := uint16 behind
  let keys := behind.drop 2
  (newCryptoKey (keys.take publicKeySize)).map fun nodekey =>
    (⟨⟨readIP isip6 buf.tail, port⟩, nodekey⟩, keys.drop publicKeySize)

def readNodes : Nat → Bytes → Option (List (CloseNode UDPAddr))
  | 0, _ => some []
  | n + 1, buf => (readNode buf).bind fun r => (readNodes n r.2).map fun nodes => r.1 :: nodes

def uint64 (buf : Bytes) : UInt64 := UInt64.ofNat (beVal (buf.take 8))

def parseSendNodes (plain : Bytes) : Option (List (CloseNode UDPAddr) × UInt64) :=
  if plain.length < 8 then none
  else (readNodes (plain.headD 0).toNat plain.tail).map fun nodes =>
    (nodes, uint64 (plain.drop (plain.length - 8)))

theorem uint64_putUint64 (n : UInt64) : uint64 (putUint64 n) = n := by
  rw [uint64, List.take_of_length_le (putUint64_length n).le, beVal_putUint64, UInt64.ofNat_toNat]

def overwritten (ip : IP) (port : UInt16) (h : ip.to4 = none) : IP where
  bytes := writeAt 4 (putUint16 port) ip.bytes
  len := by
    have len := IP.length_of_to4 h
    simp [writeAt, len]

def received (addr : UDPAddr) : UDPAddr :=
  match h : addr.ip.to4 with
  | some ip4 => ⟨⟨ip4, Or.inl (IP.to4_length h)⟩, addr.port⟩
  | none => ⟨overwritten addr.ip addr.port h, 0⟩

theorem received_v4 (h : addr.ip.to4 = some ip4) :
    received addr = ⟨⟨ip4, Or.inl (IP.to4_length h)⟩, addr.port⟩ := by
  unfold received
  split
  · grind
  · rename_i h'
    cases h.symm.trans h'

theorem received_v6 (h : addr.ip.to4 = none) :
    received addr = ⟨overwritten addr.ip addr.port h, 0⟩ := by
  unfold received
  split
  · rename_i ip4 h'
    cases h.symm.trans h'
  · rfl

theorem packIpPort_v4 (h : addr.ip.to4 = some ip4) :
    packIpPort addr = toxAfInet :: ip4 ++ putUint16 addr.port := by
  have len := IP.to4_length h
  simp only [packIpPort, h, writeAt, putUint16_length]
  rw [List.cons_append, show 1 + 4 = 4 + 1 from rfl, List.take_succ_cons, List.take_left' len,
    List.drop_of_length_le (by simp [len]), List.append_nil]

theorem packIpPort_v6 (h : addr.ip.to4 = none) :
    packIpPort addr = toxAfInet6 :: (overwritten addr.ip addr.port h).bytes ++ [0, 0] := by
  have len := IP.length_of_to4 h
  simp only [packIpPort, h, writeAt, overwritten, putUint16_length]
  rw [List.cons_append, show 1 + 4 = 4 + 1 from rfl, List.take_succ_cons,
    show 4 + 1 + 2 = 4 + 2 + 1 from rfl, List.drop_succ_cons, List.take_append_of_le_length,
    List.drop_append_of_le_length]
  · simp
  · omega
  · omega

theorem readIP_append (rest : Bytes) (size : ip.bytes.length = ipSize isip6) :
    readIP isip6 (ip.bytes ++ rest) = ip := by
  cases ip with
  | mk bytes len =>
    simp only [readIP, IP.mk.injEq]
    exact fill_append rest size

theorem readNode_entry (hi lo : UInt8) {byte0 : UInt8} (family : isIp6 byte0 = isip6)
    (size : ip.bytes.length = ipSize isip6) (pubkey : CryptoKey) (rest : Bytes) :
    readNode (byte0 :: (ip.bytes ++ (hi :: lo :: (pubkey.val ++ rest)))) =
      some (⟨⟨ip, uint16 [hi, lo]⟩, pubkey⟩, rest) := by
  simp only [readNode, List.headD_cons, List.tail_cons, family]
  rw [readIP_append _ size, List.drop_left' size, List.drop_succ_cons, List.drop_succ_cons,
    List.drop_zero, List.take_left' pubkey.property, List.drop_left' pubkey.property,
    newCryptoKey_val, Option.map_some]
  rfl

theorem readNode_packNode (node : CloseNode UDPAddr) (rest : Bytes) :
    readNode (packNode node ++ rest) = some (⟨received node.addr, node.pubkey⟩, rest) := by
  cases h : node.addr.ip.to4 with
  | some ip4 =>
    have size : (⟨ip4, Or.inl (IP.to4_length h)⟩ : IP).bytes.length = ipSize false :=
      IP.to4_length h
    have entry := readNode_entry (UInt8.ofNat (node.addr.port.toNat / 256))
      (UInt8.ofNat (node.addr.port.toNat % 256)) (show isIp6 toxAfInet = false by decide) size
      node.pubkey rest
    have port : uint16 [UInt8.ofNat (node.addr.port.toNat / 256),
        UInt8.ofNat (node.addr.port.toNat % 256)] = node.addr.port :=
      uint16_putUint16 node.addr.port []
    rw [port] at entry
    rw [received_v4 h, packNode, packIpPort_v4 h, ← entry]
    simp [putUint16]
  | none =>
    have len : (overwritten node.addr.ip node.addr.port h).bytes.length = 16 := by
      simp [overwritten, writeAt, IP.length_of_to4 h]
    have entry := readNode_entry 0 0 (show isIp6 toxAfInet6 = true by decide) len node.pubkey rest
    rw [show uint16 [0, 0] = 0 from rfl] at entry
    rw [received_v6 h, packNode, packIpPort_v6 h, ← entry]
    simp

theorem readNodes_flatMap {β : Type*} {encode : β → Bytes} {node : β → CloseNode UDPAddr}
    (one : ∀ b rest, readNode (encode b ++ rest) = some (node b, rest)) (bs : List β)
    (rest : Bytes) : readNodes bs.length (bs.flatMap encode ++ rest) = some (bs.map node) := by
  induction bs with
  | nil => rfl
  | cons b bs ih => grind [readNodes]

theorem parseSendNodes_counted {count : Nat} (few : count < 256) {entries : Bytes} (id : UInt64)
    (read : readNodes count (entries ++ putUint64 id) = some nodes) :
    parseSendNodes (UInt8.ofNat count :: entries ++ putUint64 id) = some (nodes, id) := by
  have eight := putUint64_length id
  have len : (UInt8.ofNat count :: entries ++ putUint64 id).length =
      (UInt8.ofNat count :: entries).length + 8 := by rw [List.length_append, eight]
  have counted : (UInt8.ofNat count).toNat = count := by
    rw [UInt8.toNat_ofNat', Nat.mod_eq_of_lt few]
  have last : (UInt8.ofNat count :: entries ++ putUint64 id).drop
      ((UInt8.ofNat count :: entries ++ putUint64 id).length - 8) = putUint64 id := by
    rw [len, Nat.add_sub_cancel]
    exact List.drop_left
  rw [parseSendNodes, if_neg (by omega), last, uint64_putUint64, List.cons_append,
    List.headD_cons, List.tail_cons, counted, read, Option.map_some]

theorem parseSendNodes_body (few : nodes.length < 256) (id : UInt64) :
    parseSendNodes (sendNodesBody nodes (putUint64 id)) =
      some (nodes.map fun node => ⟨received node.addr, node.pubkey⟩, id) :=
  parseSendNodes_counted few id (readNodes_flatMap readNode_packNode nodes _)

def SameAddr (a b : UDPAddr) : Prop := a.ip.Equal b.ip ∧ a.port = b.port

def SameNode (a b : CloseNode UDPAddr) : Prop := a.pubkey = b.pubkey ∧ SameAddr a.addr b.addr

/-- An IPv4 address, or an IPv6 address with zeros where the port is written and port zero. -/
def Survives (addr : UDPAddr) : Prop :=
  addr.ip.to4.isSome ∨ addr.port = 0 ∧ (addr.ip.bytes.drop 4).take 2 = [0, 0]

theorem overwritten_eq_iff (h : ip.to4 = none) :
    (overwritten ip port h).bytes = ip.bytes ↔ putUint16 port = (ip.bytes.drop 4).take 2 := by
  have split : ip.bytes = ip.bytes.take 4 ++ (ip.bytes.drop 4).take 2 ++ ip.bytes.drop (4 + 2) := by
    rw [← List.drop_drop, List.append_assoc, List.take_append_drop, List.take_append_drop]
  have same : (overwritten ip port h).bytes = ip.bytes ↔
      ip.bytes.take 4 ++ putUint16 port ++ ip.bytes.drop (4 + 2) =
        ip.bytes.take 4 ++ (ip.bytes.drop 4).take 2 ++ ip.bytes.drop (4 + 2) := by
    rw [← split]
    rfl
  rw [same, List.append_left_inj, List.append_right_inj]

theorem putUint16_zero_iff : putUint16 port = [0, 0] ↔ port = 0 := by
  refine ⟨fun zeros => ?_, fun zero => zero ▸ rfl⟩
  have read := uint16_putUint16 port []
  rw [zeros] at read
  exact read.symm

theorem sameAddr_received_iff (addr : UDPAddr) :
    SameAddr (received addr) addr ↔ Survives addr := by
  cases h : addr.ip.to4 with
  | some ip4 =>
    rw [received_v4 h, Survives, h]
    exact iff_of_true ⟨IP.equal_to4 h, rfl⟩ (Or.inl rfl)
  | none =>
    have len : (overwritten addr.ip addr.port h).bytes.length = addr.ip.bytes.length := by
      rw [IP.length_of_to4 h]
      simp [overwritten, writeAt, IP.length_of_to4 h]
    rw [received_v6 h, SameAddr, IP.Equal, if_pos len, overwritten_eq_iff h, Survives, h]
    constructor
    · rintro ⟨zeros, port⟩
      have none : putUint16 addr.port = [0, 0] := putUint16_zero_iff.mpr port.symm
      exact Or.inr ⟨port.symm, zeros.symm.trans none⟩
    · rintro (v4 | ⟨port, zeros⟩)
      · cases v4
      · exact ⟨(putUint16_zero_iff.mpr port).trans zeros.symm, port.symm⟩

/-- The nodes and the request id come back exactly when no IPv6 address is changed by the
port. -/
theorem send_nodes_round_trip_iff (nodes : List (CloseNode UDPAddr)) (few : nodes.length < 256)
    (id : UInt64) :
    (∃ parsed, parseSendNodes (sendNodesBody nodes (putUint64 id)) = some (parsed, id) ∧
      List.Forall₂ SameNode parsed nodes) ↔ ∀ node ∈ nodes, Survives node.addr := by
  have entries : List.Forall₂ SameNode
      (nodes.map fun node => ⟨received node.addr, node.pubkey⟩) nodes ↔
      ∀ node ∈ nodes, Survives node.addr := by
    rw [List.forall₂_map_left_iff, List.forall₂_same]
    simp only [SameNode, sameAddr_received_iff, true_and]
  rw [parseSendNodes_body few, ← entries]
  constructor
  · grind
  · intro same
    exact ⟨_, rfl, same⟩

def ipv4Node : CloseNode UDPAddr :=
  ⟨⟨⟨[192, 0, 2, 1], by decide⟩, 33445⟩, keyOf 1⟩

def ipv6Node : CloseNode UDPAddr :=
  ⟨⟨⟨[0x20, 0x01, 0x0d, 0xb8, 0, 0, 0, 0, 0, 0, 0, 0, 0, 0, 0, 1], by decide⟩, 33445⟩, keyOf 2⟩

theorem ipv4_nodes_round_trip :
    ∃ parsed, parseSendNodes (sendNodesBody [ipv4Node, ipv4Node] (putUint64 7)) = some (parsed, 7) ∧
      List.Forall₂ SameNode parsed [ipv4Node, ipv4Node] := by
  refine (send_nodes_round_trip_iff [ipv4Node, ipv4Node] (by decide) 7).mpr ?_
  intro node hnode
  obtain rfl : node = ipv4Node := by simpa using hnode
  exact Or.inl rfl

/-- The node `2001:db8::1`, port 33445, is read as `2001:db8:82a5::1`, port 0. -/
theorem ipv6_node_changed :
    parseSendNodes (sendNodesBody [ipv4Node, ipv6Node] (putUint64 7)) = some ([ipv4Node,
      ⟨⟨⟨[0x20, 0x01, 0x0d, 0xb8, 0x82, 0xa5, 0, 0, 0, 0, 0, 0, 0, 0, 0, 1], by decide⟩, 0⟩,
        keyOf 2⟩], 7) ∧
    ¬ ∃ parsed, parseSendNodes (sendNodesBody [ipv4Node, ipv6Node] (putUint64 7)) =
      some (parsed, 7) ∧ List.Forall₂ SameNode parsed [ipv4Node, ipv6Node] := by
  have parse : parseSendNodes (sendNodesBody [ipv4Node, ipv6Node] (putUint64 7)) = some ([ipv4Node,
      ⟨⟨⟨[0x20, 0x01, 0x0d, 0xb8, 0x82, 0xa5, 0, 0, 0, 0, 0, 0, 0, 0, 0, 1], by decide⟩, 0⟩,
        keyOf 2⟩], 7) := by
    decide +kernel
  refine ⟨parse, ?_⟩
  rintro ⟨parsed, parse', same⟩
  obtain rfl : _ = parsed := congrArg Prod.fst (Option.some.inj (parse.symm.trans parse'))
  cases same with
  | cons _ same =>
    cases same with
    | cons last _ => exact absurd last.2.2 (by decide)

end Dht
