import Toxera.Mintox.OnionAnnounce
import Toxera.Mintox.SendNodes

/-!
# Datagrams

What `doPoll` of `mintox/network.go` does with a datagram: it looks up the handler of the
packet type and calls it with the bytes received.
-/

namespace Dht

open CryptoCore Exec Packet PriorityList

inductive Handler where
  | pingRequest | pingResponse | getNodes | sendNodesIpv6 | crypto | announceRequest
  deriving DecidableEq

def netPacketPingResponse : UInt8 := 0x01
def netPacketSendNodesIpv6 : UInt8 := 0x04
def netPacketAnnounceResponse : UInt8 := 0x84
def netPacketOnionRecv3 : UInt8 := 0x8c

def packetHandlers (ptype : UInt8) : Option Handler :=
  if ptype = 0x00 then some .pingRequest
  else if ptype = netPacketPingResponse then some .pingResponse
  else if ptype = 0x02 then some .getNodes
  else if ptype = netPacketSendNodesIpv6 then some .sendNodesIpv6
  else if ptype = 0x20 then some .crypto
  else if ptype = 0x83 then some .announceRequest
  else none

def sizeIpPort : Nat := 1 + 16 + 2
def pingIdSize : Nat := 32
def sendbackDataLength : Nat := 8
def onionReturn1 : Nat := nonceSize + sizeIpPort + macSize
def onionReturn2 : Nat := nonceSize + sizeIpPort + macSize + onionReturn1
def onionReturn3 : Nat := nonceSize + sizeIpPort + macSize + onionReturn2
def onionAnnounceRequestSize : Nat :=
  1 + nonceSize + publicKeySize + pingIdSize + publicKeySize + publicKeySize +
    sendbackDataLength + macSize
def announceRequestSizeRecv : Nat := onionAnnounceRequestSize + onionReturn3

structure UdpNode where
  selfSeckey : CryptoKey
  secBytes : CryptoKey
  dht : DHT UDPAddr
  announce : Onion.Announce UDPAddr

variable {plain : Bytes} {r : UdpNode × List Bytes}

structure Stamp where
  timestamp : Time
  lastPinged : Time
  retTimestamp : Time
  clock : Nat → Time

/-- Where a datagram comes from, and what is read and drawn while it is handled. -/
structure Moment where
  source : UDPAddr
  nonce : CBNonce
  clock : CryptoKey → Nat → Time
  draw : Draws maxSentNodes
  stamps : Nat → Stamp
  pingTimes : Time × Time
  entryTime : Time
  entryClock : Nat → Time × Time
  lookupTime : Time

def headerSize : Nat := 1 + publicKeySize + nonceSize

def packetPubkey (data : Bytes) : CryptoKey :=
  ⟨fill publicKeySize (data.drop 1), fill_length ..⟩

def packetNonce (data : Bytes) : CBNonce :=
  ⟨fill nonceSize (data.drop (1 + publicKeySize)), fill_length ..⟩

variable (B : Box) (sha256 : Bytes → {b : Bytes // b.length = 32})

def sharedKey (n : UdpNode) (pubkey : CryptoKey) : CryptoKey := B.precompute pubkey n.selfSeckey

def openPacket (n : UdpNode) (data : Bytes) : Option Bytes :=
  if data.length < headerSize then none
  else (decryptDataSymmetric B (sharedKey B n (packetPubkey data)) (packetNonce data)
    (data.drop headerSize)).map Prod.fst

def createDhtPacket (n : UdpNode) (shrkey : CryptoKey) (ptype : UInt8) (nonce : CBNonce)
    (plain : Bytes) : Option Bytes :=
  (encryptDataSymmetric B shrkey nonce plain).map fun encrypted =>
    ptype :: n.dht.selfPubkey.val ++ nonce.val ++ encrypted

def readPingId (buf : Bytes) : UInt64 := if buf.length < 8 then 0 else uint64 buf

def handlePingRequest (n : UdpNode) (m : Moment) (data : Bytes) :
    Option (UdpNode × List Bytes) :=
  (openPacket B n data).bind fun plain =>
    if plain.length < 1 then none
    else if packetPubkey data = n.dht.selfPubkey then some (n, [])
    else (createDhtPacket B n (sharedKey B n (packetPubkey data)) netPacketPingResponse m.nonce
      (netPacketPingResponse :: putUint64 (readPingId plain.tail))).map fun pkt => (n, [pkt])

def handleGetNodes (n : UdpNode) (m : Moment) (data : Bytes) : Option (UdpNode × List Bytes) :=
  (openPacket B n data).bind fun plnpkt =>
    (newCryptoKey (plnpkt.take publicKeySize)).bind fun searchpk =>
      let sbdata := plnpkt.drop publicKeySize
      if plnpkt.length ≠ publicKeySize + 8 ∨ sbdata.length ≠ 8 then none
      else (sendnodesIpv6 n.dht (packetPubkey data) searchpk sbdata m.clock m.draw).bind fun
        | none => some (n, [])
        | some body =>
          (createDhtPacket B n (sharedKey B n (packetPubkey data)) netPacketSendNodesIpv6 m.nonce
            body).map fun pkt => (n, [pkt])

def stamped (m : Moment) (nodes : List (CloseNode UDPAddr)) : List (Received UDPAddr) :=
  nodes.zipIdx.map fun (node, i) =>
    let s := m.stamps i
    ⟨node.pubkey, node.addr, s.timestamp, s.lastPinged, s.retTimestamp, s.clock⟩

def handleSendNodesIpv6 (n : UdpNode) (m : Moment) (data : Bytes) :
    Option (UdpNode × List Bytes) :=
  (openPacket B n data).bind fun plain =>
    (parseSendNodes plain).bind fun (nodes, _) =>
      (handleSendNodes n.dht (stamped m nodes)).map fun dht => ({ n with dht := dht }, [])

def generatePingId (n : UdpNode) (t : Time) (pubkey : CryptoKey) (retaddr : UDPAddr) : Bytes :=
  let ts := (t / 1000000000).tdiv 20
  (sha256 (n.secBytes.val ++ putUint64 (UInt64.ofInt ts) ++ pubkey.val ++ retaddr.ip.bytes ++
    putUint16 retaddr.port)).val

def announceStatus (pktpk datpubkey : CryptoKey) (pingid2 : Bytes) :
    Option (Onion.AnnounceEntry UDPAddr) → Bytes
  | none => 0 :: pingid2
  | some inentry =>
    if inentry.pubkey = pktpk then
      if inentry.datPubkey ≠ datpubkey then 0 :: pingid2 else 2 :: pingid2
    else 1 :: inentry.datPubkey.val

def announceNonce (data : Bytes) : CBNonce := ⟨fill nonceSize (data.drop 1), fill_length ..⟩

def announcePubkey (data : Bytes) : CryptoKey :=
  ⟨fill publicKeySize (data.drop (1 + nonceSize)), fill_length ..⟩

def announceBoxSize : Nat :=
  pingIdSize + publicKeySize + publicKeySize + sendbackDataLength + macSize

def openAnnounce (n : UdpNode) (data : Bytes) : Option Bytes :=
  if data.length ≠ announceRequestSizeRecv then none
  else (decryptDataSymmetric B (sharedKey B n (announcePubkey data)) (announceNonce data)
    ((data.drop headerSize).take announceBoxSize)).map Prod.fst

def announceEntry (n : UdpNode) (m : Moment) (data pingid : Bytes)
    (searchpk datpubkey : CryptoKey) :
    Option (Onion.Announce UDPAddr × Option (Onion.AnnounceEntry UDPAddr)) :=
  let pktpk := announcePubkey data
  if generatePingId sha256 n m.pingTimes.1 pktpk m.source = pingid ∨
      generatePingId sha256 n (m.pingTimes.2 + 20 * 1000000000) pktpk m.source = pingid then
    n.announce.addToEntries m.entryTime m.entryClock m.lookupTime m.source pktpk datpubkey
      (data.drop (announceRequestSizeRecv - onionReturn3))
  else n.announce.findInEntries m.lookupTime searchpk

def answerAnnounce (n : UdpNode) (m : Moment) (data plnpkt : Bytes) :
    Option (UdpNode × List Bytes) :=
  let pktpk := announcePubkey data
  let retdat := data.drop (announceRequestSizeRecv - onionReturn3)
  let pingid2 := generatePingId sha256 n (m.pingTimes.2 + 20 * 1000000000) pktpk m.source
  if plnpkt.length < pingIdSize then none
  else
    (newCryptoKey ((plnpkt.drop pingIdSize).take publicKeySize)).bind fun searchpk =>
    (newCryptoKey ((plnpkt.drop (pingIdSize + publicKeySize)).take publicKeySize)).bind
      fun datpubkey =>
    (getCloseNodes n.dht searchpk m.clock m.draw).bind fun nodes =>
    (announceEntry sha256 n m data (plnpkt.take pingIdSize) searchpk datpubkey).bind fun r =>
    (encryptDataSymmetric B (sharedKey B n pktpk) m.nonce
      (announceStatus pktpk datpubkey pingid2 r.2 ++ nodes.flatMap packNode)).map fun encplpkt =>
        ({ n with announce := r.1 }, [netPacketOnionRecv3 :: retdat ++
          netPacketAnnounceResponse :: plnpkt.drop (pingIdSize + publicKeySize * 2) ++
          m.nonce.val ++ encplpkt])

def handleAnnounceRequest (n : UdpNode) (m : Moment) (data : Bytes) :
    Option (UdpNode × List Bytes) :=
  (openAnnounce B n data).bind fun plnpkt => answerAnnounce B sha256 n m data plnpkt

def doPoll (n : UdpNode) (m : Moment) (data : Bytes) : Option (UdpNode × List Bytes) :=
  if data.length < 1 then some (n, [])
  else match packetHandlers (data.headD 0) with
    | some .pingRequest => handlePingRequest B n m data
    | some .getNodes => handleGetNodes B n m data
    | some .sendNodesIpv6 => handleSendNodesIpv6 B n m data
    | some .announceRequest => handleAnnounceRequest B sha256 n m data
    | some .pingResponse => some (n, [])
    | some .crypto => some (n, [])
    | none => some (n, [])

section
variable {B : Box} {sha256 : Bytes → {b : Bytes // b.length = 32}} {n : UdpNode} {m : Moment}
  {data : Bytes}

structure Opens (B : Box) (n : UdpNode) (data plain : Bytes) : Prop where
  header : headerSize ≤ data.length
  opened : B.openBox (sharedKey B n (packetPubkey data)) (packetNonce data)
    (data.drop headerSize) = some plain
  size : plain.length + macSize = (data.drop headerSize).length

theorem decrypt_fst_iff {k : CryptoKey} {nonce : CBNonce} {encrypted : Bytes}
    (nonempty : plain ≠ []) :
    (decryptDataSymmetric B k nonce encrypted).map Prod.fst = some plain ↔
      B.openBox k nonce encrypted = some plain ∧ plain.length + macSize = encrypted.length := by
  unfold decryptDataSymmetric
  cases B.openBox k nonce encrypted with
  | none =>
    simp only [reduceCtorEq, false_and, iff_false]
    split_ifs
    · simpa using nonempty.symm
    · simp
  | some text =>
    simp only [Option.some.injEq]
    split_ifs with size
    · constructor
      · grind
      · rintro ⟨rfl, -⟩
        rfl
    · constructor
      · intro same
        cases same
      · grind

theorem openPacket_iff (nonempty : plain ≠ []) :
    openPacket B n data = some plain ↔ Opens B n data plain := by
  unfold openPacket
  by_cases short : data.length < headerSize
  · rw [if_pos short]
    exact iff_of_false (by simp) fun h => absurd h.header (not_le.mpr short)
  · rw [if_neg short, decrypt_fst_iff nonempty]
    exact ⟨fun h => ⟨not_lt.mp short, h.1, h.2⟩, fun h => ⟨h.opened, h.size⟩⟩

theorem openPacket_bind_isSome {α : Type*} {f : Bytes → Option α} (empty : f [] = none) :
    ((openPacket B n data).bind f).isSome ↔ ∃ plain, Opens B n data plain ∧ (f plain).isSome := by
  have nonempty : ∀ plain, (f plain).isSome → plain ≠ [] := by grind
  constructor
  · intro returns
    cases opened : openPacket B n data with
    | none => simp [opened] at returns
    | some plain =>
      rw [opened, Option.bind_some] at returns
      exact ⟨plain, (openPacket_iff (nonempty plain returns)).mp opened, returns⟩
  · rintro ⟨plain, opens, returns⟩
    rw [(openPacket_iff (nonempty plain returns)).mpr opens, Option.bind_some]
    exact returns

theorem createDhtPacket_isSome (law : B.Sealing) (n : UdpNode) (shrkey : CryptoKey)
    (ptype : UInt8) (nonce : CBNonce) (plain : Bytes) :
    (createDhtPacket B n shrkey ptype nonce plain).isSome := by
  simp only [createDhtPacket, encryptDataSymmetric, if_pos (law.seal_length shrkey nonce plain)]
  rfl

def entrySize (buf : Bytes) : Nat := 1 + ipSize (isIp6 (buf.headD 0)) + 2 + publicKeySize

def Fits : Nat → Bytes → Prop
  | 0, _ => True
  | n + 1, buf => entrySize buf ≤ buf.length ∧ Fits n (buf.drop (entrySize buf))

theorem newCryptoKey_isSome {b : Bytes} : (newCryptoKey b).isSome ↔ b.length = publicKeySize := by
  unfold newCryptoKey
  split_ifs with len
  · simp [len]
  · simp [len]

theorem readNode_isSome (buf : Bytes) : (readNode buf).isSome ↔ entrySize buf ≤ buf.length := by
  simp only [readNode, Option.isSome_map, newCryptoKey_isSome, List.length_take, List.length_drop,
    List.length_tail, entrySize]
  have size : publicKeySize = 32 := rfl
  omega

theorem readNode_rest {buf rest : Bytes} {node : CloseNode UDPAddr}
    (h : readNode buf = some (node, rest)) : rest = buf.drop (entrySize buf) := by
  obtain ⟨nodekey, -, pair⟩ := Option.map_eq_some_iff.mp h
  rw [← (Prod.mk.inj pair).2, List.drop_drop, List.drop_drop, List.drop_tail, entrySize]
  congr 1
  omega

theorem readNodes_isSome (k : Nat) (buf : Bytes) : (readNodes k buf).isSome ↔ Fits k buf := by
  induction k generalizing buf with
  | zero => exact iff_of_true rfl trivial
  | succ k ih =>
    rw [readNodes, Fits, ← readNode_isSome]
    cases read : readNode buf with
    | none => simp
    | some r => grind [readNode_rest, read]

theorem parseSendNodes_isSome (plain : Bytes) :
    (parseSendNodes plain).isSome ↔ 8 ≤ plain.length ∧ Fits (plain.headD 0).toNat plain.tail := by
  unfold parseSendNodes
  split_ifs with short
  · grind
  · grind [readNodes_isSome]

structure NodeOk (n : UdpNode) : Prop where
  sound : Sound n.dht
  alone : n.dht.friendsList.lst = []
  entries : n.announce.entries.Valid Onion.AnnounceEntry.pubkey

theorem NodeOk.getCloseNodes (ok : NodeOk n) (pubkey : CryptoKey)
    (clock : CryptoKey → Nat → Time) (draw : Draws maxSentNodes) :
    ∃ nodes, Dht.getCloseNodes n.dht pubkey clock draw = some nodes := by
  refine Option.isSome_iff_exists.mp ((getCloseNodes_returns_iff pubkey clock draw).mpr ?_)
  rintro ⟨p, hp, -⟩
  rw [ok.alone] at hp
  exact List.not_mem_nil hp

theorem handlePingRequest_returns_iff (law : B.Sealing) :
    (handlePingRequest B n m data).isSome ↔
      ∃ plain, Opens B n data plain ∧ 1 ≤ plain.length := by
  rw [handlePingRequest, openPacket_bind_isSome (by simp)]
  refine exists_congr fun plain => and_congr_right fun _ => ?_
  split_ifs with empty self
  · exact iff_of_false (by simp) (not_le.mpr empty)
  · exact iff_of_true rfl (not_lt.mp empty)
  · grind [createDhtPacket_isSome]

theorem handleGetNodes_returns_iff (law : B.Sealing) (ok : NodeOk n) :
    (handleGetNodes B n m data).isSome ↔
      ∃ plain, Opens B n data plain ∧ plain.length = publicKeySize + 8 := by
  rw [handleGetNodes, openPacket_bind_isSome (by simp [newCryptoKey, publicKeySize])]
  refine exists_congr fun plain => and_congr_right fun _ => ?_
  by_cases size : plain.length = publicKeySize + 8
  · have key : newCryptoKey (plain.take publicKeySize) =
        some ⟨plain.take publicKeySize, by rw [List.length_take, size]; rfl⟩ := by
      rw [newCryptoKey, dif_pos]
    obtain ⟨nodes, close⟩ := ok.getCloseNodes (packetPubkey data) m.clock m.draw
    rw [key, Option.bind_some, if_neg (by rw [List.length_drop, size]; decide), sendnodesIpv6,
      close, Option.map_some, Option.bind_some]
    refine iff_of_true ?_ size
    by_cases empty : nodes.length ≤ 0
    · rw [if_pos empty]
      rfl
    · grind [createDhtPacket_isSome]
  · refine iff_of_false ?_ size
    cases newCryptoKey (plain.take publicKeySize) with
    | none => simp
    | some searchpk => grind

theorem handleSendNodesIpv6_returns_iff (ok : NodeOk n) :
    (handleSendNodesIpv6 B n m data).isSome ↔ ∃ plain, Opens B n data plain ∧
      8 ≤ plain.length ∧ Fits (plain.headD 0).toNat plain.tail := by
  rw [handleSendNodesIpv6, openPacket_bind_isSome (by simp [parseSendNodes])]
  refine exists_congr fun plain => and_congr_right fun _ => ?_
  rw [← parseSendNodes_isSome]
  cases parseSendNodes plain with
  | none => simp
  | some r =>
    obtain ⟨nodes, id⟩ := r
    obtain ⟨d, run, -⟩ := ok.sound.handleSendNodes (stamped m nodes)
    simp [run]

structure OpensAnnounce (B : Box) (n : UdpNode) (data plain : Bytes) : Prop where
  size : data.length = announceRequestSizeRecv
  opened : B.openBox (sharedKey B n (announcePubkey data)) (announceNonce data)
    ((data.drop headerSize).take announceBoxSize) = some plain
  text : plain.length + macSize = announceBoxSize

theorem openAnnounce_iff : openAnnounce B n data = some plain ↔ OpensAnnounce B n data plain := by
  unfold openAnnounce
  by_cases size : data.length = announceRequestSizeRecv
  · have box : ((data.drop headerSize).take announceBoxSize).length = announceBoxSize := by
      rw [List.length_take, List.length_drop, size]
      rfl
    rw [if_neg (not_not.mpr size)]
    by_cases empty : plain = []
    · -- the assertion on the length refuses an empty plaintext
      refine iff_of_false ?_ fun h => absurd (empty ▸ h.text) (by decide)
      intro opened
      obtain ⟨r, decrypt, rfl⟩ := Option.map_eq_some_iff.mp opened
      unfold decryptDataSymmetric at decrypt
      simp only at decrypt
      split_ifs at decrypt with text
      cases decrypt
      rw [box, empty] at text
      exact absurd text (by decide)
    · rw [decrypt_fst_iff empty, box]
      exact ⟨fun h => ⟨size, h.1, h.2⟩, fun h => ⟨h.opened, h.text⟩⟩
  · rw [if_pos size]
    exact iff_of_false (by simp) fun h => size h.size

theorem findInEntries_returns {o : Onion.Announce UDPAddr}
    (valid : o.entries.Valid Onion.AnnounceEntry.pubkey) (now : Time) (searchpk : CryptoKey) :
    ∃ r, o.findInEntries now searchpk = some r ∧
      r.1.entries.Valid Onion.AnnounceEntry.pubkey := by
  obtain ⟨entries, find, same | ⟨item, ok, removes⟩⟩ :=
    Onion.Announce.findInEntries_spec valid now searchpk
  · exact ⟨_, find, same ▸ valid⟩
  · exact ⟨_, find, removes.valid valid⟩

theorem NodeOk.announceEntry (ok : NodeOk n) (sha256 : Bytes → {b : Bytes // b.length = 32})
    (m : Moment) (data pingid : Bytes) (searchpk datpubkey : CryptoKey) :
    ∃ r, Dht.announceEntry sha256 n m data pingid searchpk datpubkey = some r ∧
      r.1.entries.Valid Onion.AnnounceEntry.pubkey := by
  unfold Dht.announceEntry
  extract_lets pktpk
  split_ifs with announced
  · let entry := n.announce.newEntry m.entryTime m.source pktpk datpubkey
      (data.drop (announceRequestSizeRecv - onionReturn3))
    obtain ⟨entries, put, puts⟩ := put_spec ok.entries
      (fun i x => entry.compare x (m.entryClock i)) entry
    rw [Onion.Announce.addToEntries, put, Option.bind_some]
    exact findInEntries_returns (puts.valid ok.entries) m.lookupTime pktpk
  · exact findInEntries_returns ok.entries m.lookupTime searchpk

theorem newCryptoKey_slice {b : Bytes} {i : Nat} (len : i + publicKeySize ≤ b.length) :
    ∃ k, newCryptoKey ((b.drop i).take publicKeySize) = some k := by
  refine Option.isSome_iff_exists.mp (newCryptoKey_isSome.mpr ?_)
  rw [List.length_take, List.length_drop]
  omega

theorem NodeOk.answerAnnounce (law : B.Sealing) (ok : NodeOk n)
    (sha256 : Bytes → {b : Bytes // b.length = 32}) (m : Moment) (data : Bytes)
    (text : plain.length + macSize = announceBoxSize) :
    ∃ announce sent, Dht.answerAnnounce B sha256 n m data plain =
      some ({ n with announce := announce }, sent) ∧
      announce.entries.Valid Onion.AnnounceEntry.pubkey := by
  have len : plain.length = pingIdSize + publicKeySize + publicKeySize + 8 :=
    Nat.add_right_cancel text
  obtain ⟨searchpk, search⟩ := newCryptoKey_slice (b := plain) (i := pingIdSize) (by omega)
  obtain ⟨datpubkey, dat⟩ :=
    newCryptoKey_slice (b := plain) (i := pingIdSize + publicKeySize) (by omega)
  obtain ⟨nodes, close⟩ := ok.getCloseNodes searchpk m.clock m.draw
  obtain ⟨r, entry, valid⟩ :=
    ok.announceEntry sha256 m data (plain.take pingIdSize) searchpk datpubkey
  unfold Dht.answerAnnounce
  rw [if_neg (by omega), search, Option.bind_some, dat, Option.bind_some, close, Option.bind_some,
    entry, Option.bind_some, encryptDataSymmetric, if_pos (law.seal_length ..), Option.map_some]
  exact ⟨r.1, _, rfl, valid⟩

theorem handleAnnounceRequest_returns_iff (law : B.Sealing) (ok : NodeOk n) :
    (handleAnnounceRequest B sha256 n m data).isSome ↔ ∃ plain, OpensAnnounce B n data plain := by
  rw [handleAnnounceRequest]
  constructor
  · intro returns
    cases opened : openAnnounce B n data with
    | none => simp [opened] at returns
    | some plain => exact ⟨plain, openAnnounce_iff.mp opened⟩
  · rintro ⟨plain, opens⟩
    obtain ⟨announce, sent, answer, -⟩ :=
      ok.answerAnnounce law sha256 m data opens.text
    rw [openAnnounce_iff.mpr opens, Option.bind_some, answer]
    rfl

def Harmless (B : Box) (n : UdpNode) (data : Bytes) : Prop :=
  match packetHandlers (data.headD 0) with
  | some .pingRequest => ∃ plain, Opens B n data plain ∧ 1 ≤ plain.length
  | some .getNodes => ∃ plain, Opens B n data plain ∧ plain.length = publicKeySize + 8
  | some .sendNodesIpv6 => ∃ plain, Opens B n data plain ∧
      8 ≤ plain.length ∧ Fits (plain.headD 0).toNat plain.tail
  | some .announceRequest => ∃ plain, OpensAnnounce B n data plain
  | some .pingResponse | some .crypto | none => True

theorem doPoll_returns_iff (law : B.Sealing) (ok : NodeOk n) (size : 1 ≤ data.length) :
    (doPoll B sha256 n m data).isSome ↔ Harmless B n data := by
  rw [doPoll, if_neg (not_lt.mpr size), Harmless]
  cases packetHandlers (data.headD 0) with
  | none => exact iff_of_true rfl trivial
  | some handler =>
    cases handler with
    | pingRequest => exact handlePingRequest_returns_iff law
    | pingResponse => exact iff_of_true rfl trivial
    | getNodes => exact handleGetNodes_returns_iff law ok
    | sendNodesIpv6 => exact handleSendNodesIpv6_returns_iff ok
    | crypto => exact iff_of_true rfl trivial
    | announceRequest => exact handleAnnounceRequest_returns_iff law ok

theorem handlePingRequest_node (h : handlePingRequest B n m data = some r) : r.1 = n := by
  obtain ⟨plain, -, h⟩ := Option.bind_eq_some_iff.mp h
  split_ifs at h
  · exact Option.some.inj h ▸ rfl
  · obtain ⟨pkt, -, rfl⟩ := Option.map_eq_some_iff.mp h
    rfl

theorem handleGetNodes_node (h : handleGetNodes B n m data = some r) : r.1 = n := by
  obtain ⟨plain, -, h⟩ := Option.bind_eq_some_iff.mp h
  obtain ⟨searchpk, -, h⟩ := Option.bind_eq_some_iff.mp h
  extract_lets sbdata at h
  split_ifs at h
  obtain ⟨body, -, h⟩ := Option.bind_eq_some_iff.mp h
  cases body with
  | none => exact Option.some.inj h ▸ rfl
  | some body =>
    obtain ⟨pkt, -, rfl⟩ := Option.map_eq_some_iff.mp h
    rfl

theorem NodeOk.sendNodes (ok : NodeOk n) (h : handleSendNodesIpv6 B n m data = some r) :
    NodeOk r.1 := by
  obtain ⟨plain, -, h⟩ := Option.bind_eq_some_iff.mp h
  obtain ⟨⟨nodes, id⟩, -, h⟩ := Option.bind_eq_some_iff.mp h
  obtain ⟨dht, step, rfl⟩ := Option.map_eq_some_iff.mp h
  obtain ⟨dht', step', sound, same, -⟩ := ok.sound.handleSendNodes (stamped m nodes)
  obtain rfl := Option.some.inj (step.symm.trans step')
  exact ⟨sound, (congrArg PriorityList.lst same).trans ok.alone, ok.entries⟩

theorem NodeOk.announceRequest (law : B.Sealing) (ok : NodeOk n)
    (h : handleAnnounceRequest B sha256 n m data = some r) : NodeOk r.1 := by
  obtain ⟨plain, opened, h⟩ := Option.bind_eq_some_iff.mp h
  obtain ⟨announce, sent, answer, valid⟩ :=
    ok.answerAnnounce law sha256 m data (openAnnounce_iff.mp opened).text
  obtain rfl := Option.some.inj (answer.symm.trans h)
  exact ⟨ok.sound, ok.alone, valid⟩

theorem NodeOk.doPoll (law : B.Sealing) (ok : NodeOk n) (h : doPoll B sha256 n m data = some r) :
    NodeOk r.1 := by
  unfold Dht.doPoll at h
  split_ifs at h
  · exact Option.some.inj h ▸ ok
  · split at h
    · exact handlePingRequest_node h ▸ ok
    · exact handleGetNodes_node h ▸ ok
    · exact ok.sendNodes h
    · exact ok.announceRequest law h
    · exact Option.some.inj h ▸ ok
    · exact Option.some.inj h ▸ ok
    · exact Option.some.inj h ▸ ok

end

def newUdpNode (selfPubkey selfSeckey secBytes : CryptoKey) : UdpNode where
  selfSeckey := selfSeckey
  secBytes := secBytes
  dht := newDHT selfPubkey
  announce := .newOnionAnnounce selfPubkey

theorem NodeOk.new (selfPubkey selfSeckey secBytes : CryptoKey) :
    NodeOk (newUdpNode selfPubkey selfSeckey secBytes) :=
  ⟨Sound.new selfPubkey, rfl, valid_new _⟩

def receive (n : UdpNode) (d : Moment × Bytes) : Option UdpNode :=
  (doPoll B sha256 n d.1 d.2).map Prod.fst

/-- Whatever a node received before, the next datagram leaves it running exactly when it is
of a type without work or has a box of the expected size that opens. -/
theorem datagram_survived_iff (law : B.Sealing) (selfPubkey selfSeckey secBytes : CryptoKey)
    (before : List (Moment × Bytes)) (n : UdpNode)
    (run : exec (receive B sha256) (newUdpNode selfPubkey selfSeckey secBytes) before = some n)
    (m : Moment) (data : Bytes) (size : 1 ≤ data.length) :
    (doPoll B sha256 n m data).isSome ↔ Harmless B n data := by
  refine doPoll_returns_iff law ?_ size
  refine exec_invariant (P := NodeOk) ?_ (NodeOk.new selfPubkey selfSeckey secBytes) run
  intro n d n' ok step
  obtain ⟨r, poll, rfl⟩ := Option.map_eq_some_iff.mp step
  exact ok.doPoll law poll

def firstMoment : Moment where
  source := ipv4Node.addr
  nonce := nonceOf 7
  clock := fun _ _ => 0
  draw := fun x => ⟨0, Nat.lt_add_left x (Nat.succ_pos _)⟩
  stamps := fun _ => ⟨0, 0, 0, fun _ => 0⟩
  pingTimes := (0, 0)
  entryTime := 0
  entryClock := fun _ => (0, 0)
  lookupTime := 0

def anyHash (_ : Bytes) : {b : Bytes // b.length = 32} := ⟨List.replicate 32 0, by decide⟩

def newNode : UdpNode := newUdpNode (keyOf 1) (keyOf 1) (keyOf 2)

def getNodesPacket : Bytes :=
  0x02 :: (keyOf 3).val ++ (nonceOf 5).val ++
    plainBox.sealBox (plainBox.precompute (keyOf 3) (keyOf 1)) (nonceOf 5)
      ((keyOf 4).val ++ putUint64 9)

theorem get_nodes_survived :
    (doPoll plainBox anyHash newNode firstMoment getNodesPacket).isSome := by
  refine (datagram_survived_iff plainBox anyHash plainBox_lawful.sealing (keyOf 1) (keyOf 1)
    (keyOf 2) [] newNode rfl firstMoment getNodesPacket (by decide)).mpr ?_
  refine ⟨(keyOf 4).val ++ putUint64 9, ⟨?_, ?_, ?_⟩, ?_⟩
  · decide +kernel
  · decide +kernel
  · decide +kernel
  · decide +kernel

/-- One byte is enough, and so is a box of zeros. -/
theorem one_byte_stops_node :
    (doPoll plainBox anyHash newNode firstMoment [0x00]).isNone ∧
    (doPoll plainBox anyHash newNode firstMoment [0x02]).isNone ∧
    (doPoll plainBox anyHash newNode firstMoment [0x04]).isNone ∧
    (doPoll plainBox anyHash newNode firstMoment [0x83]).isNone ∧
    (doPoll plainBox anyHash newNode firstMoment (0x02 :: List.replicate 72 0)).isNone := by
  decide +kernel

end Dht
