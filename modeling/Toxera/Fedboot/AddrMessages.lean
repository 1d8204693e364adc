import Toxera.Fedboot.BitcoinBs
import Toxera.Lib.AddrTexts

/-!
# Reading addr messages

`parseAddrMsg` and `btcReadVarInt` of `fedboot/bitcoin_bs.go`.
-/

namespace Fedboot

open AddrTexts BaseEncoding Fedkey Radix

def btcReadVarInt : Bytes → Option (Nat × Bytes)
  | [] => none
  | b :: r =>
    if b = 0xFD then readNumber 2 r
    else if b = 0xFE then readNumber 4 r
    else if b = 0xFF then readNumber 8 r
    else some (b.toNat, r)

def bigEndian16 (b : Bytes) : Nat := ofLittleEndian b.reverse

def recordText (buf : Bytes) : Bytes :=
  addrText (slice buf 8 24) (bigEndian16 (slice buf 24 26))

/-- The loop of `parseAddrMsg` with the records still announced, the reader and `addrs`. -/
def parseAddrLoop : Nat → Bytes → List Bytes → List Bytes
  | 0, _, addrs => addrs
  | count + 1, r, addrs =>
    match readFull 30 r with
    | none => addrs
    | some (buf, r) =>
      let addrs := addrs ++ [recordText buf]
      if 1000 ≤ addrs.length then addrs else parseAddrLoop count r addrs

def parseAddrMsg (payload : Bytes) : List Bytes :=
  match btcReadVarInt payload with
  | none => []
  | some (count, r) => if count = 0 then [] else parseAddrLoop count r []

structure AddrRecord where
  time : UInt32
  services : UInt64
  ip : Bytes
  port : UInt16
  ip_length : ip.length = 16

variable {records : List AddrRecord}

namespace AddrRecord

def serviceBytes (a : AddrRecord) : Bytes := littleEndian 8 a.services.toNat

def portBytes (a : AddrRecord) : Bytes := (littleEndian 2 a.port.toNat).reverse

def encode (a : AddrRecord) : Bytes :=
  littleEndian 4 a.time.toNat ++ (a.serviceBytes ++ (a.ip ++ a.portBytes))

def text (a : AddrRecord) : Bytes := addrText a.ip a.port.toNat

def Aligned (a : AddrRecord) : Prop :=
  a.serviceBytes.drop 4 ++ a.ip.take 12 = a.ip ∧ slice a.ip 12 14 = a.portBytes

instance (a : AddrRecord) : Decidable a.Aligned := inferInstanceAs (Decidable (_ ∧ _))

end AddrRecord

def btcWriteVarInt (n : Nat) : Bytes :=
  if n < 0xFD then [UInt8.ofNat n]
  else if n ≤ 0xFFFF then 0xFD :: littleEndian 2 n
  else if n ≤ 0xFFFFFFFF then 0xFE :: littleEndian 4 n
  else 0xFF :: littleEndian 8 n

def encodeAddrs (records : List AddrRecord) : Bytes :=
  btcWriteVarInt records.length ++ records.flatMap AddrRecord.encode

/-- The records to be returned for the first bytes of a message: those that are whole, and
1000 at most. -/
def contained (records : List AddrRecord) (n : Nat) : List AddrRecord :=
  (records.take ((n - (btcWriteVarInt records.length).length) / 30)).take 1000

theorem readNumber_short {width : Nat} {r : Bytes} (short : r.length < width) :
    readNumber width r = none := by
  rw [readNumber, readFull, if_neg (Nat.not_le.mpr short)]
  rfl

theorem btcReadVarInt_write {n : Nat} (fits : n < 2 ^ 64) :
    (∀ r, btcReadVarInt (btcWriteVarInt n ++ r) = some (n, r)) ∧
    ∀ m < (btcWriteVarInt n).length, btcReadVarInt ((btcWriteVarInt n).take m) = none := by
  have cut : ∀ (b : UInt8) (width m : Nat), m < (b :: littleEndian width n).length →
      (∀ r, btcReadVarInt (b :: r) = readNumber width r) →
      btcReadVarInt ((b :: littleEndian width n).take m) = none := by
    intro b width m lt form
    cases m with
    | zero => rfl
    | succ m => grind [littleEndian_length, readNumber_short]
  rw [btcWriteVarInt]
  split_ifs with one two four
  · have byte : (UInt8.ofNat n).toNat = n := UInt8.toNat_ofNat_of_lt' (Nat.lt_trans one (by decide))
    have plain : ∀ b : UInt8, 0xFD ≤ b.toNat → UInt8.ofNat n ≠ b := by
      rintro b high rfl
      omega
    refine ⟨fun r => ?_, fun m lt => ?_⟩
    · simp [btcReadVarInt, plain 0xFD (by decide), plain 0xFE (by decide), plain 0xFF (by decide),
        byte]
    · obtain rfl : m = 0 := by simpa using lt
      rfl
  · exact ⟨fun r => readNumber_append (show n < 256 ^ 2 by omega) r,
      fun m lt => cut 0xFD 2 m lt fun _ => rfl⟩
  · exact ⟨fun r => readNumber_append (show n < 256 ^ 4 by omega) r,
      fun m lt => cut 0xFE 4 m lt fun _ => rfl⟩
  · exact ⟨fun r => readNumber_append (show n < 256 ^ 8 by omega) r,
      fun m lt => cut 0xFF 8 m lt fun _ => rfl⟩

namespace AddrRecord
variable (a : AddrRecord)

theorem serviceBytes_length : a.serviceBytes.length = 8 := littleEndian_length 8 _

theorem portBytes_length : a.portBytes.length = 2 := by
  rw [portBytes, List.length_reverse, littleEndian_length]

theorem encode_length : a.encode.length = 30 := by
  simp only [encode, List.length_append, littleEndian_length, serviceBytes_length, a.ip_length,
    portBytes_length]

theorem bigEndian16_portBytes : bigEndian16 a.portBytes = a.port.toNat := by
  rw [bigEndian16, portBytes, List.reverse_reverse]
  exact ofLittleEndian_littleEndian a.port.toNat_lt

theorem encode_cut : a.encode =
    (littleEndian 4 a.time.toNat ++ a.serviceBytes.take 4) ++
      ((a.serviceBytes.drop 4 ++ a.ip.take 12) ++ (slice a.ip 12 14 ++
        (a.ip.drop 14 ++ a.portBytes))) := by
  have services := List.take_append_drop 4 a.serviceBytes
  have ip : a.ip.take 12 ++ (slice a.ip 12 14 ++ a.ip.drop 14) = a.ip := by
    have middle := List.take_append_drop 2 (a.ip.drop 12)
    rw [List.drop_drop] at middle
    rw [slice, middle, List.take_append_drop]
  calc a.encode
      = littleEndian 4 a.time.toNat ++ ((a.serviceBytes.take 4 ++ a.serviceBytes.drop 4) ++
          ((a.ip.take 12 ++ (slice a.ip 12 14 ++ a.ip.drop 14)) ++ a.portBytes)) := by
        rw [services, ip, encode]
    _ = _ := by simp only [List.append_assoc]

theorem recordText_encode : recordText a.encode =
    addrText (a.serviceBytes.drop 4 ++ a.ip.take 12) (bigEndian16 (slice a.ip 12 14)) := by
  have services := a.serviceBytes_length
  have ip := a.ip_length
  have front : (littleEndian 4 a.time.toNat ++ a.serviceBytes.take 4).length = 8 := by
    grind [littleEndian_length]
  have address : (a.serviceBytes.drop 4 ++ a.ip.take 12).length = 16 := by grind
  have port : (slice a.ip 12 14).length = 2 := by
    rw [slice, List.length_take, List.length_drop, ip]
    rfl
  rw [recordText, encode_cut, slice_append front address, ← List.append_assoc,
    slice_append (by rw [List.length_append, front, address]) port]

theorem recordText_encode_iff : recordText a.encode = a.text ↔ a.Aligned := by
  have services := a.serviceBytes_length
  have ip := a.ip_length
  have address : (a.serviceBytes.drop 4 ++ a.ip.take 12).length = 16 := by grind
  have ports : (slice a.ip 12 14).length = a.portBytes.length := by
    rw [portBytes_length, slice, List.length_take, List.length_drop, ip]
    rfl
  rw [recordText_encode, text, ← bigEndian16_portBytes]
  constructor
  · intro same
    obtain ⟨sameIp, samePort⟩ := addrText_inj address ip same
    have reversed : (slice a.ip 12 14).reverse.length = a.portBytes.reverse.length := by grind
    exact ⟨sameIp, List.reverse_injective (ofLittleEndian_inj reversed samePort)⟩
  · rintro ⟨sameIp, samePort⟩
    rw [sameIp, samePort]

end AddrRecord

theorem take_flatMap_encode (records : List AddrRecord) (m : Nat) : ∃ part : Bytes,
    part.length < 30 ∧ (records.flatMap AddrRecord.encode).take m =
      (records.take (m / 30)).flatMap AddrRecord.encode ++ part := by
  induction records generalizing m with
  | nil => exact ⟨[], by simp⟩
  | cons a records ih =>
    have len := a.encode_length
    by_cases short : m < 30
    · refine ⟨a.encode.take m, by rw [List.length_take]; omega, ?_⟩
      rw [List.flatMap_cons, List.take_append_of_le_length (by omega), Nat.div_eq_of_lt short]
      rfl
    · obtain ⟨m, rfl⟩ : ∃ rest, m = a.encode.length + rest := ⟨m - 30, by omega⟩
      obtain ⟨part, small, rest⟩ := ih m
      have next : (a.encode.length + m) / 30 = m / 30 + 1 := by omega
      refine ⟨part, small, ?_⟩
      rw [List.flatMap_cons, List.take_length_add_append, rest, next, List.take_succ_cons,
        List.flatMap_cons, List.append_assoc]

theorem parseAddrLoop_records {part : Bytes} {count : Nat} {addrs : List Bytes}
    (announced : records.length ≤ count) (small : part.length < 30) (room : addrs.length < 1000) :
    parseAddrLoop count (records.flatMap AddrRecord.encode ++ part) addrs =
      addrs ++ (records.take (1000 - addrs.length)).map fun a => recordText a.encode := by
  induction records generalizing count addrs with
  | nil =>
    have none_ : readFull 30 part = none := if_neg (by omega)
    cases count with
    | zero => simp [parseAddrLoop]
    | succ count => simp [parseAddrLoop, none_]
  | cons a records ih =>
    obtain ⟨count, rfl⟩ : ∃ c, count = c + 1 := ⟨count - 1, by simp at announced; omega⟩
    have first : readFull 30 ((a :: records).flatMap AddrRecord.encode ++ part) =
        some (a.encode, records.flatMap AddrRecord.encode ++ part) := by
      rw [List.flatMap_cons, List.append_assoc, readFull_append a.encode_length]
    have left : 1000 - addrs.length = 1000 - (addrs.length + 1) + 1 := by omega
    have grown : (addrs ++ [recordText a.encode]).length = addrs.length + 1 := by simp
    simp only [parseAddrLoop, first]
    rw [left, List.take_succ_cons, List.map_cons, grown]
    split_ifs with full
    · rw [show 1000 - (addrs.length + 1) = 0 by omega]
      rfl
    · grind

theorem parseAddrMsg_take (fits : records.length < 2 ^ 64) (n : Nat) :
    parseAddrMsg ((encodeAddrs records).take n) =
      (contained records n).map fun a => recordText a.encode := by
  obtain ⟨whole, cut⟩ := btcReadVarInt_write fits
  rw [contained, encodeAddrs]
  by_cases short : n < (btcWriteVarInt records.length).length
  · rw [List.take_append_of_le_length (by omega), parseAddrMsg, cut n short,
      Nat.sub_eq_zero_of_le (by omega)]
    rfl
  · obtain ⟨m, rfl⟩ : ∃ m, n = (btcWriteVarInt records.length).length + m :=
      ⟨n - (btcWriteVarInt records.length).length, by omega⟩
    obtain ⟨part, small, bytes⟩ := take_flatMap_encode records m
    have announced : (records.take (m / 30)).length ≤ records.length := by
      rw [List.length_take]
      omega
    have room : ([] : List Bytes).length < 1000 := by decide
    rw [List.take_length_add_append, bytes, parseAddrMsg, whole, Nat.add_sub_cancel_left]
    simp only []
    split_ifs with none_
    · rw [List.eq_nil_of_length_eq_zero none_]
      simp
    · rw [parseAddrLoop_records announced small room]
      rfl

/-- An addr message, or what has arrived of it, is read as the records in it exactly if
each of these is the same four bytes before its place. -/
theorem parseAddrMsg_eq_iff {records : List AddrRecord} (fits : records.length < 2 ^ 64)
    (n : Nat) :
    parseAddrMsg ((encodeAddrs records).take n) = (contained records n).map AddrRecord.text ↔
      ∀ a ∈ contained records n, a.Aligned := by
  rw [parseAddrMsg_take fits, List.map_inj_left]
  exact forall₂_congr fun a _ => a.recordText_encode_iff

def repeatedIp : Bytes := (List.replicate 4 [1, 2, 3, 4]).flatten

theorem repeatedIp_length : repeatedIp.length = 16 := rfl

def repeatedNode : AddrRecord :=
  ⟨1700000000, 0x0403020100000000, repeatedIp, 0x0102, repeatedIp_length⟩

theorem repeated_node_read :
    [repeatedNode].length < 2 ^ 64 ∧
    parseAddrMsg ((encodeAddrs [repeatedNode]).take 31) =
      (contained [repeatedNode] 31).map AddrRecord.text :=
  ⟨by decide, (parseAddrMsg_eq_iff (by decide) 31).mpr (by decide)⟩

theorem nodeIp_length : (to16 [10, 0, 0, 1]).length = 16 := rfl

def node : AddrRecord := ⟨1700000000, 1, to16 [10, 0, 0, 1], 8333, nodeIp_length⟩

/-- The message with the node 10.0.0.1:8333 is read as one with [::ffff]:2560. -/
theorem node_misread :
    (contained [node] 31).map AddrRecord.text = [ascii "10.0.0.1:8333"] ∧
    (encodeAddrs [node]).take 31 = encodeAddrs [node] ∧
    parseAddrMsg (encodeAddrs [node]) = [ascii "[::ffff]:2560"] := by
  decide +kernel

end Fedboot
