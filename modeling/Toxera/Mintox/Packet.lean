import Toxera.Mintox.CryptoCore

/-!
# Packets on the wire

`CreatePacket`, `Unpacket` and `WritePacket` have the same text for the client and for a
connection of the server.
-/

namespace Packet

open CryptoCore

def putUint16 (n : UInt16) : Bytes := [UInt8.ofNat (n.toNat / 256), UInt8.ofNat (n.toNat % 256)]

def uint16 : Bytes → UInt16
  | hi :: lo :: _ => UInt16.ofNat (hi.toNat * 256 + lo.toNat)
  | _ => 0

@[simp] theorem putUint16_length (n : UInt16) : (putUint16 n).length = 2 := rfl

@[simp] theorem uint16_putUint16 (n : UInt16) (rest : Bytes) :
    uint16 (putUint16 n ++ rest) = n := by
  have hn := n.toNat_lt
  apply UInt16.toNat_inj.mp
  simp only [putUint16, uint16, List.cons_append, UInt8.toNat_ofNat', UInt16.toNat_ofNat']
  omega

theorem putUint16_uint16 (hi lo : UInt8) (rest : Bytes) :
    putUint16 (uint16 (hi :: lo :: rest)) = [hi, lo] := by
  have h1 := hi.toNat_lt
  have h2 := lo.toNat_lt
  have hn : (uint16 (hi :: lo :: rest)).toNat = hi.toNat * 256 + lo.toNat := by
    rw [uint16, UInt16.toNat_ofNat']
    omega
  have hhi : UInt8.ofNat ((hi.toNat * 256 + lo.toNat) / 256) = hi := by
    rw [show (hi.toNat * 256 + lo.toNat) / 256 = hi.toNat by omega, UInt8.ofNat_toNat]
  have hlo : UInt8.ofNat ((hi.toNat * 256 + lo.toNat) % 256) = lo := by
    rw [show (hi.toNat * 256 + lo.toNat) % 256 = lo.toNat by omega, UInt8.ofNat_toNat]
  rw [putUint16, hn, hhi, hlo]

def putUint64 (n : UInt64) : Bytes :=
  (List.range 8).map fun i => UInt8.ofNat (n.toNat / 256 ^ (7 - i) % 256)

@[simp] theorem putUint64_length (n : UInt64) : (putUint64 n).length = 8 := rfl

theorem beVal_putUint64 (n : UInt64) : beVal (putUint64 n) = n.toNat :=
  (beVal_digits n.toNat 8).trans (Nat.mod_eq_of_lt n.toNat_lt)

def pingPacket (rand : UInt64) : Bytes := 4 :: putUint64 (if rand = 0 then 1 else rand)

variable (B : Box)

def createPacket (shrkey : CryptoKey) (sentNonce : CBNonce) (plain : Bytes) : Option Bytes :=
  (encryptDataSymmetric B shrkey sentNonce plain).map fun encdat =>
    putUint16 (UInt16.ofNat encdat.length) ++ encdat

def unpacket (shrkey : CryptoKey) (recvNonce : CBNonce) (encpkt : Bytes) :
    Option (Bytes × CBNonce) :=
  if encpkt.length < 2 then none
  else (decryptDataSymmetric B shrkey recvNonce (encpkt.drop 2)).map fun r =>
    (r.1, incr recvNonce)

def writePacket (shrkey : CryptoKey) (sentNonce : CBNonce) (data : Bytes) :
    Option (Bytes × CBNonce) :=
  (createPacket B shrkey sentNonce data).map fun encpkt => (encpkt, incr sentNonce)

def writePackets (shrkey : CryptoKey) : CBNonce → List Bytes → Option (Bytes × CBNonce)
  | sentNonce, [] => some ([], sentNonce)
  | sentNonce, data :: rest =>
    (writePacket B shrkey sentNonce data).bind fun w =>
      (writePackets shrkey w.2 rest).map fun r => (w.1 ++ r.1, r.2)

def unpackets (shrkey : CryptoKey) : CBNonce → List Bytes → Option (List Bytes × CBNonce)
  | recvNonce, [] => some ([], recvNonce)
  | recvNonce, encpkt :: rest =>
    (unpacket B shrkey recvNonce encpkt).bind fun r =>
      (unpackets shrkey r.2 rest).map fun r' => (r.1 :: r'.1, r'.2)

variable {B}

def frame (body : Bytes) : Bytes := putUint16 (UInt16.ofNat body.length) ++ body

theorem createPacket_lawful (law : B.Lawful) (k : CryptoKey) (n : CBNonce) (m : Bytes) :
    createPacket B k n m = some (frame (B.sealBox k n m)) := by
  simp [createPacket, encrypt_lawful law, frame]

theorem unpacket_lawful (law : B.Lawful) (k : CryptoKey) (n : CBNonce) (m : Bytes)
    (header : UInt16) :
    unpacket B k n (putUint16 header ++ B.sealBox k n m) = some (m, incr n) := by
  simp [unpacket, putUint16, decrypt_lawful law]

end Packet
