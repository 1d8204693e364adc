import Toxera.Lib.Pieces
import Toxera.GoTox.Handshake
import Toxera.Mintox.Packet

/-!
# Packets of go-tox-tcpclient

`encodePacket`, `decodePacket` and the packet reader of `go-tox-tcpclient/packet.go` with
the nonce increment of `crypto.go`.
-/

namespace GoTox

open CryptoCore Packet

variable {n : Nat} {rest : Bytes}

def maxPacketSize : Nat := 2048

def incrNonceLoop : Bytes → Bytes
  | [] => []
  | b :: rest => if b + 1 ≠ 0 then (b + 1) :: rest else (b + 1) :: incrNonceLoop rest

theorem incrLoop_zero (b : Bytes) : incrLoop 0 b = b := by
  induction b with
  | nil => rfl
  | cons x rest ih =>
    have carry : (0 + x.toUInt16) >>> 8 = 0 := by
      apply UInt16.toNat_inj.mp
      rw [UInt16.zero_add, UInt16.toNat_shiftRight, UInt8.toNat_toUInt16]
      have := x.toNat_lt
      simp [Nat.shiftRight_eq_div_pow]
      omega
    simp only [incrLoop, carry, ih]
    simp

theorem incrNonceLoop_eq (b : Bytes) : incrNonceLoop b = incrLoop 1 b := by
  induction b with
  | nil => rfl
  | cons x rest ih =>
    have hx := x.toNat_lt
    have byte : (1 + x.toUInt16).toUInt8 = x + 1 := by
      apply UInt8.toNat_inj.mp
      simp [UInt8.toNat_add]
      omega
    have carry : ((1 + x.toUInt16) >>> 8).toNat = (1 + x.toNat) / 256 := by
      rw [UInt16.toNat_shiftRight, UInt16.toNat_add, UInt8.toNat_toUInt16]
      simp [Nat.shiftRight_eq_div_pow]
      omega
    have wraps : x + 1 = 0 ↔ x.toNat = 255 := by
      rw [← UInt8.toNat_inj, UInt8.toNat_add]
      simp
      omega
    simp only [incrNonceLoop, incrLoop, byte]
    split_ifs with stays
    · have : (1 + x.toUInt16) >>> 8 = 0 := by
        apply UInt16.toNat_inj.mp
        rw [carry, UInt16.toNat_zero]
        have : x.toNat ≠ 255 := fun h => stays (wraps.mpr h)
        omega
      rw [this, incrLoop_zero]
    · have : (1 + x.toUInt16) >>> 8 = 1 := by
        apply UInt16.toNat_inj.mp
        rw [carry, UInt16.toNat_one, wraps.mp (not_not.mp stays)]
      rw [this, ih]

def incrNonce (nonce : CBNonce) : CBNonce :=
  ⟨(incrNonceLoop nonce.val.reverse).reverse, by
    rw [incrNonceLoop_eq, List.length_reverse, incrLoop_length, List.length_reverse,
      nonce.property]⟩

theorem incrNonce_eq_incr (nonce : CBNonce) : incrNonce nonce = incr nonce := by
  apply Subtype.ext
  simp only [incrNonce, incr, incr2le, incrNonceLoop_eq]

variable (B : Box)

def encodePacket (shrkey : CryptoKey) (nonce : CBNonce) (plain : Bytes) :
    Except String (Bytes × CBNonce) :=
  if plain.length > maxPacketSize then .error "packet too large"
  else
    let cipher := B.sealBox shrkey nonce plain
    let pkt := copyAt (zeros (2 + cipher.length)) 0 (putUint16 (UInt16.ofNat cipher.length))
    .ok (copyAt pkt 2 cipher, incrNonce nonce)

def decodePacket (shrkey : CryptoKey) (nonce : CBNonce) (cipher : Bytes) :
    Except String (Bytes × CBNonce) :=
  if cipher.length < macSize then .error "ciphertext too short"
  else match B.openBox shrkey nonce cipher with
    | none => .error "decryption failed"
    | some plain => .ok (plain, incrNonce nonce)

variable {B}

theorem encodePacket_eq (shrkey : CryptoKey) (nonce : CBNonce) (plain : Bytes) :
    encodePacket B shrkey nonce plain =
      if plain.length > maxPacketSize then .error "packet too large"
      else .ok (frame (B.sealBox shrkey nonce plain), incr nonce) := by
  unfold encodePacket
  simp only [incrNonce_eq_incr]
  generalize B.sealBox shrkey nonce plain = cipher
  have header := copyAt_zeros [] (putUint16 (UInt16.ofNat cipher.length)) (2 + cipher.length)
    (by rw [putUint16_length]; omega)
  have body := copyAt_zeros (putUint16 (UInt16.ofNat cipher.length)) cipher cipher.length le_rfl
  rw [putUint16_length, Nat.sub_self] at body
  rw [List.nil_append, List.nil_append, List.length_nil, putUint16_length,
    Nat.add_sub_cancel_left] at header
  rw [header, body]
  simp [frame, zeros]

theorem decodePacket_seal (sealing : B.Sealing) (shrkey : CryptoKey) (nonce : CBNonce)
    (plain : Bytes) :
    decodePacket B shrkey nonce (B.sealBox shrkey nonce plain) = .ok (plain, incr nonce) := by
  have long : ¬ (B.sealBox shrkey nonce plain).length < macSize := by
    rw [sealing.seal_length, CryptoCore.macSize, macSize]
    omega
  rw [decodePacket, if_neg long, sealing.open_seal, incrNonce_eq_incr]

def ioError : Pieces.ReadError → String
  | .eof => "EOF"
  | .unexpectedEof => "unexpected EOF"

structure PacketReader where
  r : List Bytes
  buf : Bytes
  size : buf.length = maxPacketSize + 2

variable {pr : PacketReader}

def newPacketReader (r : List Bytes) : PacketReader :=
  ⟨r, zeros (maxPacketSize + 2), List.length_replicate⟩

def PacketReader.readFull (pr : PacketReader) (n : Nat) :
    PacketReader × Option Pieces.ReadError :=
  let (got, r, err) := Pieces.readFull pr.r n
  (⟨r, copyAt pr.buf 0 got, (copyAt_length _ (Nat.zero_le _) _).trans pr.size⟩, err)

def PacketReader.readPacket (pr : PacketReader) : PacketReader × Except String Bytes :=
  match pr.readFull 2 with
  | (pr, some err) => (pr, .error (ioError err))
  | (pr, none) =>
    let encLen := (uint16 (pr.buf.take 2)).toNat
    if encLen > maxPacketSize then (pr, .error "packet too large")
    else match pr.readFull encLen with
      | (pr, some err) => (pr, .error (ioError err))
      | (pr, none) => (pr, .ok (pr.buf.take encLen))

theorem PacketReader.readFull_ok (fits : n ≤ maxPacketSize + 2) (enough : n ≤ pr.r.flatten.length) :
    ∃ pr', pr.readFull n = (pr', none) ∧ pr'.r.flatten = pr.r.flatten.drop n ∧
      pr'.buf.take n = pr.r.flatten.take n := by
  obtain ⟨rest, full, left⟩ := Pieces.readFull_ok enough
  simp only [PacketReader.readFull, full]
  refine ⟨_, rfl, left, ?_⟩
  have got : (pr.r.flatten.take n).length = n := by
    rw [List.length_take]
    omega
  have room : (pr.r.flatten.take n).length ≤ pr.buf.length := by
    rw [got, pr.size]
    exact fits
  have front := copyAt_front room
  rwa [got] at front

theorem PacketReader.readFull_eof (ended : pr.r.flatten = []) (asks : 0 < n) :
    ∃ pr', pr.readFull n = (pr', some .eof) ∧ pr'.r.flatten = [] := by
  obtain ⟨rest, full, left⟩ := Pieces.readFull_eof ended asks
  simp only [PacketReader.readFull, full]
  exact ⟨_, rfl, left⟩

theorem PacketReader.readPacket_frame {cipher : Bytes} (small : cipher.length < 65536)
    (stream : pr.r.flatten = frame cipher ++ rest) :
    ∃ pr', (cipher.length ≤ maxPacketSize ∧ pr.readPacket = (pr', .ok cipher) ∧
        pr'.r.flatten = rest) ∨
      maxPacketSize < cipher.length ∧ pr.readPacket = (pr', .error "packet too large") := by
  rw [frame, List.append_assoc] at stream
  obtain ⟨pr₁, first, left, header⟩ := pr.readFull_ok (n := 2) (by decide)
    (by rw [stream, List.length_append, putUint16_length]; omega)
  rw [stream, List.take_left' (putUint16_length _)] at header
  rw [stream, List.drop_left' (putUint16_length _)] at left
  have encLen : (uint16 (pr₁.buf.take 2)).toNat = cipher.length := by
    have := uint16_putUint16 (UInt16.ofNat cipher.length) []
    rw [List.append_nil] at this
    rw [header, this, UInt16.toNat_ofNat']
    omega
  by_cases fits : cipher.length ≤ maxPacketSize
  · obtain ⟨pr₂, second, left', body⟩ := pr₁.readFull_ok (n := cipher.length) (by omega)
      (by rw [left, List.length_append]; omega)
    rw [left, List.take_left' rfl] at body
    rw [left, List.drop_left' rfl] at left'
    refine ⟨pr₂, Or.inl ⟨fits, ?_, left'⟩⟩
    simp only [PacketReader.readPacket, first, encLen, if_neg (Nat.not_lt.mpr fits), second, body]
  · grind [PacketReader.readPacket]

theorem PacketReader.readPacket_eof (ended : pr.r.flatten = []) :
    ∃ pr', pr.readPacket = (pr', .error "EOF") := by
  obtain ⟨pr', eof, -⟩ := pr.readFull_eof ended (n := 2) (by decide)
  exact ⟨pr', by simp only [PacketReader.readPacket, eof, ioError]⟩

theorem encoded_packet_read (sealing : B.Sealing) {shrkey : CryptoKey} {nonce nonce' : CBNonce}
    {plain pkt : Bytes} (accepted : encodePacket B shrkey nonce plain = .ok (pkt, nonce'))
    (stream : pr.r.flatten = pkt ++ rest) :
    nonce' = incr nonce ∧ ∃ pr', (plain.length + macSize ≤ maxPacketSize ∧
        pr.readPacket = (pr', .ok (B.sealBox shrkey nonce plain)) ∧ pr'.r.flatten = rest) ∨
      maxPacketSize < plain.length + macSize ∧
        pr.readPacket = (pr', .error "packet too large") := by
  rw [encodePacket_eq] at accepted
  split_ifs at accepted with large
  obtain ⟨rfl, rfl⟩ := Prod.mk.inj (Except.ok.inj accepted)
  have length : (B.sealBox shrkey nonce plain).length = plain.length + macSize :=
    sealing.seal_length shrkey nonce plain
  have small : (B.sealBox shrkey nonce plain).length < 65536 := by
    rw [length, macSize]
    rw [maxPacketSize] at large
    omega
  have read := pr.readPacket_frame small stream
  rw [length] at read
  exact ⟨rfl, read⟩

/-- The encoder bounds the plaintext and the reader bounds the ciphertext. -/
theorem encoded_packet_read_back_iff (sealing : B.Sealing) {shrkey : CryptoKey}
    {nonce nonce' : CBNonce} {plain pkt rest : Bytes}
    (accepted : encodePacket B shrkey nonce plain = .ok (pkt, nonce')) {pr : PacketReader}
    (stream : pr.r.flatten = pkt ++ rest) :
    (∃ pr' cipher, pr.readPacket = (pr', .ok cipher) ∧ pr'.r.flatten = rest ∧
      decodePacket B shrkey nonce cipher = .ok (plain, nonce')) ↔
    plain.length + macSize ≤ maxPacketSize := by
  obtain ⟨rfl, pr', ⟨fits, read, left⟩ | ⟨large, refused⟩⟩ :=
    encoded_packet_read sealing accepted stream
  · grind [read, decodePacket_seal]
  · grind

theorem encoded_packet_read_back_short :
    ∃ pkt, encodePacket plainBox (keyOf 1) (nonceOf 0) [1, 2, 3] = .ok (pkt, incr (nonceOf 0)) ∧
      ∃ pr' cipher, (newPacketReader [pkt]).readPacket = (pr', .ok cipher) ∧ pr'.r.flatten = [] ∧
        decodePacket plainBox (keyOf 1) (nonceOf 0) cipher = .ok ([1, 2, 3], incr (nonceOf 0)) := by
  obtain ⟨pkt, accepted⟩ : ∃ pkt, encodePacket plainBox (keyOf 1) (nonceOf 0) [1, 2, 3] =
      .ok (pkt, incr (nonceOf 0)) := ⟨_, by rw [encodePacket_eq, if_neg (by decide)]⟩
  have stream : (newPacketReader [pkt]).r.flatten = pkt ++ [] := List.flatten_cons
  exact ⟨pkt, accepted, (encoded_packet_read_back_iff plainBox_lawful.sealing accepted
    stream).mpr (by decide)⟩

/-- The largest plaintext that the encoder accepts is refused by the reader. -/
theorem largest_packet_not_read_back :
    ∃ pkt, encodePacket plainBox (keyOf 1) (nonceOf 0) (zeros maxPacketSize) =
        .ok (pkt, incr (nonceOf 0)) ∧
      ∃ pr', (newPacketReader [pkt]).readPacket = (pr', .error "packet too large") := by
  have length : (zeros maxPacketSize).length = maxPacketSize := List.length_replicate
  obtain ⟨pkt, accepted⟩ : ∃ pkt, encodePacket plainBox (keyOf 1) (nonceOf 0)
      (zeros maxPacketSize) = .ok (pkt, incr (nonceOf 0)) :=
    ⟨_, by rw [encodePacket_eq, if_neg (by rw [length]; exact lt_irrefl _)]⟩
  have stream : (newPacketReader [pkt]).r.flatten = pkt ++ [] := List.flatten_cons
  obtain ⟨-, pr', ⟨fits, -⟩ | ⟨-, refused⟩⟩ :=
    encoded_packet_read plainBox_lawful.sealing accepted stream
  · rw [length] at fits
    exact absurd fits (by decide)
  · exact ⟨pkt, accepted, pr', refused⟩

end GoTox
