import Toxera.Mintox.CryptoCore

/-!
# The handshake of go-tox-tcpclient

The state and the two packets of `go-tox-tcpclient/handshake.go`.
-/

namespace GoTox

open CryptoCore

def publicKeySize : Nat := 32
def nonceSize : Nat := 24
def macSize : Nat := 16
def handshakePlainSize : Nat := publicKeySize + nonceSize
def serverHandshakeSize : Nat := nonceSize + handshakePlainSize + macSize
def clientHandshakeSize : Nat := publicKeySize + serverHandshakeSize

def copyAt (dst : Bytes) (off : Nat) (src : Bytes) : Bytes :=
  dst.take off ++ src.take (dst.length - off) ++ dst.drop (off + src.length)

theorem copyAt_length (dst : Bytes) {off : Nat} (h : off ≤ dst.length) (src : Bytes) :
    (copyAt dst off src).length = dst.length := by
  simp only [copyAt, List.length_append, List.length_take, List.length_drop]
  omega

def zeros (n : Nat) : Bytes := List.replicate n 0

theorem copyAt_front {dst src : Bytes} (fits : src.length ≤ dst.length) :
    (copyAt dst 0 src).take src.length = src := by
  rw [copyAt, List.take_zero, List.nil_append, Nat.sub_zero, List.take_of_length_le fits,
    List.take_left]

theorem copyAt_zeros (done src : Bytes) (n : Nat) (fits : src.length ≤ n) :
    copyAt (done ++ zeros n) done.length src = (done ++ src) ++ zeros (n - src.length) := by
  have h1 : (done ++ zeros n).length - done.length = n := by simp [zeros]
  rw [copyAt, h1, List.take_left, List.take_of_length_le fits, List.drop_append]
  simp [zeros]

def keyOfBytes (src : Bytes) : CryptoKey :=
  ⟨copyAt (zeros 32) 0 src, by rw [copyAt_length _ (Nat.zero_le _)]; rfl⟩

def nonceOfBytes (src : Bytes) : CBNonce :=
  ⟨copyAt (zeros 24) 0 src, by rw [copyAt_length _ (Nat.zero_le _)]; rfl⟩

structure HandshakeState where
  serverPK : CryptoKey
  selfPK : CryptoKey
  selfSK : CryptoKey
  initShr : CryptoKey
  tempSK : CryptoKey
  tempPK : CryptoKey
  initNonce : CBNonce
  sentNonce : CBNonce

structure Session where
  shrkey : CryptoKey
  sentNonce : CBNonce
  recvNonce : CBNonce

variable (B : Box)

def newHandshakeState (serverPK selfPK selfSK : CryptoKey) : HandshakeState where
  serverPK := serverPK
  selfPK := selfPK
  selfSK := selfSK
  initShr := B.precompute serverPK selfSK
  tempSK := keyOfBytes []
  tempPK := keyOfBytes []
  initNonce := nonceOfBytes []
  sentNonce := nonceOfBytes []

/-- The secret key is drawn at random, or drawing it fails; `sn` and `init` are the
two random nonces. -/
def generateClientPacket (sk : Except String CryptoKey) (sn init : CBNonce)
    (hs : HandshakeState) : Except String (HandshakeState × Bytes) :=
  sk.map fun sk =>
    let hs := { hs with tempPK := B.pubkey sk, tempSK := sk, sentNonce := sn, initNonce := init }
    let plain := copyAt (zeros handshakePlainSize) 0 hs.tempPK.val
    let plain := copyAt plain publicKeySize hs.sentNonce.val
    let enc := B.sealBox hs.initShr init plain
    let pkt := copyAt (zeros clientHandshakeSize) 0 hs.selfPK.val
    let pkt := copyAt pkt publicKeySize hs.initNonce.val
    (hs, copyAt pkt (publicKeySize + nonceSize) enc)

def handleServerResponse (hs : HandshakeState) (resp : Bytes) :
    Option (Except String (CryptoKey × CBNonce)) :=
  if resp.length < serverHandshakeSize then some (.error "handshake response too short")
  else
    let tmpNonce := nonceOfBytes (resp.take nonceSize)
    match B.openBox hs.initShr tmpNonce ((resp.take serverHandshakeSize).drop nonceSize) with
    | none => some (.error "handshake decryption failed")
    | some plain =>
      if plain.length < publicKeySize then none
      else
        let servTempPK := keyOfBytes (plain.take publicKeySize)
        let recvNonce := nonceOfBytes (plain.drop publicKeySize)
        some (.ok (B.precompute servTempPK hs.tempSK, recvNonce))

def connected (hs : HandshakeState) (r : CryptoKey × CBNonce) : Session :=
  ⟨r.1, hs.sentNonce, r.2⟩

end GoTox
