import Toxera.Lib.Incremental
import Toxera.Mintox.Packet
import Toxera.Mintox.TcpServer

/-!
# A connection of the server as a channel

The part of `TCPSecureConn` below the routing tables: the handshake, and the read loop
that takes packets out of the ring buffer.
-/

namespace SecureConn

open CryptoCore Packet Incremental
open TcpServer (TcpStatus)

structure TCPSecureConn where
  seckey : CryptoKey
  pubkey : Option CryptoKey
  shrkey : Option CryptoKey
  recvNonce : Option CBNonce
  sentNonce : Option CBNonce
  status : TcpStatus
  crbuf : Bytes
  nxtpktlen : UInt16

def newTCPSecureConn (seckey : CryptoKey) : TCPSecureConn where
  seckey := seckey
  pubkey := none
  shrkey := none
  recvNonce := none
  sentNonce := none
  status := .noStatus
  crbuf := []
  nxtpktlen := 0

def crbufCap : Nat := 1024 * 1024

structure HandshakeRandom where
  sentNonce : CBNonce
  srvTmpNonce : CBNonce
  tmpSeckey : CryptoKey

inductive ReadEvent where
  /-- the handshake is answered with these bytes -/
  | greeted (answer : Bytes)
  | packet (plnpkt : Bytes)
  deriving DecidableEq

section Model
variable (B : Box) (rnd : HandshakeRandom)

def handleHandshake (c : TCPSecureConn) (rdbuf : Bytes) : Option (TCPSecureConn × Bytes) :=
  (newCryptoKey (rdbuf.take publicKeySize)).bind fun cliPubkey =>
  (newCBNonce ((rdbuf.drop publicKeySize).take nonceSize)).bind fun cliTmpNonce =>
  let shrkey := B.precompute cliPubkey c.seckey
  (decryptDataSymmetric B shrkey cliTmpNonce (rdbuf.drop (publicKeySize + nonceSize))).bind
    fun cliplnpkt =>
  (newCryptoKey (cliplnpkt.1.take publicKeySize)).bind fun hstmppk =>
  (newCBNonce ((cliplnpkt.1.drop publicKeySize).take nonceSize)).bind fun recvNonce =>
  let srvplnpkt := (B.pubkey rnd.tmpSeckey).val ++ rnd.sentNonce.val
  (encryptDataSymmetric B shrkey rnd.srvTmpNonce srvplnpkt).map fun encpkt =>
    ({ c with
        pubkey := some cliPubkey
        shrkey := some (B.precompute hstmppk rnd.tmpSeckey)
        recvNonce := some recvNonce
        sentNonce := some rnd.sentNonce },
      rnd.srvTmpNonce.val ++ encpkt)

def readHeader (c : TCPSecureConn) : TCPSecureConn :=
  { c with nxtpktlen := uint16 (c.crbuf.take 2), crbuf := c.crbuf.drop 2 }

/-- A complete frame goes to `Unpacket`, and the first byte of the result is read. -/
def receive (c : TCPSecureConn) (rdbuf : Bytes) : Option (TCPSecureConn × Option ReadEvent) :=
  match c.shrkey, c.recvNonce with
  | some shrkey, some recvNonce =>
    (unpacket B shrkey recvNonce rdbuf).bind fun r =>
      if r.1 = [] then none
      else some ({ c with recvNonce := some r.2, status := .confirmed, nxtpktlen := 0 },
        some (.packet r.1))
  | _, _ => none

def readBody (c : TCPSecureConn) : Option (TCPSecureConn × Option ReadEvent) :=
  if c.crbuf.length < c.nxtpktlen.toNat then some (c, none)
  else
    let size := (2 + c.nxtpktlen).toNat
    if size < 2 then none
    else
      let body := c.crbuf.take (size - 2)
      if body.length + 2 = size then
        receive B { c with crbuf := c.crbuf.drop (size - 2) } (putUint16 c.nxtpktlen ++ body)
      else none

/-- One round of the loop of `doReadPacket`; without an event the function returns. -/
def readRound (c : TCPSecureConn) : Option (TCPSecureConn × Option ReadEvent) :=
  match c.status with
  | .noStatus =>
    let want := (publicKeySize + nonceSize) * 2 + macSize
    if (c.crbuf.take want).length = want then
      (handleHandshake B rnd { c with crbuf := c.crbuf.drop want } (c.crbuf.take want)).map
        fun r => ({ r.1 with status := .unconfirmed, nxtpktlen := 0 }, some (.greeted r.2))
    else none
  | .connected => none
  | .unconfirmed | .confirmed =>
    if c.nxtpktlen = 0 ∧ c.crbuf.length < 2 then some (c, none)
    else readBody B (if c.nxtpktlen = 0 then readHeader c else c)

def doReadPacket (c : TCPSecureConn) : Option (TCPSecureConn × List ReadEvent) :=
  rounds (readRound B rnd) (c.crbuf.length + 1) c

def runReadLoop : TCPSecureConn → List Bytes → Option (TCPSecureConn × List ReadEvent)
  | c, [] => some (c, [])
  | c, rdbuf :: rest =>
    if rdbuf.length < 1 then some (c, [])
    else if c.crbuf.length + rdbuf.length ≤ crbufCap then
      (doReadPacket B rnd { c with crbuf := c.crbuf ++ rdbuf }).bind fun r =>
        (runReadLoop r.1 rest).map fun r' => (r'.1, r.2 ++ r'.2)
    else none

end Model

end SecureConn
