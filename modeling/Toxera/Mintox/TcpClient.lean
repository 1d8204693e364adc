import Toxera.Lib.BufReader
import Toxera.Lib.Incremental
import Toxera.Mintox.Packet

/-!
# The TCP client of mintox as a channel

The handshake of `mintox/tcp_client.go` and the read loop over the peekable ring.
-/

namespace TcpClient

open CryptoCore Packet Incremental

inductive ClientStatus where
  | noStatus
  | proxyHttpConnecting
  | proxySocks5Connecting
  | proxySocks5Unconfirmed
  | connecting
  | unconfirmed
  | confirmed
  | disconnected
  deriving DecidableEq

structure TCPClient where
  selfPubkey : CryptoKey
  selfSeckey : CryptoKey
  servPubkey : CryptoKey
  shrkey : CryptoKey
  tempSeckey : Option CryptoKey
  sentNonce : Option CBNonce
  tempNonce : Option CBNonce
  recvNonce : Option CBNonce
  status : ClientStatus
  crbuf : BufReader UInt8

def ringCap : Nat := 1024 * 1024
def readerSize : Nat := 4096

structure HandshakeRandom where
  tempSeckey : CryptoKey
  sentNonce : CBNonce
  tempNonce : CBNonce

inductive ReadEvent where
  /-- the answer to the handshake is taken and this first packet is written -/
  | greeted (pingpkt : Bytes)
  | packet (plnpkt : Bytes)
  deriving DecidableEq

section Model
variable (B : Box)

def newTCPClient (servPubkey selfPubkey selfSeckey : CryptoKey) : TCPClient where
  selfPubkey := selfPubkey
  selfSeckey := selfSeckey
  servPubkey := servPubkey
  shrkey := B.precompute servPubkey selfSeckey
  tempSeckey := none
  sentNonce := none
  tempNonce := none
  recvNonce := none
  status := .connecting
  crbuf := .make readerSize

def generateHandshake (rnd : HandshakeRandom) (c : TCPClient) : Option (TCPClient × Bytes) :=
  let plain := (B.pubkey rnd.tempSeckey).val ++ rnd.sentNonce.val
  if plain.length ≠ publicKeySize + nonceSize then none
  else (encryptDataSymmetric B c.shrkey rnd.tempNonce plain).bind fun encrypted =>
    if encrypted.length ≠ publicKeySize + nonceSize + macSize then none
    else
      -- the client opens its own packet
      (decryptDataSymmetric B c.shrkey rnd.tempNonce encrypted).bind fun self =>
        if self.2 = false then none
        else
          let lastPacket := c.selfPubkey.val ++ rnd.tempNonce.val ++ encrypted
          if lastPacket.length ≠ publicKeySize + nonceSize + macSize + plain.length then none
          else some ({ c with
            tempSeckey := some rnd.tempSeckey
            sentNonce := some rnd.sentNonce
            tempNonce := some rnd.tempNonce }, lastPacket)

def handleHandshake (c : TCPClient) (rdbuf : Bytes) : Option TCPClient :=
  (newCBNonce (rdbuf.take nonceSize)).bind fun tempNonce =>
  (decryptDataSymmetric B c.shrkey tempNonce (rdbuf.drop nonceSize)).bind fun plainResp =>
  (newCryptoKey (plainResp.1.take publicKeySize)).bind fun tempPubkey =>
  (newCBNonce (plainResp.1.drop publicKeySize)).bind fun recvNonce =>
  c.tempSeckey.map fun tempSeckey =>
    { c with
      recvNonce := some recvNonce
      shrkey := B.precompute tempPubkey tempSeckey
      tempSeckey := none }

def makePingPacket2 (rand : UInt64) : Bytes := pingPacket rand

variable (rand : UInt64)

def greet (c : TCPClient) (rdbuf : Bytes) : Option (TCPClient × Option ReadEvent) :=
  (handleHandshake B c rdbuf).bind fun c =>
  c.sentNonce.bind fun sentNonce =>
  (createPacket B c.shrkey sentNonce (makePingPacket2 rand)).map fun pingpkt =>
    ({ c with sentNonce := some (incr sentNonce), status := .unconfirmed },
      some (.greeted pingpkt))

def receive (c : TCPClient) (rdbuf : Bytes) : Option (TCPClient × Option ReadEvent) :=
  c.recvNonce.bind fun recvNonce =>
  (unpacket B c.shrkey recvNonce rdbuf).bind fun r =>
    if r.1 = [] then none
    else some ({ c with recvNonce := some r.2, status := .confirmed }, some (.packet r.1))

def readFrame (c : TCPClient) : Option (TCPClient × Option ReadEvent) :=
  match c.crbuf.peek 2 with
  | (crbuf, .error _) => some ({ c with crbuf := crbuf }, none)
  | (crbuf, .ok pktlenbuf) =>
    let pktlen := 2 + (uint16 pktlenbuf).toNat
    match crbuf.peek pktlen with
    | (crbuf, .error _) => some ({ c with crbuf := crbuf }, none)
    | (crbuf, .ok _) =>
      let r := crbuf.read pktlen
      if r.2.length = pktlen then receive B { c with crbuf := r.1 } r.2 else none

/-- One round of the loop of `doReadPacket`; without an event the function returns. -/
def readRound (c : TCPClient) : Option (TCPClient × Option ReadEvent) :=
  match c.status with
  | .connecting =>
    let pktlen := nonceSize + (publicKeySize + nonceSize + macSize)
    let r := c.crbuf.read pktlen
    if r.2.length = pktlen then greet B rand { c with crbuf := r.1 } r.2 else none
  | .unconfirmed | .confirmed => readFrame B c
  | _ => none

def doReadPacket (c : TCPClient) : Option (TCPClient × List ReadEvent) :=
  rounds (readRound B rand) (c.crbuf.contents.length + 1) c

def doReadConn : TCPClient → List Bytes → Option (TCPClient × List ReadEvent)
  | c, [] => some (c, [])
  | c, rdbuf :: rest =>
    if rdbuf.length < 1 then some (c, [])
    else if c.crbuf.contents.length + rdbuf.length ≤ readerSize + ringCap ∧
        c.crbuf.src.length + rdbuf.length ≤ ringCap then
      (doReadPacket B rand { c with crbuf := c.crbuf.write rdbuf }).bind fun r =>
        (doReadConn r.1 rest).map fun r' => (r'.1, r.2 ++ r'.2)
    else none

end Model

end TcpClient
