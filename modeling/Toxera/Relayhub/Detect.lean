import Mathlib.Data.Nat.Digits.Defs
import Toxera.Relayhub.CircuitPb

/-!
# Identification and addresses

`parseIdentify` and `MultiaddrString` of `relayhub/detect.go`, which read what a relay
tells about itself, and `base58Encode`.
-/

namespace Relayhub

def ascii (s : String) : Bytes := s.toList.map fun c => UInt8.ofNat c.toNat

def sliceTo (b : Bytes) (n : Int) : Option Bytes :=
  if 0 ≤ n ∧ n ≤ b.length then some (b.take n.toNat) else none

def base58Alphabet : Bytes :=
  ascii "123456789ABCDEFGHJKLMNPQRSTUVWXYZabcdefghijkmnopqrstuvwxyz"

def setBytes (data : Bytes) : Nat := data.foldl (fun n b => 256 * n + b.toNat) 0

/-- The digits come out last first; leading zero bytes are put behind them before all is
turned around. -/
def base58Encode (data : Bytes) : Option Bytes :=
  if data.length = 0 then some []
  else
    (Nat.digits 58 (setBytes data)).mapM (fun d => base58Alphabet[d]?) |>.bind fun chars =>
    ((data.takeWhile (· = 0)).mapM fun _ => base58Alphabet[0]?).map fun zeros =>
      (chars ++ zeros).reverse

structure IdentifyInfo where
  peerID : Bytes := []
  agent : Bytes := []
  protos : List Bytes := []
  signedPeerRecord : Option Bytes := none
  deriving DecidableEq

def IdentifyInfo.store (info : IdentifyInfo) (sha256 : Bytes → Bytes) (field : Nat) (val : Bytes) :
    Option IdentifyInfo :=
  if field = 1 then
    (base58Encode ([0x12, 0x20] ++ sha256 val)).map fun id => { info with peerID := id }
  else if field = 3 then some { info with protos := info.protos ++ [val] }
  else if field = 6 then some { info with agent := val }
  else if field = 8 then some { info with signedPeerRecord := some val }
  else some info

def parseIdentifyLoop (sha256 : Bytes → Bytes) : Nat → Bytes → IdentifyInfo → Option IdentifyInfo
  | 0, _, _ => none
  | fuel + 1, rest, info =>
    if rest.length = 0 then some info
    else
      match decodeVarint rest with
      | (tag, n) =>
        if n ≤ 0 then some info
        else
          (sliceFrom rest n).bind fun rest =>
          let field := tag.toNat >>> 3
          let wt := tag.toNat &&& 7
          if wt ≠ 2 then
            if wt = 0 then
              match decodeVarint rest with
              | (_, n) =>
                if n ≤ 0 then some info
                else (sliceFrom rest n).bind fun rest => parseIdentifyLoop sha256 fuel rest info
            else some info
          else
            match decodeVarint rest with
            | (l, n) =>
              if n ≤ 0 then some info
              else
                (sliceFrom rest n).bind fun rest =>
                if rest.length < int64 l.toNat then some info
                else
                  (sliceTo rest l.toNat).bind fun val =>
                  (sliceFrom rest l.toNat).bind fun rest =>
                  (info.store sha256 field val).bind fun info =>
                  parseIdentifyLoop sha256 fuel rest info

def parseIdentify (sha256 : Bytes → Bytes) (data : Bytes) : Option IdentifyInfo :=
  parseIdentifyLoop sha256 (data.length + 1) data {}

def computePeerID (sha256 : Bytes → Bytes) (pk : Bytes) : Bytes :=
  [0x12, 0x20] ++ sha256 ([0x08, 0x01, 0x12, 0x20] ++ pk)

structure MaProto where
  name : String
  size : Int

def maProtos : List (Nat × MaProto) :=
  [(0x04, ⟨"ip4", 4⟩),
   (0x06, ⟨"tcp", 2⟩),
   (0x29, ⟨"ip6", 16⟩),
   (0x35, ⟨"dns", -1⟩),
   (0x36, ⟨"dns4", -1⟩),
   (0x37, ⟨"dns6", -1⟩),
   (0x0111, ⟨"udp", 2⟩),
   (0x0118, ⟨"webrtc-direct", 0⟩),
   (0x0119, ⟨"webrtc", 0⟩),
   (0x0122, ⟨"p2p-circuit", 0⟩),
   (0x01a5, ⟨"p2p", -1⟩),
   (0x01bb, ⟨"https", 0⟩),
   (0x01c0, ⟨"tls", 0⟩),
   (0x01c6, ⟨"noise", 0⟩),
   (0x01cc, ⟨"quic", 0⟩),
   (0x01cd, ⟨"quic-v1", 0⟩),
   (0x01d1, ⟨"webtransport", 0⟩),
   (0x01d2, ⟨"certhash", -1⟩),
   (0x01dd, ⟨"ws", -1⟩),
   (0x01de, ⟨"wss", -1⟩)]

def decimal (n : Nat) : Bytes := ascii (toString n)

def hexDigits : Bytes := ascii "0123456789abcdef"

def hexByte (b : UInt8) : Bytes :=
  [hexDigits.getD (b.toNat / 16) 0, hexDigits.getD (b.toNat % 16) 0]

def hexGroup (val : Bytes) (i : Nat) : Option Bytes :=
  val[2 * i]?.bind fun hi => val[2 * i + 1]?.map fun lo => hexByte hi ++ hexByte lo

def maValue (name : String) (val : Bytes) : Option Bytes :=
  if name = "ip4" then
    ((List.range 4).mapM fun i => val[i]?.map fun b => decimal b.toNat).map fun parts =>
      ascii "/" ++ (ascii ".").intercalate parts
  else if name = "ip6" then
    ((List.range 8).mapM (hexGroup val)).map fun parts =>
      ascii "/" ++ (ascii ":").intercalate parts
  else if name = "tcp" ∨ name = "udp" then
    val[0]?.bind fun hi => val[1]?.map fun lo =>
      ascii "/" ++ decimal (hi.toNat <<< 8 ||| lo.toNat)
  else if name = "p2p" then (base58Encode val).map fun id => ascii "/" ++ id
  else if name = "certhash" then some (ascii "/" ++ val.flatMap hexByte)
  else some (ascii "/" ++ val)

def maTake (size : Int) (b : Bytes) : Option (Option (Bytes × Bytes)) :=
  if 0 < size then
    if b.length < size then some none
    else (sliceTo b size).bind fun val => (sliceFrom b size).map fun b => some (val, b)
  else
    match decodeVarint b with
    | (v, m) =>
      if m ≤ 0 ∨ (b.length - m) % 2 ^ 64 < v.toNat then some none
      else
        (sliceTo b (int64 (m + int64 v.toNat))).bind fun upTo =>
        (sliceFrom upTo m).bind fun val =>
        (sliceFrom b (int64 (m + int64 v.toNat))).map fun b => some (val, b)

/-- The varint behind an unknown code is taken for a length, if it is small enough. -/
def maSkip (b : Bytes) : Option Bytes :=
  match decodeVarint b with
  | (v, m) =>
    if 0 < m ∧ int64 v.toNat ≤ b.length - m ∧ int64 v.toNat < 256 then
      sliceFrom b (int64 (m + int64 v.toNat))
    else some b

def multiaddrLoop : Nat → Bytes → Bytes → Option Bytes
  | 0, _, _ => none
  | fuel + 1, b, s =>
    if b.length = 0 then some s
    else
      match decodeVarint b with
      | (code, n) =>
        if n ≤ 0 then some s
        else
          (sliceFrom b n).bind fun b =>
          match maProtos.lookup code.toNat with
          | none =>
            (maSkip b).bind fun b =>
              multiaddrLoop fuel b (s ++ ascii "/<proto-" ++ decimal code.toNat ++ ascii ">")
          | some p =>
            let s := s ++ ascii "/" ++ ascii p.name
            if p.size = 0 then multiaddrLoop fuel b s
            else
              (maTake p.size b).bind fun
                | none => some s
                | some (val, b) =>
                  (maValue p.name val).bind fun v => multiaddrLoop fuel b (s ++ v)

def multiaddrString (b : Bytes) : Option Bytes := multiaddrLoop (b.length + 1) b []

end Relayhub
