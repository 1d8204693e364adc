import Toxera.Fedkey.Encodings

/-!
# The identifiers that are derived from a seed

Five functions of `fedkey/keyring.c` and the functions of the same purpose of
`fedkey/keyring.go`, over the same keys and hash functions.
-/

namespace Fedkey

open BaseEncoding

variable {text : Bytes}

structure Crypto where
  ed25519Pub : Bytes → Bytes
  secp256k1Pub : Bytes → Bytes
  /-- the modulus of the RSA key of OpenDHT, if the key could be made -/
  opendhtModulus : Bytes → Option Bytes
  sha256 : Bytes → Bytes
  sha512 : Bytes → Bytes
  ed25519Pub_length : ∀ seed, (ed25519Pub seed).length = 32
  sha256_length : ∀ data, (sha256 data).length = 32
  sha512_length : ∀ data, (sha512 data).length = 64

def protoVarint (v : Nat) : Bytes :=
  if 127 < v then (UInt8.ofNat v ||| 0x80) :: protoVarint (v / 128) else [UInt8.ofNat v]

def cjdnsByte (b : UInt8) : UInt8 := (b &&& 0x0F) ||| 0xFC

def colon : UInt8 := 58

namespace C

def writeOut (outLen : Nat) (text : Bytes) : Option Bytes :=
  if text.length < outLen then some text else none

def keyringSsbFeedid (k : Crypto) (seed : Bytes) (outLen : Nat) : Option Bytes :=
  let text := base64Encode (k.ed25519Pub seed) (outLen - 2)
  writeOut outLen (ascii "@" ++ text ++
    if text.length + 2 + 9 < outLen then ascii ".ed25519" else [])

def keyringCjdnsIpv6 (k : Crypto) (seed : Bytes) (outLen : Nat) : Option Bytes :=
  let h := (k.sha512 (k.ed25519Pub seed)).modifyHead cjdnsByte
  let hex := binToHex (h.take 16)
  writeOut outLen (ascii "fc" ++ (List.range 15).flatMap fun n =>
    let i := 2 + 2 * n
    [hex.getD i 0, hex.getD (i + 1) 0] ++ if i < 30 then [colon] else [])

def fours : Bytes → Bytes
  | a :: b :: c :: d :: rest => a :: b :: c :: d :: if rest = [] then [] else colon :: fours rest
  | short => short

def keyringYggdrasilIpv6 (k : Crypto) (seed : Bytes) (outLen : Nat) : Option Bytes :=
  let h := k.sha512 (k.ed25519Pub seed)
  (base32Yggdrasil ((h.drop 1).take 15)).bind fun b32 =>
    writeOut outLen (ascii "200:" ++ fours (b32.take 26))

def keyringTahoeNodeid (k : Crypto) (seed : Bytes) (outLen : Nat) : Option Bytes :=
  (base32Encode (k.ed25519Pub seed)).bind fun b32 => writeOut outLen (ascii "v0-" ++ b32)

def peerid (k : Crypto) (keyType : Nat) (pubkeyData : Bytes) (outLen : Nat) : Option Bytes :=
  if pubkeyData.length ≤ 600 then
    let proto := protoVarint (1 * 8 + 0) ++ protoVarint keyType ++ protoVarint (2 * 8 + 2) ++
      protoVarint pubkeyData.length ++ pubkeyData
    if proto.length ≤ 42 then
      (base58Encode (protoVarint 0x00 ++ protoVarint proto.length ++ proto)).bind (writeOut outLen)
    else
      (base58Encode (protoVarint 0x12 ++ protoVarint 32 ++ k.sha256 proto)).bind (writeOut outLen)
  else none

def keyringLibp2pPeerid (k : Crypto) (seed : Bytes) (kind : Int) (outLen : Nat) : Option Bytes :=
  if kind = 0 then peerid k 1 (k.ed25519Pub seed) outLen
  else if kind = 1 then peerid k 2 (k.secp256k1Pub seed) outLen
  else if kind = 2 then
    match k.opendhtModulus seed with
    | none => writeOut outLen []
    | some n => peerid k 0 n outLen
  else writeOut outLen []

end C

namespace Go

def hex2 (b : UInt8) : Bytes := spell C.hexDigits [b.toNat / 16, b.toNat % 16]

def hex (b : UInt8) : Bytes := if b.toNat < 16 then spell C.hexDigits [b.toNat] else hex2 b

def ssbFeedID (k : Crypto) (seed : Bytes) : Bytes :=
  ascii "@" ++ base64 base64Alphabet (k.ed25519Pub seed) ++ ascii ".ed25519"

def cjdnsIPv6 (k : Crypto) (seed : Bytes) : Bytes :=
  let addr := ((k.sha512 (k.ed25519Pub seed)).take 16).modifyHead cjdnsByte
  let parts := (List.range 8).map fun n =>
    hex2 (addr.getD (2 * n) 0) ++ hex2 (addr.getD (2 * n + 1) 0)
  ascii "fc" ++ ([colon].intercalate parts).drop 2

structure Scan where
  temp : Bytes
  done : Bool
  ones : UInt8
  bits : UInt8
  nBits : Nat

def Scan.step (s : Scan) (bit : UInt8) : Scan :=
  if !s.done && bit != 0 then { s with ones := s.ones + 1 }
  else if !s.done && bit == 0 then { s with done := true }
  else
    let bits := (s.bits <<< 1) ||| bit
    if s.nBits + 1 = 8 then { s with temp := s.temp ++ [bits], bits := 0, nBits := 0 }
    else { s with bits := bits, nBits := s.nBits + 1 }

def bitAt (buf : Bytes) (idx : Nat) : UInt8 :=
  (buf.getD (idx / 8) 0 &&& (0x80 >>> UInt8.ofNat (idx % 8))) >>> UInt8.ofNat (7 - idx % 8)

/-- The number of leading ones of the inverted key, and the bits after the first zero. -/
def yggdrasilAddr (pub : Bytes) : Bytes :=
  let buf := pub.map fun b => ~~~ b
  let scan : Scan :=
    (List.range 256).foldl (fun s idx => s.step (bitAt buf idx)) ⟨[], false, 0, 0, 0⟩
  ([0x02, scan.ones] ++ scan.temp ++ List.replicate 14 0).take 16

def yggdrasilIPv6 (k : Crypto) (seed : Bytes) : Bytes :=
  let addr := yggdrasilAddr (k.ed25519Pub seed)
  let parts := (List.range 8).map fun n =>
    hex (addr.getD (2 * n) 0) ++ hex2 (addr.getD (2 * n + 1) 0)
  [colon].intercalate parts

def tahoeNodeID (k : Crypto) (seed : Bytes) : Bytes :=
  ascii "v0-" ++ base32Encode (k.ed25519Pub seed)

def protoLenDelim (field : Nat) (data : Bytes) : Bytes :=
  protoVarint (field * 8 + 2) ++ protoVarint data.length ++ data

def protoVarintField (field value : Nat) : Bytes :=
  protoVarint (field * 8 + 0) ++ protoVarint value

def multihashEncode (code : Nat) (data : Bytes) : Bytes :=
  protoVarint code ++ protoVarint data.length ++ data

def peerID (k : Crypto) (keyType : Nat) (pubKeyData : Bytes) : Bytes :=
  let pubProto := protoVarintField 1 keyType ++ protoLenDelim 2 pubKeyData
  if pubProto.length ≤ 42 then base58Encode (multihashEncode 0x00 pubProto)
  else base58Encode (multihashEncode 0x12 (k.sha256 pubProto))

def libp2pPeerID (k : Crypto) (seed : Bytes) (kind : Int) : Bytes :=
  if kind = 0 then peerID k 1 (k.ed25519Pub seed)
  else if kind = 1 then peerID k 2 (k.secp256k1Pub seed)
  else if kind = 2 then
    match k.opendhtModulus seed with
    | none => []
    | some n => peerID k 0 n
  else []

end Go

variable {k : Crypto} {seed : Bytes} {outLen : Nat}

theorem writeOut_large (large : 64 ≤ outLen) (short : text.length < 64) :
    C.writeOut outLen text = some text := if_pos (by omega)

theorem keyringSsbFeedid_eq (large : 64 ≤ outLen) : C.keyringSsbFeedid k seed outLen =
    some (ascii "@" ++ spell base64Alphabet (sextets (k.ed25519Pub seed)) ++
      ascii ".ed25519") := by
  have size : (sextets (k.ed25519Pub seed)).length = 43 := by
    rw [sextets_length, k.ed25519Pub_length]
  have whole : (base64 base64Alphabet (k.ed25519Pub seed)).length = 44 := by
    rw [base64, List.length_append, spell_length, size, List.length_replicate,
      k.ed25519Pub_length]
    rfl
  have text : C.base64Encode (k.ed25519Pub seed) (outLen - 2) =
      spell base64Alphabet (sextets (k.ed25519Pub seed)) := by
    rw [C.base64Encode, whole, if_neg (by omega), trimPadding_base64 padding_not_mem_base64Alphabet]
  rw [C.keyringSsbFeedid, text, spell_length, size, if_pos (by omega)]
  refine writeOut_large large ?_
  rw [List.length_append, List.length_append, spell_length, size]
  decide

theorem ssb_differ (large : 64 ≤ outLen) :
    C.keyringSsbFeedid k seed outLen ≠ some (Go.ssbFeedID k seed) := by
  rw [keyringSsbFeedid_eq large]
  intro same
  have sizes := congrArg List.length (Option.some.inj same)
  rw [Go.ssbFeedID, base64, k.ed25519Pub_length] at sizes
  simp only [List.length_append, List.length_replicate, padding64] at sizes
  omega

theorem cjdns_differ : C.keyringCjdnsIpv6 k seed outLen ≠ some (Go.cjdnsIPv6 k seed) := by
  intro same
  rw [C.keyringCjdnsIpv6, C.writeOut] at same
  split_ifs at same
  have sizes := congrArg List.length (Option.some.inj same)
  exact absurd (show 46 = 39 from sizes) (by decide)

theorem colon_not_mem_hexDigits : colon ∉ C.hexDigits := not_mem_ascii (by decide)

theorem colon_not_mem_hex (b : UInt8) : colon ∉ Go.hex b := by
  unfold Go.hex Go.hex2
  split_ifs
  all_goals exact not_mem_spell colon_not_mem_hexDigits (by decide) _

theorem colon_not_mem_hex2 (b : UInt8) : colon ∉ Go.hex2 b :=
  not_mem_spell colon_not_mem_hexDigits (by decide) _

theorem count_intercalate {parts : List Bytes} (clean : ∀ p ∈ parts, colon ∉ p) :
    ([colon].intercalate parts).count colon = parts.length - 1 := by
  induction parts with
  | nil => rfl
  | cons p rest ih =>
    have none_ : p.count colon = 0 := List.count_eq_zero.mpr (clean p List.mem_cons_self)
    cases rest with
    | nil => simpa [List.intercalate] using none_
    | cons q rest =>
      have more := ih fun x hx => clean x (List.mem_cons_of_mem _ hx)
      rw [List.intercalate_cons_cons, List.count_append, List.count_append, none_, more,
        List.count_singleton_self]
      simp only [List.length_cons]
      omega

theorem count_fours {n : Nat} (clean : colon ∉ text) (size : text.length = 4 * (n + 1)) :
    (C.fours text).count colon = n := by
  induction n generalizing text with
  | zero =>
    obtain ⟨a, b, c, d, rfl⟩ : ∃ a b c d, text = [a, b, c, d] := List.length_eq_four.mp size
    exact List.count_eq_zero.mpr clean
  | succ n ih =>
    obtain ⟨a, b, c, d, rest, rfl⟩ : ∃ a b c d rest, text = a :: b :: c :: d :: rest := by
      match text, size with
      | a :: b :: c :: d :: rest, _ => exact ⟨a, b, c, d, rest, rfl⟩
    have more : rest.length = 4 * (n + 1) := by
      simp only [List.length_cons] at size
      omega
    have some_ : rest ≠ [] := by
      rintro rfl
      cases more
    simp only [List.mem_cons, not_or] at clean
    rw [C.fours, if_neg some_]
    simp only [List.count_cons_of_ne, List.count_cons_self, ih clean.2.2.2.2 more, Ne.symm clean.1,
      Ne.symm clean.2.1, Ne.symm clean.2.2.1, Ne.symm clean.2.2.2.1, ne_eq, not_false_eq_true]

theorem yggdrasil_differ :
    C.keyringYggdrasilIpv6 k seed outLen ≠ some (Go.yggdrasilIPv6 k seed) := by
  intro same
  have bytes : (((k.sha512 (k.ed25519Pub seed)).drop 1).take 15).length = 15 := by
    rw [List.length_take, List.length_drop, k.sha512_length]
    rfl
  rw [C.keyringYggdrasilIpv6, C.base32Yggdrasil, C.base32With_eq _ (by rw [bytes]; decide),
    Option.bind_some, C.writeOut] at same
  split_ifs at same
  have counts := congrArg (List.count colon) (Option.some.inj same)
  have go : (Go.yggdrasilIPv6 k seed).count colon = 7 := by
    refine count_intercalate fun p hp => ?_
    obtain ⟨n, -, rfl⟩ := List.mem_map.mp hp
    intro mem
    rcases List.mem_append.mp mem with first | second
    · exact colon_not_mem_hex _ first
    · exact colon_not_mem_hex2 _ second
  generalize ((k.sha512 (k.ed25519Pub seed)).drop 1).take 15 = h at bytes counts
  have size : (spell C.yggAlphabet (quintets h)).length = 4 * (5 + 1) := by
    rw [spell_length, quintets_length, bytes]
  have other : colon ∉ C.yggAlphabet := not_mem_ascii (by decide)
  have clean : colon ∉ spell C.yggAlphabet (quintets h) := not_mem_spell other (by decide) _
  rw [List.take_of_length_le (by rw [size]; decide), List.count_append, count_fours clean size,
    go] at counts
  revert counts
  decide

theorem tahoe_agree (large : 64 ≤ outLen) :
    C.keyringTahoeNodeid k seed outLen = some (Go.tahoeNodeID k seed) := by
  rw [C.keyringTahoeNodeid, base32Encode_agree (by rw [k.ed25519Pub_length]; decide),
    Option.bind_some]
  refine writeOut_large large ?_
  rw [Go.base32Encode, trimPadding_base32 padding_not_mem_base32Alphabet, List.length_append,
    spell_length, quintets_length, k.ed25519Pub_length]
  decide

@[simp] theorem protoVarint_small {v : Nat} (h : v ≤ 127) :
    protoVarint v = [UInt8.ofNat v] := by
  rw [protoVarint, if_neg (Nat.not_lt.mpr h)]

theorem peerid_agree (keyType : Nat) {data : Bytes} (large : 160 ≤ outLen)
    (fits : data.length ≤ 600) :
    C.peerid k keyType data outLen = some (Go.peerID k keyType data) := by
  have proto : protoVarint (1 * 8 + 0) ++ protoVarint keyType ++ protoVarint (2 * 8 + 2) ++
      protoVarint data.length ++ data =
      Go.protoVarintField 1 keyType ++ Go.protoLenDelim 2 data := by
    simp only [Go.protoVarintField, Go.protoLenDelim, List.append_assoc]
  rw [C.peerid, if_pos fits, proto, Go.peerID]
  generalize Go.protoVarintField 1 keyType ++ Go.protoLenDelim 2 data = message
  dsimp only
  have encoded : ∀ hash : Bytes, hash.length ≤ 44 →
      (C.base58Encode hash).bind (C.writeOut outLen) = some (Go.base58Encode hash) := by
    intro hash short
    have size := base58_length_le base58Alphabet hash
    rw [base58Encode_agree (by omega), Option.bind_some]
    exact if_pos (Nat.lt_of_le_of_lt size (by omega))
  split_ifs with identity
  · refine encoded _ ?_
    rw [protoVarint_small (by decide), protoVarint_small (by omega)]
    simp only [List.length_append, List.length_singleton]
    omega
  · rw [Go.multihashEncode, k.sha256_length]
    refine encoded _ ?_
    rw [protoVarint_small (by decide), protoVarint_small (by decide)]
    simp only [List.length_append, List.length_singleton, k.sha256_length]
    decide

theorem libp2p_agree (large : 160 ≤ outLen) :
    C.keyringLibp2pPeerid k seed 0 outLen = some (Go.libp2pPeerID k seed 0) :=
  peerid_agree 1 large (by rw [k.ed25519Pub_length]; decide)

inductive Identifier where
  | ssbFeedId | cjdnsIPv6 | yggdrasilIPv6 | tahoeNodeId | libp2pPeerId
  deriving DecidableEq

def C.identifier (k : Crypto) (seed : Bytes) (outLen : Nat) : Identifier → Option Bytes
  | .ssbFeedId => keyringSsbFeedid k seed outLen
  | .cjdnsIPv6 => keyringCjdnsIpv6 k seed outLen
  | .yggdrasilIPv6 => keyringYggdrasilIpv6 k seed outLen
  | .tahoeNodeId => keyringTahoeNodeid k seed outLen
  | .libp2pPeerId => keyringLibp2pPeerid k seed 0 outLen

def Go.identifier (k : Crypto) (seed : Bytes) : Identifier → Bytes
  | .ssbFeedId => ssbFeedID k seed
  | .cjdnsIPv6 => cjdnsIPv6 k seed
  | .yggdrasilIPv6 => yggdrasilIPv6 k seed
  | .tahoeNodeId => tahoeNodeID k seed
  | .libp2pPeerId => libp2pPeerID k seed 0

/-- For every seed, the keyrings agree on exactly two of the five identifiers. -/
theorem identifiers_agree_iff (k : Crypto) (seed : Bytes) (outLen : Nat) (large : 160 ≤ outLen)
    (id : Identifier) :
    C.identifier k seed outLen id = some (Go.identifier k seed id) ↔
      id = .tahoeNodeId ∨ id = .libp2pPeerId := by
  cases id with
  | ssbFeedId => exact iff_of_false (ssb_differ (by omega)) (by decide)
  | cjdnsIPv6 => exact iff_of_false cjdns_differ (by decide)
  | yggdrasilIPv6 => exact iff_of_false yggdrasil_differ (by decide)
  | tahoeNodeId => exact iff_of_true (tahoe_agree (by omega)) (by decide)
  | libp2pPeerId => exact iff_of_true (libp2p_agree large) (by decide)

def onesCrypto : Crypto where
  ed25519Pub := fun _ => List.replicate 32 1
  secp256k1Pub := fun _ => List.replicate 33 2
  opendhtModulus := fun _ => none
  sha256 := fun _ => List.replicate 32 1
  sha512 := fun _ => List.replicate 64 1
  ed25519Pub_length := fun _ => List.length_replicate
  sha256_length := fun _ => List.length_replicate
  sha512_length := fun _ => List.length_replicate

theorem tahoe_id_agrees :
    C.identifier onesCrypto [] 160 .tahoeNodeId =
      some (Go.identifier onesCrypto [] .tahoeNodeId) :=
  (identifiers_agree_iff onesCrypto [] 160 (by decide) .tahoeNodeId).mpr (Or.inl rfl)

/-- The feed ids of one key. -/
theorem ssb_id_differs :
    C.identifier onesCrypto [] 160 .ssbFeedId =
      some (ascii "@AQEBAQEBAQEBAQEBAQEBAQEBAQEBAQEBAQEBAQEBAQE.ed25519") ∧
    Go.identifier onesCrypto [] .ssbFeedId =
      ascii "@AQEBAQEBAQEBAQEBAQEBAQEBAQEBAQEBAQEBAQEBAQE=.ed25519" ∧
    C.identifier onesCrypto [] 160 .ssbFeedId ≠
      some (Go.identifier onesCrypto [] .ssbFeedId) := by
  decide +kernel

end Fedkey
