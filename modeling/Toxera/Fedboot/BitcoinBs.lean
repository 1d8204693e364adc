import Toxera.Fedkey.Identifiers
import Toxera.Lib.Duplex
import Toxera.Lib.Radix

/-!
# The handshake of the Bitcoin bootstrap

`clientHandshake` and `serverHandshake` of `fedboot/bitcoin_bs.go` with the messages they
exchange.
-/

namespace Fedboot

open BaseEncoding Duplex Fedkey Radix

variable {myPub pre : Bytes} {n : Nat}

def bitcoinMagic : Nat := 0xD9B4BEF9
def btcProtocolVer : Nat := 70015
def btcCmdLen : Nat := 12
def btcHeaderLen : Nat := 24
def btcServiceNode : Nat := 1
def btcServiceChat : Nat := 1 <<< 24

def sha256d (k : Crypto) (data : Bytes) : Bytes := k.sha256 (k.sha256 data)

abbrev Conn := Proc UInt8 Bytes

def context {α : Type} (text : String) (p : Conn α) : Conn α := p.mapError (ascii text ++ ·)

def slice (b : Bytes) (low high : Nat) : Bytes := (b.drop low).take (high - low)

def fill (n : Nat) (b : Bytes) : Bytes := b.take n ++ List.replicate (n - b.length) 0

structure TCPAddr where
  ip : Bytes
  port : Int

def to16 (ip : Bytes) : Bytes :=
  if ip.length = 4 then List.replicate 10 0 ++ [0xff, 0xff] ++ ip
  else if ip.length = 16 then ip
  else []

def btcAddr : Option TCPAddr → Bytes
  | none => List.replicate 26 0
  | some a =>
    List.replicate 8 0 ++ fill 16 (to16 a.ip) ++ (littleEndian 2 (a.port % 65536).toNat).reverse

def btcWriteVarStr (s : Bytes) : Bytes :=
  let l := s.length
  (if l < 0xFD then [UInt8.ofNat l]
    else if l ≤ 0xFFFF then 0xFD :: littleEndian 2 l
    else 0xFE :: littleEndian 4 l) ++ s

def readFull (n : Nat) (r : Bytes) : Option (Bytes × Bytes) :=
  if n ≤ r.length then some (r.take n, r.drop n) else none

def readNumber (width : Nat) (r : Bytes) : Option (Nat × Bytes) :=
  (readFull width r).map fun (tmp, r) => (ofLittleEndian tmp, r)

def btcReadVarStr : Bytes → Option Bytes
  | [] => none
  | b :: r => do
    let (l, r) ←
      if b = 0xFD then readNumber 2 r
      else if b = 0xFE then readNumber 4 r
      else if b = 0xFF then readNumber 8 r
      else some (b.toNat, r)
    let (s, _) ← readFull l r
    some s

structure Endpoint where
  localAddr : Option TCPAddr
  remoteAddr : Option TCPAddr
  now : Int
  nonce : UInt64

def userAgent (myPub : Bytes) : Bytes := ascii "/bitcoin_bs:pubkey=" ++ myPub ++ ascii "/"

def btcBuildVersion (myPub : Bytes) (conn : Endpoint) : Bytes :=
  littleEndian 4 btcProtocolVer ++ littleEndian 8 (btcServiceNode ||| btcServiceChat) ++
    littleEndian 8 (conn.now % 2 ^ 64).toNat ++ btcAddr conn.remoteAddr ++
    btcAddr conn.localAddr ++ littleEndian 8 conn.nonce.toNat ++
    (btcWriteVarStr (userAgent myPub) ++ (littleEndian 4 0 ++ [0]))

def index (s pat : Bytes) : Option Nat :=
  if pat.isPrefixOf s then some 0
  else match s with
    | [] => none
    | _ :: s => (index s pat).map (· + 1)

def slash : UInt8 := 47

def btcParseVersionPubkey (payload : Bytes) : Bytes :=
  match btcReadVarStr (payload.drop 80) with
  | none => []
  | some ua =>
    match index ua (ascii "pubkey=") with
    | none => []
    | some idx =>
      let p := ua.drop (idx + 7)
      let stop := (p.idxOf? slash).getD p.length
      p.take (if 128 ≤ stop then 128 else stop)

structure BtcMsg where
  command : Bytes
  payload : Bytes

def btcHeader (k : Crypto) (cmd payload : Bytes) : Bytes :=
  littleEndian 4 bitcoinMagic ++ fill btcCmdLen cmd ++
    littleEndian 4 (payload.length % 2 ^ 32) ++
    if 0 < payload.length then (sha256d k payload).take 4 else List.replicate 4 0

def btcWriteMsg (k : Crypto) (cmd payload : Bytes) : Conn Unit := do
  .put (btcHeader k (if btcCmdLen < cmd.length then cmd.take btcCmdLen else cmd) payload)
  if 0 < payload.length then
    .put payload

def hex (n : Nat) : Bytes := (Nat.toDigits 16 n).map fun c => UInt8.ofNat c.toNat

def btcReadBody (k : Crypto) (header : Bytes) : Conn BtcMsg :=
  let magic := ofLittleEndian (slice header 0 4)
  if magic ≠ bitcoinMagic then .fail (ascii "bad magic: " ++ hex magic)
  else
    let cmd := slice header 4 16
    let length := ofLittleEndian (slice header 16 20)
    let chk := slice header 20 24
    if 0 < length then do
      let payload ← .get length
      if chk ≠ (sha256d k payload).take 4 then .fail (ascii "bad checksum")
      else pure ⟨cmd, payload⟩
    else pure ⟨cmd, []⟩

def btcReadMsg (k : Crypto) : Conn BtcMsg := do
  let header ← .get btcHeaderLen
  btcReadBody k header

/-- The handshakes name the message in the errors of sending and of reading it. -/
def send (k : Crypto) (cmd : String) (payload : Bytes) : Conn Unit :=
  context ("send " ++ cmd ++ ": ") (btcWriteMsg k (ascii cmd) payload)

def expect (want : String) (msg : BtcMsg) : Conn BtcMsg :=
  let cmd := msg.command.rdropWhile (· = 0)
  if cmd ≠ ascii want then .fail (ascii ("expected " ++ want ++ ", got ") ++ cmd)
  else pure msg

def receive (k : Crypto) (want : String) : Conn BtcMsg := do
  let msg ← context ("read " ++ want ++ ": ") (btcReadMsg k)
  expect want msg

def clientHandshake (k : Crypto) (conn : Endpoint) (myPub : Bytes) : Conn Bytes := do
  send k "version" (btcBuildVersion myPub conn)
  let msg ← receive k "version"
  let peerPub := btcParseVersionPubkey msg.payload
  send k "verack" []
  let _ ← receive k "verack"
  pure peerPub

def serverHandshake (k : Crypto) (conn : Endpoint) (myPub : Bytes) : Conn Bytes := do
  let msg ← receive k "version"
  let peerPub := btcParseVersionPubkey msg.payload
  send k "version" (btcBuildVersion myPub conn)
  send k "verack" []
  let _ ← receive k "verack"
  pure peerPub

theorem readFull_append {b : Bytes} (len : b.length = n) (r : Bytes) :
    readFull n (b ++ r) = some (b, r) := by
  have there : n ≤ (b ++ r).length := by rw [List.length_append]; omega
  rw [readFull, if_pos there, List.take_left' len, List.drop_left' len]

theorem readNumber_append {width : Nat} (fits : n < 256 ^ width) (r : Bytes) :
    readNumber width (littleEndian width n ++ r) = some (n, r) := by
  have number := ofLittleEndian_littleEndian fits
  simp only [readNumber, readFull_append (littleEndian_length width n), Option.map_some, number]

theorem btcReadVarStr_append {s : Bytes} (short : s.length < 2 ^ 32) (r : Bytes) :
    btcReadVarStr (btcWriteVarStr s ++ r) = some s := by
  have text : readFull s.length (s ++ r) = some (s, r) := readFull_append rfl r
  simp only [btcWriteVarStr, List.append_assoc]
  split_ifs with one two
  · have byte : (UInt8.ofNat s.length).toNat = s.length :=
      UInt8.toNat_ofNat_of_lt' (Nat.lt_trans one (by decide))
    have plain : ∀ b : UInt8, 0xFD ≤ b.toNat → UInt8.ofNat s.length ≠ b := by
      rintro b high rfl
      omega
    simp [btcReadVarStr, plain 0xFD (by decide), plain 0xFE (by decide), plain 0xFF (by decide),
      byte, text]
  · have number := readNumber_append (show s.length < 256 ^ 2 by omega) (s ++ r)
    simp [btcReadVarStr, number, text]
  · have number := readNumber_append (show s.length < 256 ^ 4 by omega) (s ++ r)
    simp [btcReadVarStr, number, text]

theorem index_append {c : UInt8} (other : c ∉ pre) (pat post : Bytes) :
    index (pre ++ (c :: pat ++ post)) (c :: pat) = some pre.length := by
  induction pre with
  | nil =>
    have here : (c :: pat).isPrefixOf (c :: pat ++ post) :=
      List.isPrefixOf_iff_prefix.mpr (List.prefix_append _ _)
    rw [List.nil_append, index.eq_def, if_pos here]
    rfl
  | cons d pre ih =>
    have later : ¬ (c :: pat).isPrefixOf (d :: pre ++ (c :: pat ++ post)) := by grind
    rw [index.eq_def, if_neg later]
    simp only [List.cons_append] at ih ⊢
    rw [ih (List.not_mem_of_not_mem_cons other)]
    rfl

theorem userAgent_eq (myPub : Bytes) :
    userAgent myPub = ascii "/bitcoin_bs:" ++ (ascii "pubkey=" ++ (myPub ++ [slash])) := by
  simp only [userAgent, show ascii "/bitcoin_bs:pubkey=" = ascii "/bitcoin_bs:" ++ ascii "pubkey="
    by decide, show ascii "/" = [slash] by decide, List.append_assoc]

theorem userAgent_length (myPub : Bytes) : (userAgent myPub).length = myPub.length + 20 := by
  have front : (ascii "/bitcoin_bs:").length = 12 := by decide
  have name : (ascii "pubkey=").length = 7 := by decide
  simp only [userAgent_eq, List.length_append, front, name, List.length_singleton]
  omega

theorem btcAddr_length (a : Option TCPAddr) : (btcAddr a).length = 26 := by
  cases a with
  | none => rfl
  | some a => grind [btcAddr, fill, littleEndian_length]

theorem btcParseVersionPubkey_build (plain : slash ∉ myPub) (short : myPub.length ≤ 128)
    (conn : Endpoint) : btcParseVersionPubkey (btcBuildVersion myPub conn) = myPub := by
  have agent : (userAgent myPub).length < 2 ^ 32 := by
    rw [userAgent_length]
    omega
  have read : btcReadVarStr ((btcBuildVersion myPub conn).drop 80) = some (userAgent myPub) := by
    rw [btcBuildVersion, List.drop_left', btcReadVarStr_append agent]
    simp only [List.length_append, littleEndian_length, btcAddr_length]
  have found : index (userAgent myPub) (ascii "pubkey=") = some 12 := by
    rw [userAgent_eq]
    exact index_append (c := 112) (by decide) (ascii "ubkey=") _
  have behind : (userAgent myPub).drop (12 + 7) = myPub ++ [slash] := by
    rw [userAgent_eq, ← List.append_assoc]
    exact List.drop_left' (by decide)
  have stop : (myPub ++ [slash]).idxOf? slash = some myPub.length := by
    rw [List.idxOf?, List.findIdx?_append, ← List.idxOf?, List.idxOf?_eq_none_iff.mpr plain]
    simp
  simp only [btcParseVersionPubkey, read, found, behind, stop, Option.getD_some]
  split_ifs with long
  · exact List.take_left' (by omega)
  · exact List.take_left' rfl

theorem btcBuildVersion_short (short : myPub.length ≤ 128) (conn : Endpoint) :
    (btcBuildVersion myPub conn).length < 2 ^ 32 := by
  have agent := userAgent_length myPub
  have one : (userAgent myPub).length < 0xFD := by omega
  simp only [btcBuildVersion, btcWriteVarStr, if_pos one, List.length_append, littleEndian_length,
    btcAddr_length, List.length_singleton]
  omega

theorem slice_append {low high : Nat} {mid : Bytes} (start : pre.length = low)
    (len : mid.length = high - low) (post : Bytes) :
    slice (pre ++ (mid ++ post)) low high = mid := by
  rw [slice, List.drop_left' start, List.take_left' len]

theorem fill_length (n : Nat) (b : Bytes) : (fill n b).length = n := by
  rw [fill, List.length_append, List.length_take, List.length_replicate]
  omega

section
variable (k : Crypto) (cmd payload : Bytes)

def checksum : Bytes :=
  if 0 < payload.length then (sha256d k payload).take 4 else List.replicate 4 0

theorem checksum_length : (checksum k payload).length = 4 := by
  rw [checksum]
  split_ifs
  · rw [List.length_take, sha256d, k.sha256_length]
    rfl
  · rfl

theorem btcHeader_eq : btcHeader k cmd payload =
    littleEndian 4 bitcoinMagic ++ (fill btcCmdLen cmd ++
      (littleEndian 4 (payload.length % 2 ^ 32) ++ checksum k payload)) := by
  simp only [btcHeader, checksum, List.append_assoc]

theorem btcHeader_length : (btcHeader k cmd payload).length = btcHeaderLen := by
  simp only [btcHeader_eq, List.length_append, littleEndian_length, fill_length, checksum_length,
    btcCmdLen, btcHeaderLen]

end

theorem btcReadBody_header (k : Crypto) (cmd : Bytes) {payload : Bytes}
    (short : payload.length < 2 ^ 32) :
    btcReadBody k (btcHeader k cmd payload) =
      if 0 < payload.length then do
        let got ← .get payload.length
        if (sha256d k payload).take 4 ≠ (sha256d k got).take 4 then .fail (ascii "bad checksum")
        else pure ⟨fill btcCmdLen cmd, got⟩
      else pure ⟨fill btcCmdLen cmd, []⟩ := by
  have number : payload.length % 2 ^ 32 = payload.length := Nat.mod_eq_of_lt short
  have magic : slice (btcHeader k cmd payload) 0 4 = littleEndian 4 bitcoinMagic := by
    rw [btcHeader_eq, slice, List.drop_zero]
    exact List.take_left' rfl
  have command : slice (btcHeader k cmd payload) 4 16 = fill btcCmdLen cmd := by
    rw [btcHeader_eq]
    refine slice_append ?_ ?_ _
    · rfl
    · exact fill_length _ _
  have length : slice (btcHeader k cmd payload) 16 20 = littleEndian 4 payload.length := by
    rw [btcHeader_eq, ← List.append_assoc, number]
    refine slice_append ?_ ?_ _
    · simp only [List.length_append, fill_length, littleEndian_length, btcCmdLen]
    · rfl
  have chk : slice (btcHeader k cmd payload) 20 24 = checksum k payload := by
    rw [btcHeader_eq, ← List.append_assoc, ← List.append_assoc, slice, List.drop_left']
    · exact List.take_of_length_le (checksum_length k payload).le
    · simp only [List.length_append, fill_length, littleEndian_length, btcCmdLen]
  have value : ofLittleEndian (littleEndian 4 payload.length) = payload.length :=
    ofLittleEndian_littleEndian short
  have magicValue : ofLittleEndian (littleEndian 4 bitcoinMagic) = bitcoinMagic :=
    ofLittleEndian_littleEndian (by decide)
  simp only [btcReadBody, magic, command, length, chk, value, magicValue, ne_eq, not_true_eq_false,
    if_false, checksum]
  split_ifs <;> rfl

section
variable {γ : Type} {k : Crypto} {cmd : String} {payload : Bytes} {q : Conn γ} {i o a : Bytes} {c : γ}

def wire (k : Crypto) (cmd : String) (payload : Bytes) : Bytes :=
  btcHeader k (ascii cmd) payload ++ payload

theorem finishing_send {f : Unit → Conn Bytes} (short : (ascii cmd).length ≤ btcCmdLen)
    (rest : Finishing ⟨f (), q, i, o ++ wire k cmd payload⟩ a c) :
    Finishing ⟨send k cmd payload >>= f, q, i, o⟩ a c := by
  have whole : ¬ btcCmdLen < (ascii cmd).length := by omega
  rw [wire, ← List.append_assoc] at rest
  simp only [send, context, btcWriteMsg, if_neg whole, Proc.put_bind, Proc.mapError_write,
    Proc.write_bind]
  apply Finishing.write
  split_ifs with some_
  · exact .write rest
  · rw [List.eq_nil_of_length_eq_zero (Nat.eq_zero_of_not_pos some_)] at rest ⊢
    rwa [List.append_nil] at rest

theorem finishing_receive {f : BtcMsg → Conn Bytes}
    (named : (fill btcCmdLen (ascii cmd)).rdropWhile (· = 0) = ascii cmd)
    (short : payload.length < 2 ^ 32)
    (rest : Finishing ⟨f ⟨fill btcCmdLen (ascii cmd), payload⟩, q, i, o⟩ a c) :
    Finishing ⟨receive k cmd >>= f, q, wire k cmd payload ++ i, o⟩ a c := by
  have due : expect cmd ⟨fill btcCmdLen (ascii cmd), payload⟩ =
      pure ⟨fill btcCmdLen (ascii cmd), payload⟩ := if_neg (not_not.mpr named)
  rw [wire, List.append_assoc]
  simp only [receive, context, btcReadMsg, Proc.get_bind, Proc.mapError_read, Proc.read_bind]
  refine Finishing.read (btcHeader_length k _ payload) ?_
  rw [btcReadBody_header k _ short]
  split_ifs with some_
  · simp only [Proc.get_bind, Proc.mapError_read, Proc.read_bind]
    refine Finishing.read rfl ?_
    rwa [if_neg (not_not.mpr rfl), Proc.mapError_pure, Proc.pure_bind, due, Proc.pure_bind]
  · obtain rfl := List.eq_nil_of_length_eq_zero (Nat.eq_zero_of_not_pos some_)
    rwa [Proc.mapError_pure, Proc.pure_bind, due, Proc.pure_bind]

end

theorem version_named : (fill btcCmdLen (ascii "version")).rdropWhile (· = 0) = ascii "version" := by
  decide

theorem verack_named : (fill btcCmdLen (ascii "verack")).rdropWhile (· = 0) = ascii "verack" := by
  decide

/-- The two handshakes finish with the key of the other side, whatever the order of
their moves and however the streams are cut. -/
theorem handshakes_agree (k : Crypto) (client server : Endpoint) {clientPub serverPub : Bytes}
    (clientPlain : slash ∉ clientPub) (clientShort : clientPub.length ≤ 128)
    (serverPlain : slash ∉ serverPub) (serverShort : serverPub.length ≤ 128) :
    Ends ⟨clientHandshake k client clientPub, serverHandshake k server serverPub, [], []⟩
      serverPub clientPub := by
  have clientVersion := btcParseVersionPubkey_build clientPlain clientShort client
  have serverVersion := btcParseVersionPubkey_build serverPlain serverShort server
  have clientFits := btcBuildVersion_short clientShort client
  have serverFits := btcBuildVersion_short serverShort server
  rw [clientHandshake, serverHandshake]
  apply Finishing.ends
  -- the client's version reaches the server
  refine finishing_send (by decide) ?_
  rw [List.nil_append, ← List.append_nil (wire k "version" _)]
  refine .swap (finishing_receive version_named clientFits ?_)
  rw [clientVersion]
  -- the server sends both of its messages
  refine finishing_send (by decide) (finishing_send (by decide) ?_)
  rw [List.nil_append, ← List.append_nil (wire k "verack" _)]
  -- the client takes them, with its own verack in between
  refine .swap (finishing_receive version_named serverFits ?_)
  rw [serverVersion]
  refine finishing_send (by decide) (finishing_receive verack_named (by decide) ?_)
  -- and the server takes that
  rw [List.nil_append, ← List.append_nil (wire k "verack" _)]
  exact .swap (finishing_receive verack_named (by decide) (.done clientPub serverPub))

theorem keys_exchanged :
    let client : Endpoint := ⟨some ⟨[10, 0, 0, 1], 50000⟩, some ⟨[10, 0, 0, 2], 8333⟩, 1700000000, 1⟩
    let server : Endpoint := ⟨none, none, 1700000001, 2⟩
    Ends ⟨clientHandshake onesCrypto client (ascii "02ab"),
        serverHandshake onesCrypto server (ascii "03cd"), [], []⟩ (ascii "03cd") (ascii "02ab") :=
  handshakes_agree onesCrypto _ _ (by decide) (by decide) (by decide) (by decide)

end Fedboot
