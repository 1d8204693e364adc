import Toxera.GoTox.Handshake
import Toxera.Mintox.SecureConn
import Toxera.Mintox.TcpClient

/-!
# The handshake across the three implementations

Both clients send their public key and then an offer: a nonce, and under it the sealed
pair of a fresh public key and the nonce they will send with.
-/

namespace HandshakeAgreement

open CryptoCore

def offer (B : Box) (key : CryptoKey) (nonce : CBNonce) (tempSeckey : CryptoKey)
    (sentNonce : CBNonce) : Bytes :=
  nonce.val ++ B.sealBox key nonce ((B.pubkey tempSeckey).val ++ sentNonce.val)

variable {B : Box}

theorem key_take (k : CryptoKey) (rest : Bytes) : (k.val ++ rest).take publicKeySize = k.val :=
  List.take_left' k.property

theorem key_drop (k : CryptoKey) (rest : Bytes) : (k.val ++ rest).drop publicKeySize = rest :=
  List.drop_left' k.property

theorem nonce_take (n : CBNonce) (rest : Bytes) : (n.val ++ rest).take nonceSize = n.val :=
  List.take_left' n.property

theorem nonce_drop (n : CBNonce) (rest : Bytes) : (n.val ++ rest).drop nonceSize = rest :=
  List.drop_left' n.property

theorem plain_length (k : CryptoKey) (n : CBNonce) :
    (k.val ++ n.val).length = publicKeySize + nonceSize := by
  rw [List.length_append, k.property, n.property]

theorem offer_length (law : B.Lawful) (key : CryptoKey) (nonce : CBNonce) (sk : CryptoKey)
    (sent : CBNonce) : (offer B key nonce sk sent).length = 96 := by
  rw [offer, List.length_append, law.seal_length, plain_length, nonce.property]
  rfl

theorem hello_length (law : B.Lawful) (k key : CryptoKey) (nonce : CBNonce) (sk : CryptoKey)
    (sent : CBNonce) : (k.val ++ offer B key nonce sk sent).length = 128 := by
  rw [List.length_append, offer_length law, k.property]
  rfl

theorem server_answers (law : B.Lawful) (rnd : SecureConn.HandshakeRandom)
    (c : SecureConn.TCPSecureConn) (cliPubkey : CryptoKey) (nonce : CBNonce)
    (tempSeckey : CryptoKey) (sentNonce : CBNonce) :
    SecureConn.handleHandshake B rnd c (cliPubkey.val ++
        offer B (B.precompute cliPubkey c.seckey) nonce tempSeckey sentNonce) =
      some ({ c with
          pubkey := some cliPubkey
          shrkey := some (B.precompute (B.pubkey tempSeckey) rnd.tmpSeckey)
          recvNonce := some sentNonce
          sentNonce := some rnd.sentNonce },
        offer B (B.precompute cliPubkey c.seckey) rnd.srvTmpNonce rnd.tmpSeckey
          rnd.sentNonce) := by
  have body : (cliPubkey.val ++ offer B (B.precompute cliPubkey c.seckey) nonce tempSeckey
      sentNonce).drop (publicKeySize + nonceSize) = B.sealBox (B.precompute cliPubkey c.seckey)
        nonce ((B.pubkey tempSeckey).val ++ sentNonce.val) := by
    rw [← List.drop_drop, key_drop, offer, nonce_drop]
  have last : sentNonce.val.take nonceSize = sentNonce.val :=
    List.take_of_length_le sentNonce.property.le
  simp only [SecureConn.handleHandshake, body, key_take, key_drop]
  simp [offer, nonce_take, key_take, key_drop, last, decrypt_lawful law, encrypt_lawful law]

theorem mintox_offers (law : B.Lawful) (rnd : TcpClient.HandshakeRandom)
    (c : TcpClient.TCPClient) :
    TcpClient.generateHandshake B rnd c =
      some ({ c with
          tempSeckey := some rnd.tempSeckey
          sentNonce := some rnd.sentNonce
          tempNonce := some rnd.tempNonce },
        c.selfPubkey.val ++ offer B c.shrkey rnd.tempNonce rnd.tempSeckey rnd.sentNonce) := by
  have length := plain_length (B.pubkey rnd.tempSeckey) rnd.sentNonce
  simp only [TcpClient.generateHandshake, length, encrypt_lawful law, decrypt_lawful law,
    law.seal_length, Option.bind_some]
  simp [offer, law.seal_length, c.selfPubkey.property, rnd.tempNonce.property,
    (B.pubkey rnd.tempSeckey).property, rnd.sentNonce.property, publicKeySize, nonceSize, macSize]

theorem mintox_accepts (law : B.Lawful) {c : TcpClient.TCPClient} {sk : CryptoKey}
    (temp : c.tempSeckey = some sk) (nonce : CBNonce) (tmpSeckey : CryptoKey)
    (sentNonce : CBNonce) :
    TcpClient.handleHandshake B c (offer B c.shrkey nonce tmpSeckey sentNonce) =
      some { c with
        recvNonce := some sentNonce
        shrkey := B.precompute (B.pubkey tmpSeckey) sk
        tempSeckey := none } := by
  simp [TcpClient.handleHandshake, offer, nonce_take, nonce_drop, key_take, key_drop,
    decrypt_lawful law, temp]

theorem keyOfBytes_val (k : CryptoKey) : GoTox.keyOfBytes k.val = k := by
  apply Subtype.ext
  have := GoTox.copyAt_zeros [] k.val 32 k.property.le
  simpa [GoTox.keyOfBytes, k.property, publicKeySize, GoTox.zeros] using this

theorem nonceOfBytes_val (n : CBNonce) : GoTox.nonceOfBytes n.val = n := by
  apply Subtype.ext
  have := GoTox.copyAt_zeros [] n.val 24 n.property.le
  simpa [GoTox.nonceOfBytes, n.property, nonceSize, GoTox.zeros] using this

theorem gotox_plain (k : CryptoKey) (n : CBNonce) :
    GoTox.copyAt (GoTox.copyAt (GoTox.zeros GoTox.handshakePlainSize) 0 k.val)
      GoTox.publicKeySize n.val = k.val ++ n.val := by
  have hk : k.val.length = 32 := k.property
  have hn : n.val.length = 24 := n.property
  have first := GoTox.copyAt_zeros [] k.val 56 (by omega)
  have second := GoTox.copyAt_zeros k.val n.val 24 (by omega)
  simp only [List.nil_append, List.length_nil, hk] at first
  simp only [hk, hn] at second
  rw [show GoTox.handshakePlainSize = 56 from rfl, first, show GoTox.publicKeySize = 32 from rfl,
    second]
  simp [GoTox.zeros]

theorem gotox_packet (k : CryptoKey) (n : CBNonce) (enc : Bytes) (henc : enc.length = 72) :
    GoTox.copyAt (GoTox.copyAt (GoTox.copyAt (GoTox.zeros GoTox.clientHandshakeSize) 0 k.val)
      GoTox.publicKeySize n.val) (GoTox.publicKeySize + GoTox.nonceSize) enc =
      k.val ++ (n.val ++ enc) := by
  have hk : k.val.length = 32 := k.property
  have hn : n.val.length = 24 := n.property
  have first := GoTox.copyAt_zeros [] k.val 128 (by omega)
  have second := GoTox.copyAt_zeros k.val n.val 96 (by omega)
  have third := GoTox.copyAt_zeros (k.val ++ n.val) enc 72 (by omega)
  simp only [List.nil_append, List.length_nil, hk] at first
  simp only [hk, hn] at second
  simp only [List.length_append, hk, hn, henc] at third
  rw [show GoTox.clientHandshakeSize = 128 from rfl, first,
    show GoTox.publicKeySize = 32 from rfl, second,
    show 32 + GoTox.nonceSize = 32 + 24 from rfl, third]
  simp [GoTox.zeros]

theorem gotox_offers (law : B.Lawful) (sk : CryptoKey) (sn init : CBNonce)
    (hs : GoTox.HandshakeState) :
    GoTox.generateClientPacket B (.ok sk) sn init hs =
      .ok ({ hs with tempPK := B.pubkey sk, tempSK := sk, sentNonce := sn, initNonce := init },
        hs.selfPK.val ++ offer B hs.initShr init sk sn) := by
  have sealed : (B.sealBox hs.initShr init ((B.pubkey sk).val ++ sn.val)).length = 72 := by
    rw [law.seal_length, plain_length]
    rfl
  simp only [GoTox.generateClientPacket, Except.map, gotox_plain, gotox_packet _ _ _ sealed, offer]

theorem gotox_accepts (law : B.Lawful) (hs : GoTox.HandshakeState) (nonce : CBNonce)
    (tmpSeckey : CryptoKey) (sentNonce : CBNonce) :
    GoTox.handleServerResponse B hs (offer B hs.initShr nonce tmpSeckey sentNonce) =
      some (.ok (B.precompute (B.pubkey tmpSeckey) hs.tempSK, sentNonce)) := by
  have length := offer_length law hs.initShr nonce tmpSeckey sentNonce
  have whole : (offer B hs.initShr nonce tmpSeckey sentNonce).take GoTox.serverHandshakeSize =
      offer B hs.initShr nonce tmpSeckey sentNonce :=
    List.take_of_length_le length.le
  have nonce' : (offer B hs.initShr nonce tmpSeckey sentNonce).take GoTox.nonceSize = nonce.val :=
    nonce_take nonce _
  have body : (offer B hs.initShr nonce tmpSeckey sentNonce).drop GoTox.nonceSize =
      B.sealBox hs.initShr nonce ((B.pubkey tmpSeckey).val ++ sentNonce.val) :=
    nonce_drop nonce _
  have key : ((B.pubkey tmpSeckey).val ++ sentNonce.val).take GoTox.publicKeySize =
      (B.pubkey tmpSeckey).val := key_take _ _
  have rest : ((B.pubkey tmpSeckey).val ++ sentNonce.val).drop GoTox.publicKeySize =
      sentNonce.val := key_drop _ _
  have long : ¬ ((B.pubkey tmpSeckey).val ++ sentNonce.val).length < GoTox.publicKeySize := by
    rw [plain_length]
    decide
  have enough : ¬ (offer B hs.initShr nonce tmpSeckey sentNonce).length <
      GoTox.serverHandshakeSize := by
    rw [length]
    decide
  simp only [GoTox.handleServerResponse, if_neg enough, whole, nonce', body, nonceOfBytes_val,
    law.open_seal, if_neg long, key, rest, keyOfBytes_val]

/-- With either client, both ends hold one session key and each receives with the
nonce the other sends with. -/
theorem handshake_agrees (law : B.Lawful) (servSeckey selfSeckey : CryptoKey)
    (srv : SecureConn.HandshakeRandom) :
    (∀ rnd : TcpClient.HandshakeRandom, ∃ c pkt s answer c',
      TcpClient.generateHandshake B rnd (TcpClient.newTCPClient B (B.pubkey servSeckey)
        (B.pubkey selfSeckey) selfSeckey) = some (c, pkt) ∧ pkt.length = 128 ∧
      SecureConn.handleHandshake B srv (SecureConn.newTCPSecureConn servSeckey) pkt =
        some (s, answer) ∧ answer.length = 96 ∧
      TcpClient.handleHandshake B c answer = some c' ∧
      s.shrkey = some c'.shrkey ∧
      (∃ nonce, c'.recvNonce = some nonce ∧ s.sentNonce = some nonce) ∧
      ∃ nonce, c'.sentNonce = some nonce ∧ s.recvNonce = some nonce) ∧
    ∀ (sk : CryptoKey) (sn init : CBNonce), ∃ hs pkt s answer r,
      GoTox.generateClientPacket B (.ok sk) sn init (GoTox.newHandshakeState B
        (B.pubkey servSeckey) (B.pubkey selfSeckey) selfSeckey) = .ok (hs, pkt) ∧
      pkt.length = 128 ∧
      SecureConn.handleHandshake B srv (SecureConn.newTCPSecureConn servSeckey) pkt =
        some (s, answer) ∧ answer.length = 96 ∧
      GoTox.handleServerResponse B hs answer = some (.ok r) ∧
      s.shrkey = some (GoTox.connected hs r).shrkey ∧
      s.sentNonce = some (GoTox.connected hs r).recvNonce ∧
      s.recvNonce = some (GoTox.connected hs r).sentNonce := by
  -- the key that seals both offers is known to both ends
  have first : B.precompute (B.pubkey selfSeckey) (SecureConn.newTCPSecureConn servSeckey).seckey =
      B.precompute (B.pubkey servSeckey) selfSeckey := law.shared selfSeckey servSeckey
  refine ⟨?_, ?_⟩
  · intro rnd
    have offered := mintox_offers law rnd (TcpClient.newTCPClient B (B.pubkey servSeckey)
      (B.pubkey selfSeckey) selfSeckey)
    have answered := server_answers law srv (SecureConn.newTCPSecureConn servSeckey)
      (B.pubkey selfSeckey) rnd.tempNonce rnd.tempSeckey rnd.sentNonce
    rw [first] at answered
    refine ⟨_, _, _, _, _, offered, hello_length law _ _ _ _ _, answered,
      offer_length law _ _ _ _, mintox_accepts law rfl _ _ _, ?_, ⟨_, rfl, rfl⟩, ⟨_, rfl, rfl⟩⟩
    exact congrArg some (law.shared rnd.tempSeckey srv.tmpSeckey)
  · intro sk sn init
    have offered := gotox_offers law sk sn init (GoTox.newHandshakeState B (B.pubkey servSeckey)
      (B.pubkey selfSeckey) selfSeckey)
    have answered := server_answers law srv (SecureConn.newTCPSecureConn servSeckey)
      (B.pubkey selfSeckey) init sk sn
    rw [first] at answered
    refine ⟨_, _, _, _, _, offered, hello_length law _ _ _ _ _, answered,
      offer_length law _ _ _ _, gotox_accepts law _ _ _ _, ?_, rfl, rfl⟩
    exact congrArg some (law.shared sk srv.tmpSeckey)

/-- A handshake through the box without secrets, all keys and nonces made of one
byte each. -/
theorem handshake_agrees_plainBox :
    ∃ c pkt s answer c', TcpClient.generateHandshake plainBox
        ⟨keyOf 3, nonceOf 4, nonceOf 5⟩
        (TcpClient.newTCPClient plainBox (keyOf 1) (keyOf 2) (keyOf 2)) = some (c, pkt) ∧
      SecureConn.handleHandshake plainBox
        ⟨nonceOf 6, nonceOf 7, keyOf 8⟩
        (SecureConn.newTCPSecureConn (keyOf 1)) pkt = some (s, answer) ∧
      TcpClient.handleHandshake plainBox c answer = some c' ∧ s.shrkey = some c'.shrkey := by
  obtain ⟨c, pkt, s, answer, c', offered, -, answered, -, accepted, key, -⟩ :=
    (handshake_agrees plainBox_lawful (keyOf 1) (keyOf 2)
      ⟨nonceOf 6, nonceOf 7, keyOf 8⟩).1
      ⟨keyOf 3, nonceOf 4, nonceOf 5⟩
  exact ⟨c, pkt, s, answer, c', offered, answered, accepted, key⟩

end HandshakeAgreement
