import Toxera.Fedkey.Identifiers
import Toxera.Relayhub.Identify

/-!
# Peer ids of the relay hub and of the keyring

Both write a multihash of the same marshalled key in base 58.
-/

namespace PeerIds

open BaseEncoding Fedkey

theorem mapM_spell {alphabet : List UInt8} {digits : List Nat}
    (small : ∀ d ∈ digits, d < alphabet.length) :
    digits.mapM (fun d => alphabet[d]?) = some (spell alphabet digits) := by
  refine Relayhub.mapM_eq_map fun d hd => ?_
  have inside := small d hd
  rw [List.getElem?_eq_getElem inside, List.getD_eq_getElem _ _ inside]

theorem base58Encode_eq (data : Bytes) :
    Relayhub.base58Encode data = some (Go.base58Encode data) := by
  unfold Relayhub.base58Encode
  split_ifs with empty
  · rw [List.length_eq_zero_iff.mp empty, Go.base58Encode, base58]
    simp [value, spell]
  · have digits : (Nat.digits 58 (value data)).mapM (fun d => base58Alphabet[d]?) =
        some (spell base58Alphabet (Nat.digits 58 (value data))) :=
      mapM_spell fun d hd => by
        rw [base58Alphabet_length]
        exact Nat.digits_lt_base (by decide) hd
    have zeros : (data.takeWhile (· = 0)).mapM (fun _ => base58Alphabet[0]?) =
        some (spell base58Alphabet ((data.takeWhile (· = 0)).map fun _ => 0)) := by
      rw [← mapM_spell fun d hd => ?_]
      · rw [List.mapM_map]
        rfl
      · grind [base58Alphabet_length]
    show Option.bind (List.mapM (fun d => base58Alphabet[d]?) (Nat.digits 58 (value data))) _ = _
    rw [digits, Option.bind_some]
    show Option.map _ (List.mapM (fun _ => base58Alphabet[0]?) (data.takeWhile (· = 0))) = _
    rw [zeros, Option.map_some, Go.base58Encode, base58, spell, spell, ← List.map_append]
    rfl

theorem libp2pPeerID_head (k : Crypto) (seed : Bytes) :
    (Go.libp2pPeerID k seed 0).head? = some (base58Alphabet.getD 0 0) := by
  have short : (Go.protoVarintField 1 1 ++ Go.protoLenDelim 2 (k.ed25519Pub seed)).length ≤ 42 := by
    rw [Go.protoVarintField, Go.protoLenDelim, k.ed25519Pub_length,
      protoVarint_small (by decide), protoVarint_small (by decide), protoVarint_small (by decide),
      protoVarint_small (by decide)]
    simp [k.ed25519Pub_length]
  rw [Go.libp2pPeerID, if_pos rfl, Go.peerID, if_pos short, Go.multihashEncode,
    protoVarint_small (by decide : 0x00 ≤ 127), List.append_assoc]
  exact base58_zero_head ..

theorem multihash_ne (k : Crypto) (seed hash : Bytes) :
    Relayhub.base58Encode ([0x12, 0x20] ++ hash) ≠ some (Go.libp2pPeerID k seed 0) := by
  rw [base58Encode_eq]
  intro same
  obtain ⟨d, nonzero, small, head⟩ :=
    base58_head (show (0x12 : UInt8) ≠ 0 by decide) base58Alphabet (0x20 :: hash)
  have texts := congrArg List.head? (Option.some.inj same)
  rw [libp2pPeerID_head] at texts
  exact nonzero (base58Alphabet_getD_inj small (by decide) (Option.some.inj (head.symm.trans texts)))

/-- For every key and every message, neither peer id of the hub is the one of the keyring. -/
theorem peer_ids_never_agree (k : Crypto) (seed data : Bytes) :
    Relayhub.base58Encode (Relayhub.computePeerID k.sha256 (k.ed25519Pub seed)) ≠
      some (Go.libp2pPeerID k seed 0) ∧
    (Relayhub.parseIdentify k.sha256 data).map Relayhub.IdentifyInfo.peerID ≠
      some (Go.libp2pPeerID k seed 0) := by
  refine ⟨multihash_ne k seed _, fun same => ?_⟩
  obtain ⟨info, run, id⟩ := Option.map_eq_some_iff.mp same
  rcases Relayhub.parseIdentify_multihash run with empty | ⟨hash, encoded⟩
  · have text := libp2pPeerID_head k seed
    rw [← id, empty] at text
    cases text
  · exact multihash_ne k seed hash (id ▸ encoded)

/-- The texts for a key of ones, and for an identify message with that key. -/
theorem ones_peer_ids :
    let pub := onesCrypto.ed25519Pub []
    let message := [0x0a, 36] ++ Relayhub.marshalled pub
    Relayhub.base58Encode (Relayhub.computePeerID onesCrypto.sha256 pub) =
      some (ascii "QmNQa1FSTXNHmrjjfgUW3Px3Vkke4oKiFWdigWkYSux2Pi") ∧
    (Relayhub.parseIdentify onesCrypto.sha256 message).map Relayhub.IdentifyInfo.peerID =
      some (ascii "QmNQa1FSTXNHmrjjfgUW3Px3Vkke4oKiFWdigWkYSux2Pi") ∧
    Go.libp2pPeerID onesCrypto [] 0 =
      ascii "12D3KooW9tHTtS3inCZiYykw4u5G4frbjVFqhkmJX12gSNCVeH3e" := by
  decide +kernel

end PeerIds
