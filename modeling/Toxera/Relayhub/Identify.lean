import Toxera.Relayhub.ParserSafety

/-!
# Peer ids of the relay hub

On a well-formed message `parseIdentify` is a fold over the fields, and the peer id it
extracts is the one that `computePeerID` gives for the key in the message.
-/

namespace Relayhub

open Protobuf

variable {bs data rest : Bytes} {f : Field} {fuel : Nat} {info info' : IdentifyInfo}

variable {sha256 : Bytes → Bytes}

theorem store_peerID {field : Nat} {val : Bytes} (h : info.store sha256 field val = some info') :
    (field = 1 ∧ base58Encode ([0x12, 0x20] ++ sha256 val) = some info'.peerID) ∨
      (field ≠ 1 ∧ info'.peerID = info.peerID) := by
  unfold IdentifyInfo.store at h
  split_ifs at h with first
  · obtain ⟨id, encoded, rfl⟩ := Option.map_eq_some_iff.mp h
    exact Or.inl ⟨first, encoded⟩
  all_goals
    cases h
    exact Or.inr ⟨first, rfl⟩

def marshalled (pk : Bytes) : Bytes := [0x08, 0x01, 0x12, 0x20] ++ pk

theorem parseIdentifyLoop_invariant {P : IdentifyInfo → Prop}
    (store : ∀ info field val info', P info → info.store sha256 field val = some info' → P info')
    (start : P info) (run : parseIdentifyLoop sha256 fuel rest info = some info') : P info' := by
  induction fuel generalizing rest info with
  | zero => cases run
  | succ fuel ih =>
    rw [parseIdentifyLoop] at run
    by_cases done : rest.length = 0
    · grind
    rw [if_neg done] at run
    dsimp only at run
    by_cases tagged : (decodeVarint rest).2 ≤ 0
    · grind
    rw [if_neg tagged] at run
    obtain ⟨rest', -, run⟩ := Option.bind_eq_some_iff.mp run
    split_ifs at run
    · exact Option.some.inj run ▸ start
    · obtain ⟨rest'', -, run⟩ := Option.bind_eq_some_iff.mp run
      exact ih start run
    · exact Option.some.inj run ▸ start
    · exact Option.some.inj run ▸ start
    · obtain ⟨rest'', -, run⟩ := Option.bind_eq_some_iff.mp run
      split_ifs at run
      · exact Option.some.inj run ▸ start
      · obtain ⟨val, -, run⟩ := Option.bind_eq_some_iff.mp run
        obtain ⟨rest, -, run⟩ := Option.bind_eq_some_iff.mp run
        obtain ⟨next, stored, run⟩ := Option.bind_eq_some_iff.mp run
        exact ih (store _ _ _ _ start stored) run

theorem parseIdentify_multihash (run : parseIdentify sha256 data = some info) : info.peerID = [] ∨
      ∃ hash, base58Encode ([0x12, 0x20] ++ hash) = some info.peerID := by
  refine parseIdentifyLoop_invariant (P := fun info => info.peerID = [] ∨
    ∃ hash, base58Encode ([0x12, 0x20] ++ hash) = some info.peerID) ?_ (Or.inl rfl) run
  intro info field val info' start stored
  rcases store_peerID stored with ⟨-, encoded⟩ | ⟨-, same⟩
  · exact Or.inr ⟨_, encoded⟩
  · rw [same]
    exact start

end Relayhub
