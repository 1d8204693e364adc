import Toxera.Mintox.Datagrams

/-!
# Cached shared keys

A node derives the key that it shares with a peer once and keeps it: `GetSharedKey` of
`mintox/dht.go` has one map for packets received, one for packets sent, and the announce
handler has a map of its own.
-/

namespace Dht

open CryptoCore Exec

structure SharedKey where
  pubkey : CryptoKey
  shrkey : CryptoKey
  timesRequested : UInt32

abbrev SharedKeys := CryptoKey → Option SharedKey

/-- The keys of a node and its three maps, the last one of the announce handler. -/
structure KeyedNode where
  selfPubkey : CryptoKey
  selfSeckey : CryptoKey
  sharedKeysRecv : SharedKeys
  sharedKeysSent : SharedKeys
  announceKeysRecv : SharedKeys

inductive Cache where
  | recv | sent | announce
  deriving DecidableEq

inductive KeyEvent where
  | setKeyPair (pk sk : CryptoKey)
  | lookup (c : Cache) (pubkey : CryptoKey)

variable {c : Cache} {es : List KeyEvent} {k pubkey selfPubkey selfSeckey : CryptoKey}
  {m n : KeyedNode}

namespace KeyedNode

def new (selfPubkey selfSeckey : CryptoKey) : KeyedNode :=
  ⟨selfPubkey, selfSeckey, fun _ => none, fun _ => none, fun _ => none⟩

def setKeyPair (n : KeyedNode) (pk sk : CryptoKey) : KeyedNode :=
  { n with selfPubkey := pk, selfSeckey := sk }

variable (B : Box)

def getSharedKey (n : KeyedNode) (shrkeys : SharedKeys) (pubkey : CryptoKey) :
    CryptoKey × SharedKeys :=
  match shrkeys pubkey with
  | some shrkeyo => (shrkeyo.shrkey, shrkeys)
  | none =>
    let shrkey := B.precompute pubkey n.selfSeckey
    (shrkey, Function.update shrkeys pubkey (some ⟨pubkey, shrkey, 1⟩))

def getSharedKeyRecv (n : KeyedNode) (pubkey : CryptoKey) : CryptoKey × KeyedNode :=
  let r := n.getSharedKey B n.sharedKeysRecv pubkey
  (r.1, { n with sharedKeysRecv := r.2 })

def getSharedKeySent (n : KeyedNode) (pubkey : CryptoKey) : CryptoKey × KeyedNode :=
  let r := n.getSharedKey B n.sharedKeysSent pubkey
  (r.1, { n with sharedKeysSent := r.2 })

def announceSharedKey (n : KeyedNode) (pktpk : CryptoKey) : CryptoKey × KeyedNode :=
  let r := n.getSharedKey B n.announceKeysRecv pktpk
  (r.1, { n with announceKeysRecv := r.2 })

def lookup (n : KeyedNode) : Cache → CryptoKey → CryptoKey × KeyedNode
  | .recv, pubkey => n.getSharedKeyRecv B pubkey
  | .sent, pubkey => n.getSharedKeySent B pubkey
  | .announce, pubkey => n.announceSharedKey B pubkey

def next (n : KeyedNode) : KeyEvent → Option KeyedNode
  | .setKeyPair pk sk => some (n.setKeyPair pk sk)
  | .lookup c pubkey => some (n.lookup B c pubkey).2

def Transparent (n : KeyedNode) : KeyEvent → Prop
  | .setKeyPair _ _ => True
  | .lookup c pubkey => (n.lookup B c pubkey).1 = B.precompute pubkey n.selfSeckey

def cached (n : KeyedNode) : Cache → CryptoKey → Option CryptoKey
  | .recv, pubkey => (n.sharedKeysRecv pubkey).map SharedKey.shrkey
  | .sent, pubkey => (n.sharedKeysSent pubkey).map SharedKey.shrkey
  | .announce, pubkey => (n.announceKeysRecv pubkey).map SharedKey.shrkey

variable {B}

theorem getSharedKey_fst (n : KeyedNode) (shrkeys : SharedKeys) (pubkey : CryptoKey) :
    (n.getSharedKey B shrkeys pubkey).1 =
      ((shrkeys pubkey).map SharedKey.shrkey).getD (B.precompute pubkey n.selfSeckey) := by
  unfold getSharedKey
  split <;> simp [*]

theorem getSharedKey_snd (n : KeyedNode) (shrkeys : SharedKeys) (pubkey k : CryptoKey) :
    ((n.getSharedKey B shrkeys pubkey).2 k).map SharedKey.shrkey =
      if k = pubkey then some (n.getSharedKey B shrkeys pubkey).1
      else (shrkeys k).map SharedKey.shrkey := by
  unfold getSharedKey
  split
  · split_ifs with same
    · simp [*]
    · rfl
  · split_ifs with same
    · simp [same]
    · simp [Function.update_of_ne same]

theorem lookup_fst (n : KeyedNode) (c : Cache) (pubkey : CryptoKey) :
    (n.lookup B c pubkey).1 = (n.cached c pubkey).getD (B.precompute pubkey n.selfSeckey) := by
  cases c <;> exact getSharedKey_fst n _ pubkey

theorem lookup_selfSeckey (n : KeyedNode) (c : Cache) (pubkey : CryptoKey) :
    (n.lookup B c pubkey).2.selfSeckey = n.selfSeckey := by
  cases c <;> rfl

theorem lookup_cached_self (n : KeyedNode) (c : Cache) (pubkey : CryptoKey) :
    (n.lookup B c pubkey).2.cached c pubkey = some (n.lookup B c pubkey).1 := by
  cases c <;> exact (getSharedKey_snd n _ pubkey pubkey).trans (if_pos rfl)

theorem lookup_cached_other (n : KeyedNode) {c' : Cache} (other : ¬ (c' = c ∧ k = pubkey)) :
    (n.lookup B c pubkey).2.cached c' k = n.cached c' k := by
  by_cases same : c' = c
  · subst same
    have ne : k ≠ pubkey := fun h => other ⟨rfl, h⟩
    cases c' <;> exact (getSharedKey_snd n _ pubkey k).trans (if_neg ne)
  · cases c <;> cases c' <;> first | rfl | exact absurd rfl same

theorem cached_next {e : KeyEvent} (step : n.next B e = some m) (held : n.cached c pubkey = some k) :
    m.cached c pubkey = some k := by
  cases e with
  | setKeyPair pk sk =>
    cases step
    cases c <;> exact held
  | lookup c' pubkey' =>
    cases step
    by_cases same : c = c' ∧ pubkey = pubkey'
    · obtain ⟨rfl, rfl⟩ := same
      rw [lookup_cached_self, lookup_fst, held, Option.getD_some]
    · rw [lookup_cached_other n same, held]

def seckeyAfter (sk : CryptoKey) : List KeyEvent → CryptoKey
  | [] => sk
  | .setKeyPair _ sk' :: es => seckeyAfter sk' es
  | .lookup _ _ :: es => seckeyAfter sk es

theorem selfSeckey_of_run (run : exec (next B) n es = some m) :
    m.selfSeckey = seckeyAfter n.selfSeckey es := by
  induction es generalizing n with
  | nil => exact congrArg selfSeckey (Option.some.inj run).symm
  | cons e es ih =>
    obtain ⟨n', first, rest⟩ := exec_cons_iff.mp run
    rw [ih rest]
    cases e with
    | setKeyPair pk sk =>
      cases first
      rfl
    | lookup c pubkey =>
      cases first
      rw [lookup_selfSeckey, seckeyAfter]

theorem calls_return (n : KeyedNode) (es : List KeyEvent) : ∃ m, exec (next B) n es = some m := by
  induction es generalizing n with
  | nil => exact ⟨n, rfl⟩
  | cons e es ih =>
    cases e with
    | setKeyPair pk sk => exact ih (n.setKeyPair pk sk)
    | lookup c pubkey => exact ih (n.lookup B c pubkey).2

theorem cached_derived (run : exec (next B) (new selfPubkey selfSeckey) es = some m) (c : Cache)
    (pubkey k : CryptoKey) (held : m.cached c pubkey = some k) :
    ∃ pre mid, es = pre ++ .lookup c pubkey :: mid ∧
      k = B.precompute pubkey (seckeyAfter selfSeckey pre) := by
  refine exec_history
    (P := fun es m => ∀ k, m.cached c pubkey = some k → ∃ pre mid,
      es = pre ++ .lookup c pubkey :: mid ∧ k = B.precompute pubkey (seckeyAfter selfSeckey pre))
    ?_ ?_ run k held
  · intro k held
    cases c <;> cases held
  · intro es n e m before earlier step k held
    by_cases old : n.cached c pubkey = some k
    · grind
    · cases e with
      | setKeyPair pk sk =>
        cases step
        exact absurd (by cases c <;> exact held) old
      | lookup c' pubkey' =>
        cases step
        by_cases same : c = c' ∧ pubkey = pubkey'
        · obtain ⟨rfl, rfl⟩ := same
          refine ⟨es, [], rfl, ?_⟩
          rw [lookup_cached_self, lookup_fst, Option.some.injEq] at held
          cases found : n.cached c pubkey with
          | none => rw [← held, found, Option.getD_none, selfSeckey_of_run before]; rfl
          | some k' => exact absurd (by rw [← held, found, Option.getD_some]) old
        · rw [lookup_cached_other n same] at held
          exact absurd held old

/-- Every lookup returns the key that belongs to the secret key of the node exactly when all
lookups of a peer in one map are made while the secret keys give one shared key. -/
theorem cached_keys_current_iff (B : Box) (selfPubkey selfSeckey : CryptoKey)
    (es : List KeyEvent) :
    Along (next B) (Transparent B) (new selfPubkey selfSeckey) es ↔
      ∀ c pubkey pre mid post,
        es = pre ++ .lookup c pubkey :: (mid ++ .lookup c pubkey :: post) →
        B.precompute pubkey (seckeyAfter selfSeckey (pre ++ .lookup c pubkey :: mid)) =
          B.precompute pubkey (seckeyAfter selfSeckey pre) := by
  constructor
  · intro clear c pubkey pre mid post cut
    obtain ⟨n, before⟩ := calls_return (B := B) (new selfPubkey selfSeckey) pre
    obtain ⟨m, between⟩ := calls_return (B := B) (n.lookup B c pubkey).2 mid
    have whole : exec (next B) (new selfPubkey selfSeckey) (pre ++ .lookup c pubkey :: mid) =
        some m := exec_append_iff.mpr ⟨n, before, exec_cons_iff.mpr ⟨_, rfl, between⟩⟩
    -- the first of the two lookups leaves its key in the map
    have held : m.cached c pubkey = some (n.lookup B c pubkey).1 :=
      exec_invariant (P := fun m => m.cached c pubkey = some (n.lookup B c pubkey).1)
        (fun _ _ _ held step => cached_next step held) (lookup_cached_self n c pubkey) between
    have first : (n.lookup B c pubkey).1 = B.precompute pubkey n.selfSeckey :=
      clear pre _ _ n cut before
    have second : (m.lookup B c pubkey).1 = B.precompute pubkey m.selfSeckey :=
      clear (pre ++ .lookup c pubkey :: mid) (.lookup c pubkey) post m (by simp [cut]) whole
    rw [lookup_fst, held, Option.getD_some, first, selfSeckey_of_run before,
      selfSeckey_of_run whole] at second
    exact second.symm
  · intro same pre e post n cut before
    cases e with
    | setKeyPair pk sk => trivial
    | lookup c pubkey =>
      show (n.lookup B c pubkey).1 = B.precompute pubkey n.selfSeckey
      rw [lookup_fst]
      cases held : n.cached c pubkey with
      | none => rfl
      | some k =>
        obtain ⟨front, mid, rfl, derived⟩ := cached_derived before c pubkey k held
        rw [Option.getD_some, derived, selfSeckey_of_run before]
        exact (same c pubkey front mid post (by simp [cut])).symm

/-- The node looks up a peer, takes a new pair of keys and looks up the peer again. -/
def relookup (c : Cache) : Option CryptoKey :=
  (exec (next plainBox) (new (keyOf 1) (keyOf 1))
    [.lookup c (keyOf 3), .setKeyPair (keyOf 2) (keyOf 2)]).map fun n =>
      (n.lookup plainBox c (keyOf 3)).1

/-- For a packet that it sends or receives and for an announce, it gets the old key. -/
theorem stale_key_returned :
    relookup .recv = some (plainBox.precompute (keyOf 3) (keyOf 1)) ∧
    relookup .sent = some (plainBox.precompute (keyOf 3) (keyOf 1)) ∧
    relookup .announce = some (plainBox.precompute (keyOf 3) (keyOf 1)) ∧
    plainBox.precompute (keyOf 3) (keyOf 1) ≠ plainBox.precompute (keyOf 3) (keyOf 2) := by
  decide +kernel

end KeyedNode

end Dht
