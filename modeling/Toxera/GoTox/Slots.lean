import Toxera.Lib.LastWrite
import Toxera.GoTox.TcpClient

/-!
# Connection slots of go-tox-tcpclient

A slot is in use when its status is not `free`.
-/

namespace GoTox

open CryptoCore Exec

/-- A client with the calls of `DisconnectPeer` that have found a slot and not yet
freed it. -/
structure Peers where
  client : TCPClient
  pending : List (Fin numClientConnections)

inductive Event where
  | recv (plain : Bytes)
  | sendData (pubkey : Option Bytes) (data : Bytes)
  | disconnectLookup (pubkey : Option Bytes)
  | disconnectFree (connID : Fin numClientConnections)

variable {connID : UInt8} {e : Event} {es : List Event} {m : Peers} {pk plain : Bytes}

def next (s : Peers) : Event → Option Peers
  | .recv plain => some { s with client := (dispatchPacket s.client plain).1 }
  | .sendData pubkey data => some { s with client := (sendData s.client pubkey data).1 }
  | .disconnectLookup pubkey =>
    match disconnectLookup s.client pubkey with
    | .error _ => some s
    | .ok connID => some { s with pending := connID :: s.pending }
  | .disconnectFree connID =>
    if connID ∈ s.pending then
      some ⟨disconnectFree s.client connID, s.pending.erase connID⟩
    else none

def freshPeers (s : Session) (r : List Bytes) (callbacks : Callbacks) : Peers :=
  ⟨connectedClient s r callbacks, []⟩

def binds (plain : Bytes) : Option (Fin numClientConnections × Bytes) :=
  (parseRoutingResponse plain).bind fun r => (actualID r.1).map fun i => (i, r.2)

def announces (plain : Bytes) : Option (Fin numClientConnections) :=
  (parseConnNotification plain).bind actualID

theorem parseRoutingResponse_eq_some (h : parseRoutingResponse plain = some (connID, pk)) :
    plain.head? = some 1 ∧ pk.length = publicKeySize := by
  unfold parseRoutingResponse at h
  split_ifs at h with bad
  obtain ⟨long, head⟩ := not_or.mp bad
  obtain ⟨_, -, heq⟩ := Option.map_eq_some_iff.mp h
  cases heq
  refine ⟨?_, ?_⟩
  · rw [List.head?_eq_getElem?]
    exact not_not.mp head
  · rw [List.length_take, List.length_drop]
    omega

theorem parseNotification_head {ptype : UInt8} (h : parseNotification ptype plain = some connID) :
    plain.head? = some ptype := by
  unfold parseNotification at h
  split_ifs at h with bad
  rw [List.head?_eq_getElem?]
  exact not_not.mp (not_or.mp bad).2

theorem binds_head {i : Fin numClientConnections} (h : binds plain = some (i, pk)) :
    plain.head? = some 1 ∧ pk.length = publicKeySize := by
  obtain ⟨⟨connID, pk'⟩, hparse, h⟩ := Option.bind_eq_some_iff.mp h
  obtain ⟨j, -, heq⟩ := Option.map_eq_some_iff.mp h
  cases heq
  exact parseRoutingResponse_eq_some hparse

theorem announces_head {i : Fin numClientConnections} (h : announces plain = some i) :
    plain.head? = some 2 := by
  obtain ⟨connID, hparse, -⟩ := Option.bind_eq_some_iff.mp h
  exact parseNotification_head hparse

theorem binds_eq_none (h : plain.head? ≠ some 1) : binds plain = none :=
  Option.eq_none_iff_forall_ne_some.mpr fun _ found => h (binds_head found).1

def ConnSlot.key (slot : ConnSlot) : Option Bytes :=
  if slot.status = .free then none else some slot.pubkey.val

variable {slot : ConnSlot}

theorem ConnSlot.key_eq_none_iff : slot.key = none ↔ slot.status = .free := by
  simp [ConnSlot.key]

theorem ConnSlot.key_of_ne_free (h : slot.status ≠ .free) : slot.key = some slot.pubkey.val :=
  if_neg h

theorem ConnSlot.bind_key (slot : ConnSlot) (whole : pk.length = publicKeySize) :
    (slot.bind pk).key = some pk := by
  have same : slot.pubkey.val.length = pk.length := slot.pubkey.property.trans whole.symm
  have copied := copyAt_front (Nat.le_of_eq same.symm)
  rw [List.take_of_length_le ((copyAt_length _ (Nat.zero_le _) _).trans same).le] at copied
  simp [ConnSlot.key, ConnSlot.bind, copied]

@[simp] theorem sendPlaintext_conns (c : TCPClient) (plain : Bytes) :
    (sendPlaintext c plain).conns = c.conns := by
  unfold sendPlaintext
  split_ifs <;> rfl

@[simp] theorem sendData_conns (c : TCPClient) (pubkey : Option Bytes) (data : Bytes) :
    (sendData c pubkey data).1.conns = c.conns := by
  unfold sendData
  split
  · rfl
  · split
    · rfl
    · split
      · rfl
      · exact sendPlaintext_conns c _

theorem handlePing_conns (c : TCPClient) (plain : Bytes) : (handlePing c plain).conns = c.conns := by
  unfold handlePing
  split
  · rfl
  · exact sendPlaintext_conns c _

theorem handlePong_conns (c : TCPClient) (plain : Bytes) : (handlePong c plain).conns = c.conns := by
  unfold handlePong
  split
  · rfl
  · split_ifs <;> rfl

theorem handleRoutingResponse_conns (c : TCPClient) (plain : Bytes) :
    (handleRoutingResponse c plain).1.conns =
      match binds plain with
      | none => c.conns
      | some (i, pk) => Function.update c.conns i ((c.conns i).bind pk) := by
  unfold handleRoutingResponse binds
  cases parseRoutingResponse plain with
  | none => rfl
  | some r =>
    simp only [Option.bind_some]
    cases actualID r.1 <;> rfl

theorem handleConnNotification_conns (c : TCPClient) (plain : Bytes) :
    (handleConnNotification c plain).1.conns =
      match announces plain with
      | none => c.conns
      | some i => Function.update c.conns i { c.conns i with status := .online } := by
  unfold handleConnNotification announces
  cases (parseConnNotification plain).bind actualID <;> rfl

theorem handleDisconnNotification_key (c : TCPClient) (plain : Bytes)
    (i : Fin numClientConnections) :
    ((handleDisconnNotification c plain).1.conns i).key = (c.conns i).key := by
  unfold handleDisconnNotification
  split
  · rfl
  · rename_i j _
    simp only
    split_ifs with online
    · rcases eq_or_ne i j with rfl | other
      · simp [TCPClient.setSlot, ConnSlot.key, online]
      · simp [TCPClient.setSlot, other]
    · rfl

theorem dispatchPacket_key (c : TCPClient) (plain : Bytes) (i : Fin numClientConnections)
    (inUse : announces plain = some i → (c.conns i).status ≠ .free) :
    ((dispatchPacket c plain).1.conns i).key =
      match binds plain with
      | none => (c.conns i).key
      | some (j, pk) => if j = i then some pk else (c.conns i).key := by
  cases plain with
  | nil => rfl
  | cons ptype rest =>
    by_cases response : ptype = 1
    · subst response
      have handler : dispatchPacket c (1 :: rest) = handleRoutingResponse c (1 :: rest) := rfl
      rw [handler, handleRoutingResponse_conns]
      cases found : binds (1 :: rest) with
      | none => rfl
      | some r =>
        obtain ⟨j, pk⟩ := r
        simp only
        split_ifs with same
        · subst same
          rw [Function.update_self, ConnSlot.bind_key _ (binds_head found).2]
        · rw [Function.update_of_ne (Ne.symm same)]
    · rw [binds_eq_none (by simpa using response)]
      unfold dispatchPacket
      simp only [if_neg response]
      split_ifs
      · rw [handlePing_conns]
      · rw [handlePong_conns]
      · rw [handleConnNotification_conns]
        cases found : announces (ptype :: rest) with
        | none => rfl
        | some j =>
          simp only
          rcases eq_or_ne i j with rfl | other
          · rw [Function.update_self, ConnSlot.key_of_ne_free (inUse found)]
            rfl
          · rw [Function.update_of_ne other]
      · exact handleDisconnNotification_key c _ i
      · rfl
      · rfl
      · rfl

theorem dispatchPacket_announces (c : TCPClient) {i : Fin numClientConnections}
    (ann : announces plain = some i) : ((dispatchPacket c plain).1.conns i).status = .online := by
  obtain ⟨rest, rfl⟩ := List.head?_eq_some_iff.mp (announces_head ann)
  have handler : dispatchPacket c (2 :: rest) = handleConnNotification c (2 :: rest) := rfl
  rw [handler, handleConnNotification_conns, ann]
  simp

theorem disconnectFree_key (c : TCPClient) (j i : Fin numClientConnections) :
    ((disconnectFree c j).conns i).key = if j = i then none else (c.conns i).key := by
  simp only [disconnectFree, sendPlaintext_conns, TCPClient.setSlot]
  split_ifs with same
  · subst same
    simp [ConnSlot.key]
  · rw [Function.update_of_ne (Ne.symm same)]

/-- What an event does to the key bound to a slot: a routing response for the slot
binds it, `DisconnectPeer` clears it. -/
def slotWrite (i : Fin numClientConnections) : Event → Option (Option Bytes)
  | .recv plain =>
    match binds plain with
    | none => none
    | some (j, pk) => if j = i then some (some pk) else none
  | .disconnectFree j => if j = i then some none else none
  | .sendData _ _ => none
  | .disconnectLookup _ => none

/-- The latest event that bound or freed the slot is a routing response with the key. -/
def BoundTo (es : List Event) (i : Fin numClientConnections) (pk : Bytes) : Prop :=
  ∃ pre plain post, es = pre ++ .recv plain :: post ∧ binds plain = some (i, pk) ∧
    ∀ e ∈ post, slotWrite i e = none

theorem slotWrite_eq_bound_iff {i : Fin numClientConnections} :
    slotWrite i e = some (some pk) ↔ ∃ plain, e = .recv plain ∧ binds plain = some (i, pk) := by
  cases e with
  | recv plain =>
    cases found : binds plain with
    | none => simp [slotWrite, found]
    | some r =>
      obtain ⟨j, pk'⟩ := r
      simp [slotWrite, found]
  | sendData => simp [slotWrite]
  | disconnectLookup => simp [slotWrite]
  | disconnectFree j => simp [slotWrite]

theorem boundTo_iff_value {i : Fin numClientConnections} :
    BoundTo es i pk ↔ LastWrite.value (slotWrite i) es = some pk := by
  rw [LastWrite.value_eq_some_iff]
  constructor
  · rintro ⟨pre, plain, post, cut, bound, quiet⟩
    exact ⟨pre, _, post, cut, slotWrite_eq_bound_iff.mpr ⟨plain, rfl, bound⟩, quiet⟩
  · rintro ⟨pre, e, post, cut, write, quiet⟩
    obtain ⟨plain, rfl, bound⟩ := slotWrite_eq_bound_iff.mp write
    exact ⟨pre, plain, post, cut, bound, quiet⟩

def Solicited (s : Peers) : Event → Prop
  | .recv plain => ∀ i ∈ announces plain, (s.client.conns i).status ≠ .free
  | .sendData _ _ => True
  | .disconnectLookup _ => True
  | .disconnectFree _ => True

instance (s : Peers) (e : Event) : Decidable (Solicited s e) :=
  match e with
  | .recv plain => inferInstanceAs (Decidable (∀ i ∈ announces plain, _))
  | .sendData _ _ => inferInstanceAs (Decidable True)
  | .disconnectLookup _ => inferInstanceAs (Decidable True)
  | .disconnectFree _ => inferInstanceAs (Decidable True)

theorem next_key {s t : Peers} (i : Fin numClientConnections)
    (inUse : ∀ plain, e = .recv plain → announces plain = some i →
      (s.client.conns i).status ≠ .free) (step : next s e = some t) :
    (t.client.conns i).key = (slotWrite i e).getD (s.client.conns i).key := by
  cases e with
  | recv plain =>
    cases step
    rw [dispatchPacket_key s.client plain i (inUse plain rfl)]
    cases found : binds plain with
    | none => simp [slotWrite, found]
    | some r =>
      simp only [slotWrite, found]
      split_ifs <;> rfl
  | sendData pubkey data =>
    cases step
    simp [slotWrite]
  | disconnectLookup pubkey =>
    simp only [next] at step
    split at step <;> obtain rfl := Option.some.inj step <;> rfl
  | disconnectFree j =>
    simp only [next] at step
    split_ifs at step
    cases step
    rw [disconnectFree_key]
    simp only [slotWrite]
    split_ifs <;> rfl

section Runs
variable {s : Session} {r : List Bytes} {callbacks : Callbacks}

theorem key_of_bound {i : Fin numClientConnections}
    (run : exec next (freshPeers s r callbacks) es = some m)
    (bound : LastWrite.value (slotWrite i) es = some pk) : (m.client.conns i).key = some pk := by
  refine exec_history (P := fun es m => ∀ pk, LastWrite.value (slotWrite i) es = some pk →
    (m.client.conns i).key = some pk) ?_ ?_ run pk bound
  · intro pk bound
    cases bound
  · intro es m e m' _ ih step pk bound
    rw [LastWrite.value_snoc] at bound
    cases write : slotWrite i e with
    | none =>
      rw [write, Option.getD_none] at bound
      have used := ih pk bound
      rw [next_key i (fun _ _ _ free => ?_) step, write, Option.getD_none, used]
      rw [ConnSlot.key_eq_none_iff.mpr free] at used
      cases used
    | some w =>
      rw [write, Option.getD_some] at bound
      subst bound
      obtain ⟨plain, rfl, binding⟩ := slotWrite_eq_bound_iff.mp write
      rw [next_key i (fun plain' heq ann => ?_) step, write, Option.getD_some]
      -- a routing response is no notification
      obtain rfl := Event.recv.inj heq
      cases (binds_head binding).1.symm.trans (announces_head ann)

theorem key_eq_value (good : Along next Solicited (freshPeers s r callbacks) es)
    (run : exec next (freshPeers s r callbacks) es = some m) (i : Fin numClientConnections) :
    (m.client.conns i).key = LastWrite.value (slotWrite i) es := by
  revert good
  refine exec_history (P := fun es m => Along next Solicited (freshPeers s r callbacks) es →
    (m.client.conns i).key = LastWrite.value (slotWrite i) es) (fun _ => rfl) ?_ run
  intro es m e m' before ih step good
  obtain ⟨front, here⟩ := (along_snoc_iff before).mp good
  rw [LastWrite.value_snoc, ← ih front]
  refine next_key i (fun plain heq ann => ?_) step
  subst heq
  exact here i ann

structure OnlyBound (es : List Event) (m : Peers) : Prop where
  slots : ∀ i, (m.client.conns i).status ≠ .free → BoundTo es i (m.client.conns i).pubkey.val
  found : ∀ pk i, findConnID m.client pk = some i → BoundTo es i pk

theorem onlyBound_of_slots
    (slots : ∀ i, (m.client.conns i).status ≠ .free → BoundTo es i (m.client.conns i).pubkey.val) :
    OnlyBound es m := by
  refine ⟨slots, fun pk i hit => ?_⟩
  have := List.find?_some hit
  obtain ⟨inUse, rfl⟩ := of_decide_eq_true this
  exact slots i inUse

/-- In every state of a run the slots in use are the bound ones exactly when every
connection notification finds its slot in use. -/
theorem slots_only_bound_iff (es : List Event) :
    Along next Solicited (freshPeers s r callbacks) es ↔
      ∀ pre post m, es = pre ++ post → exec next (freshPeers s r callbacks) pre = some m →
        OnlyBound pre m := by
  constructor
  · rintro good pre post m rfl run
    refine onlyBound_of_slots fun i inUse => ?_
    rw [boundTo_iff_value, ← key_eq_value (along_append_left good) run i,
      ConnSlot.key_of_ne_free inUse]
  · intro all pre e post m cut run
    cases e with
    | recv plain =>
      intro i ann free
      -- after the packet the slot is online, and nothing has bound it
      have after := all (pre ++ [.recv plain]) post _ (by simp [cut])
        (exec_snoc_iff.mpr ⟨m, run, rfl⟩)
      have bound := boundTo_iff_value.mp
        (after.slots i (by rw [dispatchPacket_announces m.client ann]; decide))
      have write : slotWrite i (.recv plain) = none := by
        rw [slotWrite, binds_eq_none (by rw [announces_head ann]; decide)]
      rw [LastWrite.value_snoc, write, Option.getD_none] at bound
      have used := key_of_bound run bound
      rw [ConnSlot.key_eq_none_iff.mpr free] at used
      cases used
    | sendData => trivial
    | disconnectLookup => trivial
    | disconnectFree => trivial

end Runs

def firstSlot : Fin numClientConnections := ⟨0, by decide⟩

def bindFirst : Event := .recv (1 :: 16 :: (keyOf 7).val)

def quietPeers : Peers :=
  freshPeers ⟨keyOf 9, nonceOf 0, nonceOf 0⟩ [] ⟨false, false, false, false, false⟩

/-- A peer is bound, comes online and gets data. -/
theorem slots_only_bound_online :
    let es := [bindFirst, .recv [2, 16], .sendData (some (keyOf 7).val) [1]]
    ∃ m, exec next quietPeers es = some m ∧ findConnID m.client (keyOf 7).val = some firstSlot ∧
      OnlyBound es m := by
  intro es
  have run : (exec next quietPeers es).map (fun m => findConnID m.client (keyOf 7).val) =
      some (some firstSlot) := by decide +kernel
  obtain ⟨m, hm, found⟩ := Option.map_eq_some_iff.mp run
  have solicited : Along next Solicited quietPeers es := along_of_decide (by decide +kernel)
  exact ⟨m, hm, found, (slots_only_bound_iff es).mp solicited es [] m (List.append_nil es).symm hm⟩

/-- A connection notification that was under way when `DisconnectPeer` freed the slot
puts the slot online again, and a lookup of the old key finds it. -/
theorem late_notification_revives_slot :
    let es := [bindFirst, .disconnectLookup (some (keyOf 7).val), .disconnectFree firstSlot,
      .recv [2, 16]]
    (∃ m, exec next quietPeers es = some m ∧ (m.client.conns firstSlot).status = .online ∧
      findConnID m.client (keyOf 7).val = some firstSlot) ∧
    ∀ pk, ¬ BoundTo es firstSlot pk := by
  intro es
  constructor
  · have run : (exec next quietPeers es).map (fun m => ((m.client.conns firstSlot).status,
        findConnID m.client (keyOf 7).val)) = some (.online, some firstSlot) := by decide +kernel
    obtain ⟨m, hm, seen⟩ := Option.map_eq_some_iff.mp run
    exact ⟨m, hm, Prod.mk.inj seen⟩
  · intro pk bound
    have freed : LastWrite.value (slotWrite firstSlot) es = none := by decide +kernel
    cases freed.symm.trans (boundTo_iff_value.mp bound)

end GoTox
