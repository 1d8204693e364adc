import Toxera.Lib.Exec
import Toxera.Mintox.RelayHandlers

/-!
# Runs of the relay

An event is one handler run to its end: an accept, a completed handshake, the first packet
that confirms a connection, a packet of a confirmed connection, the end of a read loop,
the end of a write or ping loop, or a packet taken off a queue by the write loop.
-/

namespace TcpServer

open CryptoCore Exec

inductive Event where
  | accept
  | handshake (i : Nat) (pk : CryptoKey)
  | confirm (i : Nat) (plnpkt : Bytes)
  | recv (i : Nat) (plnpkt : Bytes) (order : RangeOrder)
  | readEnd (i : Nat)
  | loopEnd (i : Nat)
  | takeCtrl (i : Nat)
  | takeData (i : Nat)

variable {c : TCPSecureConn} {e : Event} {es : List Event} {i : Nat} {order : RangeOrder}
  {pkt plnpkt : Bytes} {s s' : TCPServer}

def Enabled (s : TCPServer) : Event → Prop
  | .accept => True
  | .handshake i _ => i < s.accepted ∧ (s.conn i).reading ∧ (s.conn i).status = .noStatus
  | .confirm i _ => i < s.accepted ∧ (s.conn i).reading ∧ (s.conn i).status = .unconfirmed
  | .recv i _ _ => i < s.accepted ∧ (s.conn i).reading ∧ (s.conn i).status = .confirmed
  | .readEnd i => i < s.accepted ∧ (s.conn i).reading
  | .loopEnd i => i < s.accepted ∧ (s.conn i).pinging
  | .takeCtrl i => i < s.accepted
  | .takeData i => i < s.accepted

instance (s : TCPServer) : (e : Event) → Decidable (Enabled s e)
  | .accept => inferInstanceAs (Decidable True)
  | .handshake _ _ => inferInstanceAs (Decidable (_ ∧ _ ∧ _))
  | .confirm _ _ => inferInstanceAs (Decidable (_ ∧ _ ∧ _))
  | .recv _ _ _ => inferInstanceAs (Decidable (_ ∧ _ ∧ _))
  | .readEnd _ => inferInstanceAs (Decidable (_ ∧ _))
  | .loopEnd _ => inferInstanceAs (Decidable (_ ∧ _))
  | .takeCtrl _ => inferInstanceAs (Decidable (_ < _))
  | .takeData _ => inferInstanceAs (Decidable (_ < _))

/-- The first packet after the handshake is answered as a ping; then the
connection counts as confirmed and its ping loop starts. -/
def confirmStep (s : TCPServer) (i : Nat) (plnpkt : Bytes) : Option TCPServer :=
  match plnpkt with
  | [] => none
  | _ :: _ =>
    (handlePingRequest (s.conn i) plnpkt).bind fun c =>
      let s₁ := s.setConn i { c with status := .confirmed }
      (if (s₁.conn i).onConfirmed then onConnConfirmed s₁ i else some s₁).map fun s₂ =>
        s₂.setConn i { s₂.conn i with pinging := true }

def step (s : TCPServer) : Event → Option TCPServer
  | .accept => some (startHandshake s)
  | .handshake i pk =>
    some (s.setConn i { s.conn i with pubkey := some pk, status := .unconfirmed })
  | .confirm i plnpkt => confirmStep s i plnpkt
  | .recv i plnpkt order => dispatch s i order.keys plnpkt
  | .readEnd i =>
    let s' := doClose s i
    some (s'.setConn i { s'.conn i with reading := false })
  | .loopEnd i => some (doClose s i)
  | .takeCtrl i =>
    ((s.conn i).cwctrlq.recv).map fun r => s.setConn i { s.conn i with cwctrlq := r.2 }
  | .takeData i =>
    ((s.conn i).cwdataq.recv).map fun r => s.setConn i { s.conn i with cwdataq := r.2 }

def next (s : TCPServer) (e : Event) : Option TCPServer :=
  if Enabled s e then step s e else none

theorem next_eq_some_iff : next s e = some s' ↔ Enabled s e ∧ step s e = some s' := by
  simp [next]

theorem confirmStep_answers (h : confirmStep s i plnpkt = some s') :
    ∃ c, (s.conn i).SameButQueues c ∧
      (let s₁ := s.setConn i { c with status := .confirmed }
      (if (s₁.conn i).onConfirmed then onConnConfirmed s₁ i else some s₁).map fun s₂ =>
        s₂.setConn i { s₂.conn i with pinging := true }) = some s' := by
  cases plnpkt with
  | nil => simp [confirmStep] at h
  | cons b rest =>
    obtain ⟨c, hc, h⟩ := Option.bind_eq_some_iff.mp h
    exact ⟨c, sendCtrlPacket_same hc, h⟩

theorem confirmStep_dead (hcf : (s.conn i).onConfirmed = false)
    (h : confirmStep s i plnpkt = some s') :
    ∃ c, (s.conn i).SameButQueues c ∧
      s' = s.setConn i { c with status := .confirmed, pinging := true } := by
  obtain ⟨c, same, h⟩ := confirmStep_answers h
  refine ⟨c, same, ?_⟩
  have hcf' : c.onConfirmed = false := same.onConfirmed.trans hcf
  simp only [setConn_self, hcf', Bool.false_eq_true, if_false, Option.map_some] at h
  rw [← Option.some.inj h]
  simp [TCPServer.setConn, hcf']

theorem confirmStep_live (wf : s.WellFormed) (hcl : (s.conn i).onClosed = true)
    (hst : (s.conn i).status = .unconfirmed) (h : confirmStep s i plnpkt = some s') :
    ∃ k c, (s.conn i).pubkey = some k ∧ (s.conn i).SameButQueues c ∧
      s'.conn i = { c with status := .confirmed, pinging := true } ∧
      s'.accepted = s.accepted ∧
      (∀ k', s'.conns.lookup k' = if k' = k then some i else s.conns.lookup k') ∧
      ∀ x, x ≠ i → s'.conn x =
        if s.conns.lookup k = some x then closedConn (s.conn x) else s.conn x := by
  obtain ⟨c, same, h⟩ := confirmStep_answers h
  have hcf : c.onConfirmed = true := same.onConfirmed.trans ((wf.conn i).callbacks.trans hcl)
  obtain ⟨k, hk⟩ := (wf.conn i).keyed hcl (by rw [hst]; decide)
  have hk' : c.pubkey = some k := same.pubkey.trans hk
  refine ⟨k, c, hk, same, ?_⟩
  obtain ⟨s₂, h₂, rfl⟩ := Option.map_eq_some_iff.mp h
  simp only [setConn_self, hcf, if_true] at h₂
  simp only [onConnConfirmed, setConn_self, hk', setConn_conns, Option.some.injEq] at h₂
  cases hoc : s.conns.lookup k with
  | none =>
    simp only [hoc] at h₂
    subst h₂
    refine ⟨by simp [hcf, hk'], rfl, ?_, ?_⟩
    · intro k'
      by_cases hkk : k' = k
      · subst k'; simp
      · simp [AList.lookup_insert_ne hkk, hkk]
    · intro x hx
      simp [setConn_ne _ _ hx]
  | some oc =>
    -- the old connection is confirmed, so it is another one
    have hne : oc ≠ i := by
      rintro rfl
      have := (wf.registered k oc hoc).2.2.1
      rw [hst] at this
      cases this
    simp only [hoc] at h₂
    rw [doClose_quiet (by simp)] at h₂
    subst h₂
    refine ⟨?_, rfl, ?_, ?_⟩
    · simp [TCPServer.setConn, Function.update_of_ne hne.symm, hcf, hk']
    · intro k'
      by_cases hkk : k' = k
      · subst k'; simp
      · simp [AList.lookup_insert_ne hkk, AList.lookup_erase_ne hkk, hkk]
    · intro x hx
      by_cases hxo : x = oc
      · subst x
        simp [TCPServer.setConn, Function.update_of_ne hne, closedConn, finishClose]
      · have hxo' : oc ≠ x := fun h => hxo h.symm
        simp [TCPServer.setConn, Function.update_of_ne hx, Function.update_of_ne hxo, hxo']

theorem handshake_ok (h : c.Ok) (hst : c.status = .noStatus) (pk : CryptoKey) :
    TCPSecureConn.Ok { c with pubkey := some pk, status := .unconfirmed } := by
  have empty : c.onClosed = true → ∀ k, c.tables.connInfos k = none := fun hcl =>
    h.early hcl (by rw [hst]; decide)
  refine ⟨h.tables, h.callbacks, ?_, ?_, fun hcl _ => empty hcl, fun hcl k _ => empty hcl k, ?_,
    h.opened⟩
  · intro _ hbad; cases hbad
  · intro _ _; exact ⟨pk, rfl⟩
  · intro hcl
    have := h.looping hcl
    rw [hst] at this
    simpa using this

theorem confirmed_ok {c' : TCPSecureConn} (h : c.Ok) (hst : c.status = .unconfirmed)
    (same : c.SameButQueues c') :
    TCPSecureConn.Ok { c' with status := .confirmed, pinging := true } := by
  have h' := h.of_same same
  refine ⟨h'.tables, h'.callbacks, ?_, ?_, ?_, h'.own, ?_, h'.opened⟩
  · intro _ hbad; cases hbad
  · intro hcl _
    exact h'.keyed hcl (by rw [same.status, hst]; decide)
  · intro _ hbad; exact absurd rfl hbad
  · intro _; simp

theorem confirmStep_wellFormed (wf : s.WellFormed) (hi : i < s.accepted)
    (hst : (s.conn i).status = .unconfirmed) (h : confirmStep s i plnpkt = some s') :
    s'.WellFormed := by
  have unregistered : ∀ k, s.conns.lookup k ≠ some i := by
    intro k hk
    have := (wf.registered k i hk).2.2.1
    rw [hst] at this
    cases this
  cases hcl : (s.conn i).onClosed with
  | false =>
    have hcf : (s.conn i).onConfirmed = false := (wf.conn i).callbacks.trans hcl
    obtain ⟨c, same, rfl⟩ := confirmStep_dead hcf h
    exact wf.setConn hi (confirmed_ok (wf.conn i) hst same)
      (fun k hk => absurd hk (unregistered k))
  | true =>
    obtain ⟨k, c, hk, same, hself, hacc, hreg, hother⟩ := confirmStep_live wf hcl hst h
    refine ⟨?_, ?_, ?_⟩
    · intro x
      by_cases hx : x = i
      · subst x; rw [hself]; exact confirmed_ok (wf.conn i) hst same
      · rw [hother x hx]
        split_ifs
        · exact closedConn_ok (wf.conn x).tables
        · exact wf.conn x
    · intro k' x hk'
      rw [hreg] at hk'
      by_cases hkk : k' = k
      · subst k'
        obtain rfl : i = x := by simpa using hk'
        rw [hself, hacc]
        exact ⟨hi, same.pubkey.trans hk, rfl, same.onClosed.trans hcl⟩
      · rw [if_neg hkk] at hk'
        have hx : x ≠ i := by rintro rfl; exact unregistered k' hk'
        have hne : s.conns.lookup k ≠ some x := fun h => hkk (wf.registered_inj hk' h)
        rw [hother x hx, if_neg hne, hacc]
        exact wf.registered k' x hk'
    · intro x hx
      rw [hacc] at hx
      have hne : s.conns.lookup k ≠ some x := by
        intro hx'
        have := (wf.registered k x hx').1
        omega
      rw [hother x (by omega), if_neg hne, wf.beyond x hx]

def Closes (i : Nat) (e : Event) : Prop := e = .readEnd i ∨ e = .loopEnd i

/-- Why a step leaves the registry and all objects alone: the callbacks are gone,
the request is denied, repeated or finds no free id, or the disconnect
notification finds no object at the other end. -/
def Idle (s : TCPServer) : Event → Prop
  | .confirm i _ => (s.conn i).onClosed = false
  | .readEnd i => (s.conn i).onClosed = false ∨ (s.conn i).pubkey = none
  | .loopEnd i => (s.conn i).onClosed = false ∨ (s.conn i).pubkey = none
  | .recv i pkt _ =>
    (pkt.head? = some 0 → ∃ pk own, requestKey pkt = some pk ∧ (s.conn i).pubkey = some own ∧
      (pk = own ∨ pciOf s i pk ≠ none ∨
        ∀ k : UInt8, k.toNat < 240 → (s.conn i).tables.connIds k = some true)) ∧
    (pkt.head? = some 3 → ∃ x, pkt[1]? = some x.connid ∧ pciOf s i x.pubkey = some x ∧
      ∀ j y, s.conns.lookup x.pubkey = some j → pciOf s j y.pubkey = some y →
        y.connid ≠ x.otherid)
  | _ => True

/-- All a step can do to the registry and to the objects that connections keep. -/
inductive Effect (s s' : TCPServer) : Event → Prop where
  | quiet (e : Event) (idle : Idle s e) (reg : ∀ k, s'.conns.lookup k = s.conns.lookup k)
      (pci : ∀ x k, pciOf s' x k = pciOf s x k) : Effect s s' e
  | register (i : Nat) (plnpkt : Bytes) (k : CryptoKey) (live : (s.conn i).onClosed = true)
      (status : (s.conn i).status = .unconfirmed) (key : (s.conn i).pubkey = some k)
      (reg : ∀ k', s'.conns.lookup k' = if k' = k then some i else s.conns.lookup k')
      (pci : ∀ x k, pciOf s' x k = pciOf s x k) : Effect s s' (.confirm i plnpkt)
  | drop (i : Nat) (e : Event) (k : CryptoKey) (closes : Closes i e)
      (live : (s.conn i).onClosed = true) (key : (s.conn i).pubkey = some k)
      (reg : ∀ k', s'.conns.lookup k' = if k' = k then none else s.conns.lookup k')
      (pci : ∀ x k', (k' = k ∧ (∃ k'', k'' ≠ k ∧ s.conns.lookup k'' = some x) ∧
          pciOf s' x k' = (pciOf s x k').map resetPci) ∨
        (¬ (k' = k ∧ ∃ k'', k'' ≠ k ∧ s.conns.lookup k'' = some x) ∧
          pciOf s' x k' = pciOf s x k')) : Effect s s' e
  | enter (i : Nat) (pkt : Bytes) (order : RangeOrder) (own pk : CryptoKey) (k : UInt8)
      (head : pkt.head? = some 0) (request : requestKey pkt = some pk)
      (fresh : Fresh s i own pk k)
      (alone : ∀ j, s.conns.lookup pk = some j → pciOf s j own = none)
      (reg : ∀ k', s'.conns.lookup k' = s.conns.lookup k')
      (pci : ∀ x k', pciOf s' x k' =
        if x = i ∧ k' = pk then some ⟨pk, 1, 0, k + numReservedPorts⟩ else pciOf s x k') :
      Effect s s' (.recv i pkt order)
  | link (i : Nat) (pkt : Bytes) (order : RangeOrder) (own pk : CryptoKey) (k : UInt8) (j : Nat)
      (y : PeerConnInfo) (head : pkt.head? = some 0) (request : requestKey pkt = some pk)
      (fresh : Fresh s i own pk k) (peer : s.conns.lookup pk = some j) (apart : j ≠ i)
      (listed : pciOf s j own = some y)
      (reg : ∀ k', s'.conns.lookup k' = s.conns.lookup k')
      (pci : ∀ x k', pciOf s' x k' =
        if x = j ∧ k' = own then some { y with status := 2, otherid := k + numReservedPorts }
        else if x = i ∧ k' = pk then some ⟨pk, 2, y.connid, k + numReservedPorts⟩
        else pciOf s x k') :
      Effect s s' (.recv i pkt order)
  | unlink (i : Nat) (pkt : Bytes) (order : RangeOrder) (x y : PeerConnInfo) (j : Nat)
      (head : pkt.head? = some 3) (connid : pkt[1]? = some x.connid)
      (mine : pciOf s i x.pubkey = some x) (peer : s.conns.lookup x.pubkey = some j)
      (apart : j ≠ i) (theirs : pciOf s j y.pubkey = some y) (crossed : y.connid = x.otherid)
      (reg : ∀ k', s'.conns.lookup k' = s.conns.lookup k')
      (pci : ∀ z k', pciOf s' z k' =
        if z = j ∧ k' = y.pubkey then some (resetPci y)
        else if z = i ∧ k' = x.pubkey then some (resetPci x)
        else pciOf s z k') :
      Effect s s' (.recv i pkt order)

theorem Effect.of_same (idle : Idle s e) (same : s.SameButQueues s') : Effect s s' e :=
  .quiet e idle (by intro k; rw [same.conns]) same.pciOf

theorem idle_of_head (h0 : pkt.head? ≠ some 0) (h3 : pkt.head? ≠ some 3) :
    Idle s (.recv i pkt order) :=
  ⟨fun h => absurd h h0, fun h => absurd h h3⟩

theorem unlink_apart (wf : s.WellFormed) {j p : Nat} {k : CryptoKey}
    (hp : (s.conn i).tables.connInfos k = some p) (hj : s.conns.lookup k = some j) : j ≠ i := by
  rintro rfl
  obtain ⟨-, hkey, -, hlive⟩ := wf.registered k j hj
  rw [(wf.conn j).own hlive k hkey] at hp
  cases hp

theorem request_effect (wf : s.WellFormed) (hi : i < s.accepted)
    (hst : (s.conn i).status = .confirmed) (head : pkt.head? = some 0)
    (h : handleRoutingRequest s i order.keys pkt = some s') :
    s'.WellFormed ∧ Effect s s' (.recv i pkt order) := by
  obtain ⟨pk, own, hpk, hown, ⟨same, why⟩ | ⟨k, fresh, same⟩⟩ :=
    handleRoutingRequest_cases wf hi hst h
  · refine ⟨wf.of_same same, .of_same ⟨fun _ => ⟨pk, own, hpk, hown, ?_⟩, fun h3 => ?_⟩ same⟩
    · grind [pciOf]
    · rw [head] at h3
      cases h3
  have hwf := wf.enterPeer hi hst fresh
  rcases same with ⟨same, alone⟩ | ⟨j, q, hj, hne, hq, same⟩
  · refine ⟨hwf.of_same same, .enter i pkt order own pk k head hpk fresh ?_ ?_ ?_⟩
    · intro j hj
      exact pciOf_eq_none_iff.mpr (alone j hj)
    · intro k'
      rw [same.conns]
      rfl
    · intro x k'
      rw [same.pciOf, pciOf_enterPeer (wf.conn i).tables]
  · have hjlt := (wf.registered pk j hj).1
    have hmut : pciOf s j own = some ((s.conn j).tables.pcis q) :=
      pciOf_eq_some_iff.mpr ⟨q, hq, rfl⟩
    have hconnj : (s.enterPeer i pk k).conn j = s.conn j := setConn_ne s _ hne
    have hp : ((s.enterPeer i pk k).conn i).tables.connInfos pk = some (s.conn i).tables.npci := by
      simp [TCPServer.enterPeer]
    have hpci : ((s.enterPeer i pk k).conn i).tables.pcis (s.conn i).tables.npci =
        ⟨pk, 1, 0, k + numReservedPorts⟩ := by
      simp [TCPServer.enterPeer]
    refine ⟨(hwf.linkPair hi hjlt _ q).of_same same,
      .link i pkt order own pk k j _ head hpk fresh hj hne hmut ?_ ?_⟩
    · intro k'
      rw [same.conns]
      rfl
    · intro x k'
      rw [same.pciOf, pciOf_linkPair (hwf.conn i).tables (hwf.conn j).tables hne hp
        (by rw [hconnj]; exact hq), hpci, hconnj, pciOf_enterPeer (wf.conn i).tables]
      by_cases hx : x = i ∧ k' = pk
      · simp [hx]
      · simp [hx]

theorem disconnect_effect (wf : s.WellFormed) (hi : i < s.accepted) (head : pkt.head? = some 3)
    (h : handleDisconnectNotification s i pkt = some s') :
    s'.WellFormed ∧ Effect s s' (.recv i pkt order) := by
  obtain ⟨connid, p, hpkt, hp, cases⟩ := handleDisconnectNotification_cases h
  obtain ⟨hp', hid⟩ := (wf.conn i).tables.info2 connid p hp
  rcases cases with ⟨rfl, nothing⟩ | ⟨j, q, hj, hq, hsend⟩
  · refine ⟨wf, .of_same ⟨fun h0 => ?_, fun _ => ⟨(s'.conn i).tables.pcis p, by rw [hpkt, hid],
      pciOf_eq_some_iff.mpr ⟨p, hp', rfl⟩, ?_⟩⟩ (.refl s')⟩
    · rw [head] at h0
      cases h0
    · intro j y hj hy heq
      obtain ⟨q, hq, rfl⟩ := pciOf_eq_some_iff.mp hy
      have := ((wf.conn j).tables.info _ q hq).2
      rw [heq, nothing j hj] at this
      cases this
  have hjlt := (wf.registered _ j hj).1
  obtain ⟨hq', hid'⟩ := (wf.conn j).tables.info2 _ q hq
  have hne := unlink_apart wf hp' hj
  have same := sendDisconnectNotification_same (by exact hjlt) hsend
  refine ⟨(wf.unlinkPair hi hjlt p q).of_same same,
    .unlink i pkt order ((s.conn i).tables.pcis p) ((s.conn j).tables.pcis q) j head
      (by rw [hpkt, hid]) (pciOf_eq_some_iff.mpr ⟨p, hp', rfl⟩) hj hne
      (pciOf_eq_some_iff.mpr ⟨q, hq', rfl⟩) hid' ?_ ?_⟩
  · intro k'
    rw [same.conns]
    rfl
  · intro z k'
    rw [same.pciOf, pciOf_unlinkPair (wf.conn i).tables (wf.conn j).tables hne hp' hq']

theorem data_same (wf : s.WellFormed) (h : handleRoutingData s i pkt = some s') :
    s.SameButQueues s' := by
  obtain ⟨connid, data, -, ⟨rfl, -⟩ | ⟨p, j, own, q, c, -, hj, -, -, hc, rfl⟩⟩ :=
    handleRoutingData_cases h
  · exact .refl s'
  · exact .setConn (wf.registered _ j hj).1 (sendDataPacket_same hc)

theorem recv_effect (wf : s.WellFormed) (hi : i < s.accepted) (hst : (s.conn i).status = .confirmed)
    (h : dispatch s i order.keys pkt = some s') :
    s'.WellFormed ∧ Effect s s' (.recv i pkt order) := by
  rcases dispatch_cases h with ⟨⟨h0, h3⟩, rfl | ⟨c, hc, rfl⟩⟩ | ⟨head, h⟩ | ⟨head, h⟩ |
    ⟨connid, head, data, h⟩
  · exact ⟨wf, .of_same (idle_of_head h0 h3) (.refl s')⟩
  · have same := TCPServer.SameButQueues.setConn hi (sendCtrlPacket_same hc)
    exact ⟨wf.of_same same, .of_same (idle_of_head h0 h3) same⟩
  · exact request_effect wf hi hst head h
  · exact disconnect_effect wf hi head h
  · have other : ∀ c : UInt8, c < numReservedPorts → pkt.head? ≠ some c := by
      intro c hc heq
      obtain rfl := Option.some.inj (head.symm.trans heq)
      exact UInt8.not_lt.mpr data hc
    exact ⟨wf.of_same (data_same wf h),
      .of_same (idle_of_head (other 0 (by decide)) (other 3 (by decide))) (data_same wf h)⟩

theorem pciOf_congr {x : Nat} (h : (s'.conn x).tables = (s.conn x).tables) (k : CryptoKey) :
    pciOf s' x k = pciOf s x k := by
  simp [pciOf, h]

theorem confirm_effect (wf : s.WellFormed) (hst : (s.conn i).status = .unconfirmed)
    (h : confirmStep s i plnpkt = some s') : Effect s s' (.confirm i plnpkt) := by
  cases hcl : (s.conn i).onClosed with
  | false =>
    have hcf : (s.conn i).onConfirmed = false := (wf.conn i).callbacks.trans hcl
    obtain ⟨c, same, rfl⟩ := confirmStep_dead hcf h
    refine .quiet _ hcl (fun _ => rfl) fun x k => pciOf_congr ?_ k
    by_cases hx : x = i
    · subst x; simpa using same.tables
    · rw [setConn_ne s _ hx]
  | true =>
    obtain ⟨k, c, hk, same, hself, -, hreg, hother⟩ := confirmStep_live wf hcl hst h
    refine .register i plnpkt k hcl hst hk hreg fun x k' => pciOf_congr ?_ k'
    by_cases hx : x = i
    · subst x; rw [hself]; exact same.tables
    · rw [hother x hx]
      split_ifs
      · exact (closedConn_fields (s.conn x)).2.2.1
      · rfl

theorem idle_of_closes (closes : Closes i e)
    (h : (s.conn i).onClosed = false ∨ (s.conn i).pubkey = none) : Idle s e := by
  rcases closes with rfl | rfl
  · exact h
  · exact h

theorem doClose_effect (wf : s.WellFormed) (closes : Closes i e) : Effect s (doClose s i) e := by
  cases hcl : (s.conn i).onClosed with
  | false =>
    rw [doClose_quiet hcl]
    refine .quiet e (idle_of_closes closes (Or.inl hcl)) (fun _ => rfl) fun x k => pciOf_congr ?_ k
    by_cases hx : x = i
    · subst x; simpa using (closedConn_fields _).2.2.1
    · rw [setConn_ne s _ hx]
  | true =>
    cases hkey : (s.conn i).pubkey with
    | none =>
      rw [doClose_keyless hcl hkey]
      refine .quiet e (idle_of_closes closes (Or.inr hkey)) (fun _ => rfl)
        fun x k => pciOf_congr ?_ k
      by_cases hx : x = i
      · subst x; simp
      · simp [setConn_ne s _ hx]
    | some k =>
      obtain ⟨hconns, -, hself, hother⟩ := doClose_keyed wf hcl hkey
      have self_ne : ∀ x k', k' ≠ k → s.conns.lookup k' = some x → x ≠ i := by
        rintro x k' hne hk' rfl
        exact hne (Option.some.inj ((wf.registered k' x hk').2.1.symm.trans hkey))
      refine .drop i e k closes hcl hkey ?_ ?_
      · intro k'
        rw [hconns]
        by_cases hk : k' = k
        · subst k'; simp
        · simp [AList.lookup_erase_ne hk, hk]
      · intro x k'
        by_cases hreg : ∃ k'', k'' ≠ k ∧ s.conns.lookup k'' = some x
        · obtain ⟨k'', hne, hk''⟩ := hreg
          have tables := ((hother x (self_ne x k'' hne hk'')).1 ⟨k'', hne, hk''⟩).tables
          have hpci : pciOf (doClose s i) x k' =
              if k' = k then (pciOf s x k).map resetPci else pciOf s x k' := by
            simp only [pciOf, tables]
            exact resetLink_pcis (wf.conn x).tables k k'
          by_cases hk : k' = k
          · grind
          · grind
        · refine Or.inr ⟨fun h => hreg h.2, pciOf_congr ?_ k'⟩
          by_cases hx : x = i
          · subst x; rw [hself]; exact (closedConn_fields _).2.2.1
          · grind

theorem readEnd_spec (wf : s.WellFormed) (hi : i < s.accepted) :
    (s.setConn i { s.conn i with reading := false }).WellFormed ∧
    ∀ x k, pciOf (s.setConn i { s.conn i with reading := false }) x k = pciOf s x k := by
  have ok := wf.conn i
  refine ⟨wf.setConn hi ⟨ok.tables, ok.callbacks, ok.keyless, ok.keyed, ok.early, ok.own,
    ok.looping, ok.opened⟩ (fun k hk => (wf.registered k i hk).2), ?_⟩
  intro x k
  apply pciOf_congr
  by_cases hx : x = i
  · subst x; simp
  · rw [setConn_ne s _ hx]

theorem Effect.of_after {m : TCPServer} (h : Effect s m e)
    (reg : ∀ k, s'.conns.lookup k = m.conns.lookup k) (pci : ∀ x k, pciOf s' x k = pciOf m x k) :
    Effect s s' e := by
  cases h with
  | quiet e idle r p => exact .quiet e idle (by simpa [reg] using r) (by simpa [pci] using p)
  | register i plnpkt k live st key r p =>
    exact .register i plnpkt k live st key (by simpa [reg] using r) (by simpa [pci] using p)
  | drop i e k closes live key r p =>
    exact .drop i e k closes live key (by simpa [reg] using r) (by simpa only [pci] using p)
  | enter i pkt order own pk k head request fresh alone r p =>
    exact .enter i pkt order own pk k head request fresh alone (by simpa [reg] using r)
      (by simpa [pci] using p)
  | link i pkt order own pk k j y head request fresh peer apart listed r p =>
    exact .link i pkt order own pk k j y head request fresh peer apart listed
      (by simpa [reg] using r) (by simpa [pci] using p)
  | unlink i pkt order x y j head connid mine peer apart theirs crossed r p =>
    exact .unlink i pkt order x y j head connid mine peer apart theirs crossed
      (by simpa [reg] using r) (by simpa [pci] using p)

theorem startHandshake_conn (wf : s.WellFormed) : (startHandshake s).conn = s.conn := by
  have hnew := wf.beyond s.accepted (Nat.le_refl _)
  funext x
  by_cases hx : x = s.accepted
  · subst x; simp [startHandshake, hnew]
  · simp [startHandshake, setConn_ne s _ hx]

theorem accept_effect (wf : s.WellFormed) :
    (startHandshake s).WellFormed ∧ Effect s (startHandshake s) .accept := by
  have hconn := startHandshake_conn wf
  refine ⟨⟨?_, ?_, ?_⟩, .quiet _ trivial (fun _ => rfl) fun x k => pciOf_congr (by rw [hconn]) k⟩
  · intro x
    rw [hconn]
    exact wf.conn x
  · intro k x hk
    rw [hconn]
    obtain ⟨hlt, rest⟩ := wf.registered k x hk
    exact ⟨Nat.lt_succ_of_lt hlt, rest⟩
  · intro x hx
    rw [hconn]
    exact wf.beyond x (Nat.le_of_succ_le hx)

theorem handshake_effect (wf : s.WellFormed) {pk : CryptoKey} (hi : i < s.accepted)
    (hst : (s.conn i).status = .noStatus) (h : step s (.handshake i pk) = some s') :
    s'.WellFormed ∧ Effect s s' (.handshake i pk) := by
  cases h
  refine ⟨wf.setConn hi (handshake_ok (wf.conn i) hst pk) ?_,
    .quiet _ trivial (fun _ => rfl) fun x k => pciOf_congr ?_ k⟩
  · intro k hk
    have := (wf.registered k i hk).2.2.1
    rw [hst] at this
    cases this
  · by_cases hx : x = i
    · subst x; simp
    · rw [setConn_ne s _ hx]

theorem queues_effect (wf : s.WellFormed) (hi : i < s.accepted) (same : (s.conn i).SameButQueues c)
    (idle : Idle s e) : (s.setConn i c).WellFormed ∧ Effect s (s.setConn i c) e := by
  have all := TCPServer.SameButQueues.setConn hi same
  exact ⟨wf.of_same all, .of_same idle all⟩

theorem next_effect (wf : s.WellFormed) (h : next s e = some s') :
    s'.WellFormed ∧ Effect s s' e := by
  obtain ⟨enabled, h⟩ := next_eq_some_iff.mp h
  cases e with
  | accept =>
    cases h
    exact accept_effect wf
  | handshake i pk =>
    obtain ⟨hi, -, hst⟩ := enabled
    exact handshake_effect wf hi hst h
  | confirm i plnpkt =>
    obtain ⟨hi, -, hst⟩ := enabled
    exact ⟨confirmStep_wellFormed wf hi hst h, confirm_effect wf hst h⟩
  | recv i plnpkt order =>
    obtain ⟨hi, -, hst⟩ := enabled
    exact recv_effect wf hi hst h
  | readEnd i =>
    obtain ⟨hi, -⟩ := enabled
    cases h
    have hwf : (doClose s i).WellFormed := wf.doClose hi
    have hacc : i < (doClose s i).accepted := by rw [doClose_accepted wf]; exact hi
    obtain ⟨hwf', hpci⟩ := readEnd_spec hwf hacc
    exact ⟨hwf', (doClose_effect wf (Or.inl rfl)).of_after (fun _ => rfl) hpci⟩
  | loopEnd i =>
    obtain ⟨hi, -⟩ := enabled
    cases h
    exact ⟨wf.doClose hi, doClose_effect wf (Or.inr rfl)⟩
  | takeCtrl i =>
    obtain ⟨r, hr, rfl⟩ := Option.map_eq_some_iff.mp h
    have same : (s.conn i).SameButQueues { s.conn i with cwctrlq := r.2 } :=
      ⟨rfl, rfl, rfl, (Chan.recv_spec hr).2.1, rfl, rfl, rfl, rfl, rfl⟩
    exact queues_effect wf enabled same trivial
  | takeData i =>
    obtain ⟨r, hr, rfl⟩ := Option.map_eq_some_iff.mp h
    have same : (s.conn i).SameButQueues { s.conn i with cwdataq := r.2 } :=
      ⟨rfl, rfl, rfl, rfl, (Chan.recv_spec hr).2.1, rfl, rfl, rfl, rfl⟩
    exact queues_effect wf enabled same trivial

def after (es : List Event) : TCPServer := (exec next newTCPServer es).getD newTCPServer

theorem exec_after (h : (exec next newTCPServer es).isSome = true) :
    exec next newTCPServer es = some (after es) := by
  obtain ⟨s, hs⟩ := Option.isSome_iff_exists.mp h
  simp [after, hs]

theorem next_after (h : (exec next newTCPServer (es ++ [e])).isSome = true) :
    next (after es) e = some (after (es ++ [e])) := by
  obtain ⟨m, hm, last⟩ := exec_snoc_iff.mp (exec_after h)
  simpa [after, hm] using last

def natural : RangeOrder := ⟨connidKeys, .refl _⟩

def joins (i : Nat) (b : UInt8) : List Event :=
  [.accept, .handshake i (keyOf b), .confirm i [4, 1]]

def requests (i : Nat) (b : UInt8) : Event := .recv i (0 :: (keyOf b).val) natural
def disconnects (i : Nat) (connid : UInt8) : Event := .recv i [3, connid] natural
def sends (i : Nat) (connid : UInt8) (data : Bytes) : Event := .recv i (connid :: data) natural

end TcpServer
