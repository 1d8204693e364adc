import Toxera.Mintox.RelayState

/-!
# What the handlers of the relay can do

One lemma for each handler says everything it can do to a well-formed state: which entries
it makes, which objects it links or resets, which registrations it removes.
-/

namespace TcpServer

open CryptoCore

variable {c : TCPSecureConn} {connid k : UInt8} {i j p q : Nat} {order : RangeOrder}
  {own pk : CryptoKey} {pkt : Bytes} {s s' t : TCPServer}

def TCPServer.enterPeer (s : TCPServer) (i : Nat) (pk : CryptoKey) (k : UInt8) : TCPServer :=
  s.setConn i { s.conn i with tables := (s.conn i).tables.grant pk k }

def TCPServer.linkPair (s : TCPServer) (i p j q : Nat) : TCPServer :=
  (s.modifyPci i p fun x =>
    { x with status := 2, otherid := ((s.conn j).tables.pcis q).connid }).modifyPci j q fun x =>
      { x with status := 2, otherid := ((s.conn i).tables.pcis p).connid }

structure Fresh (s : TCPServer) (i : Nat) (own pk : CryptoKey) (k : UInt8) : Prop where
  key : (s.conn i).pubkey = some own
  other : pk ≠ own
  new : (s.conn i).tables.connInfos pk = none
  free : (s.conn i).tables.connIds k = some false

theorem beginRouting_cases (ok : c.tables.Consistent) {r : TCPSecureConn × Option Nat}
    (h : beginRouting c order.keys pk = some r) :
    ∃ self, c.pubkey = some self ∧
    ((r.2 = none ∧ ∃ connid, sendRoutingResponse c connid pk = some r.1 ∧
      (pk = self ∧ connid = 0 ∨
        ∃ p, c.tables.connInfos pk = some p ∧ connid = (c.tables.pcis p).connid)) ∨
    (pk ≠ self ∧ c.tables.connInfos pk = none ∧ r.2 = none ∧
      (∀ k : UInt8, k.toNat < 240 → c.tables.connIds k = some true) ∧
      sendRoutingResponse c 0 pk = some r.1) ∨
    (pk ≠ self ∧ c.tables.connInfos pk = none ∧ r.2 = some c.tables.npci ∧
      ∃ k : UInt8, k.toNat < 240 ∧ c.tables.connIds k = some false ∧
        sendRoutingResponse { c with tables := c.tables.grant pk k } (k + numReservedPorts) pk =
          some r.1)) := by
  unfold beginRouting at h
  cases hkey : c.pubkey with
  | none => simp [hkey] at h
  | some self =>
    refine ⟨self, rfl, ?_⟩
    simp only [hkey] at h
    by_cases hself : pk = self
    · rw [if_pos hself] at h
      obtain ⟨c', hc, rfl⟩ := Option.map_eq_some_iff.mp h
      exact Or.inl ⟨rfl, 0, hc, Or.inl ⟨hself, rfl⟩⟩
    · rw [if_neg hself] at h
      cases hp : c.tables.connInfos pk with
      | some p =>
        have hact : (c.tables.pcis p).status > 0 := by
          rcases ok.active pk p hp with h1 | h1 <;> rw [h1] <;> decide
        simp only [hp, if_pos hact] at h
        obtain ⟨c', hc, rfl⟩ := Option.map_eq_some_iff.mp h
        exact Or.inl ⟨rfl, _, hc, Or.inr ⟨p, rfl, rfl⟩⟩
      | none =>
        refine Or.inr ?_
        simp only [hp] at h
        rcases nextConnid_cases c.tables.connIds order.keys with ⟨k, hk, hfree, heq⟩ | ⟨taken, heq⟩
        · have hlt : k.toNat < 240 := (mem_connidKeys k).mp (order.perm.mem_iff.mp hk)
          simp only [heq, if_neg (offset_ne_zero hlt)] at h
          obtain ⟨c', hc, rfl⟩ := Option.map_eq_some_iff.mp h
          exact Or.inr ⟨hself, rfl, rfl, k, hlt, hfree, hc⟩
        · simp only [heq, if_true] at h
          obtain ⟨c', hc, rfl⟩ := Option.map_eq_some_iff.mp h
          refine Or.inl ⟨hself, rfl, rfl, ?_, hc⟩
          intro k hlt
          obtain ⟨b, hb⟩ := (ok.keys k).mpr hlt
          have := taken k (order.perm.mem_iff.mpr ((mem_connidKeys k).mpr hlt))
          cases b with
          | false => exact absurd hb this
          | true => exact hb

theorem sendConnectNotification_same (hi : i < s.accepted)
    (h : sendConnectNotification s i connid = some s') :
    s.SameButQueues s' := by
  obtain ⟨c, hc, rfl⟩ := Option.map_eq_some_iff.mp h
  exact .setConn hi (sendCtrlPacket_same hc)

theorem sendDisconnectNotification_same (hi : i < s.accepted)
    (h : sendDisconnectNotification s i connid = some s') :
    s.SameButQueues s' := by
  obtain ⟨c, hc, rfl⟩ := Option.map_eq_some_iff.mp h
  exact .setConn hi (sendCtrlPacket_same hc)

theorem linkRouting_cases (wf : s.WellFormed) (hi : i < s.accepted)
    (h : linkRouting s i p pk = some s') :
    (s' = s ∧ ∀ j self, s.conns.lookup pk = some j → (s.conn i).pubkey = some self →
      (s.conn j).tables.connInfos self = none) ∨
    ∃ j self q, s.conns.lookup pk = some j ∧ (s.conn i).pubkey = some self ∧
      (s.conn j).tables.connInfos self = some q ∧ (s.linkPair i p j q).SameButQueues s' := by
  unfold linkRouting at h
  cases hreg : s.conns.lookup pk with
  | none => grind
  | some j =>
    cases hkey : (s.conn i).pubkey with
    | none => simp [hreg, hkey] at h
    | some self =>
      simp only [hreg, hkey] at h
      cases hq : (s.conn j).tables.connInfos self with
      | none => grind
      | some q =>
        simp only [hq] at h
        obtain ⟨s₁, h1, h2⟩ := Option.bind_eq_some_iff.mp h
        have hj := (wf.registered pk j hreg).1
        have same1 := sendConnectNotification_same (by exact hi) h1
        have same2 := sendConnectNotification_same (by rw [same1.accepted]; exact hj) h2
        exact Or.inr ⟨j, self, q, rfl, rfl, hq, same1.trans same2⟩

theorem linkRouting_queues (hj : s.conns.lookup pk = some j) (hown : (s.conn i).pubkey = some own)
    (hq : (s.conn j).tables.connInfos own = some q) (hne : j ≠ i)
    (h : linkRouting s i p pk = some s') (x : Nat) :
    (s'.conn x).cwctrlq.buf =
      if x = i then queued (s.conn i).cwctrlq
        (connectNotification ((s.conn i).tables.pcis p).connid)
      else if x = j then queued (s.conn j).cwctrlq
        (connectNotification ((s.conn j).tables.pcis q).connid)
      else (s.conn x).cwctrlq.buf := by
  simp only [linkRouting, hj, hown, hq] at h
  obtain ⟨s₁, h₁, h₂⟩ := Option.bind_eq_some_iff.mp h
  obtain ⟨c₁, hc₁, rfl⟩ := Option.map_eq_some_iff.mp h₁
  obtain ⟨c₂, hc₂, rfl⟩ := Option.map_eq_some_iff.mp h₂
  have hb₁ := sendCtrlPacket_buf (by simp [connectNotification]) hc₁
  have hb₂ := sendCtrlPacket_buf (by simp [connectNotification]) hc₂
  rw [modifyPci_conn_ne _ _ _ hne.symm, modifyPci_conn_self] at hb₁
  rw [setConn_ne _ _ hne, modifyPci_conn_self, modifyPci_conn_ne _ _ _ hne] at hb₂
  by_cases hxi : x = i
  · subst x
    rw [setConn_ne _ _ hne.symm, setConn_self, hb₁, if_pos rfl]
  · by_cases hxj : x = j
    · subst x
      rw [setConn_self, hb₂, if_neg hxi, if_pos rfl]
    · grind [setConn_ne, modifyPci_conn_ne]

def TCPServer.unlinkPair (s : TCPServer) (j q i p : Nat) : TCPServer :=
  (s.modifyPci j q resetPci).modifyPci i p resetPci

theorem TCPServer.SameButQueues.modifyPci (h : s.SameButQueues t) (hi : i < s.accepted) (p : Nat)
    (f : PeerConnInfo → PeerConnInfo) :
    (s.modifyPci i p f).SameButQueues (t.modifyPci i p f) := by
  refine ⟨?_, h.conns, h.accepted, ?_⟩
  · intro j
    by_cases hj : j = i
    · subst j
      have hc := h.conn i
      rw [modifyPci_conn_self, modifyPci_conn_self]
      exact ⟨hc.pubkey, hc.status, by simp [hc.tables], hc.ctrlClosed, hc.dataClosed,
        hc.onClosed, hc.onConfirmed, hc.reading, hc.pinging⟩
    · rw [modifyPci_conn_ne s p f hj, modifyPci_conn_ne t p f hj]
      exact h.conn j
  · intro j hj
    rw [modifyPci_accepted] at hj
    rw [modifyPci_conn_ne s p f (by omega), modifyPci_conn_ne t p f (by omega), h.beyond j hj]

theorem TCPServer.SameButQueues.linkPair (h : s.SameButQueues t) (hi : i < s.accepted)
    (hj : j < s.accepted) (p q : Nat) :
    (s.linkPair i p j q).SameButQueues (t.linkPair i p j q) := by
  unfold TCPServer.linkPair
  rw [(h.conn i).tables, (h.conn j).tables]
  exact (h.modifyPci hi p _).modifyPci hj q _

theorem TCPServer.WellFormed.setConn (wf : s.WellFormed) (hi : i < s.accepted) (ok : c.Ok)
    (reg : ∀ k, s.conns.lookup k = some i →
      c.pubkey = some k ∧ c.status = .confirmed ∧ c.onClosed = true) :
    (s.setConn i c).WellFormed := by
  refine ⟨?_, ?_, ?_⟩
  · intro j
    by_cases hj : j = i
    · subst j; simpa using ok
    · rw [setConn_ne s c hj]; exact wf.conn j
  · intro k j hk
    rw [setConn_conns] at hk
    by_cases hj : j = i
    · subst j; simpa using ⟨hi, reg k hk⟩
    · rw [setConn_ne s c hj]; exact wf.registered k j hk
  · intro j hj
    rw [setConn_accepted] at hj
    rw [setConn_ne s c (by omega), wf.beyond j hj]

theorem TCPServer.WellFormed.enterPeer (wf : s.WellFormed) (hi : i < s.accepted)
    (hst : (s.conn i).status = .confirmed) {self : CryptoKey} (fresh : Fresh s i self pk k) :
    (s.enterPeer i pk k).WellFormed := by
  have ok := wf.conn i
  refine wf.setConn hi ⟨ok.tables.grant fresh.free fresh.new, ok.callbacks, ok.keyless, ok.keyed,
    fun _ h => absurd hst h, ?_, ok.looping, ok.opened⟩ ?_
  · intro hcl k' hk'
    have heq : k' ≠ pk := by
      rintro rfl
      exact fresh.other (Option.some.inj (hk'.symm.trans fresh.key))
    simpa [Function.update_of_ne heq] using ok.own hcl k' hk'
  · intro k' hk'
    exact (wf.registered k' i hk').2

def requestKey (pkt : Bytes) : Option CryptoKey := newCryptoKey ((pkt.drop 1).take publicKeySize)

theorem handleRoutingRequest_split (ok : (s.conn i).tables.Consistent)
    (h : handleRoutingRequest s i order.keys pkt = some s') :
    ∃ pk own, requestKey pkt = some pk ∧ (s.conn i).pubkey = some own ∧
    ((∃ connid c, sendRoutingResponse (s.conn i) connid pk = some c ∧ s' = s.setConn i c ∧
      (pk = own ∨ (∃ p, (s.conn i).tables.connInfos pk = some p) ∨ connid = 0 ∧
        ∀ k : UInt8, k.toNat < 240 → (s.conn i).tables.connIds k = some true)) ∨
    ∃ k c, k.toNat < 240 ∧ Fresh s i own pk k ∧
      sendRoutingResponse { s.conn i with tables := (s.conn i).tables.grant pk k }
        (k + numReservedPorts) pk = some c ∧
      linkRouting (s.setConn i c) i (s.conn i).tables.npci pk = some s') := by
  unfold handleRoutingRequest at h
  split_ifs at h
  obtain ⟨pk, hpk, h⟩ := Option.bind_eq_some_iff.mp h
  obtain ⟨r, hr, h⟩ := Option.bind_eq_some_iff.mp h
  obtain ⟨own, hown, cases⟩ := beginRouting_cases ok hr
  refine ⟨pk, own, hpk, hown, ?_⟩
  rcases cases with ⟨hnone, connid, hsend, why⟩ | ⟨hne, hnew, hnone, taken, hsend⟩ |
    ⟨hne, hnew, hsome, k, hlt, hfree, hsend⟩
  · rw [hnone] at h
    refine Or.inl ⟨connid, r.1, hsend, (Option.some.inj h).symm, ?_⟩
    rcases why with ⟨heq, -⟩ | ⟨p, hp, -⟩
    · exact Or.inl heq
    · exact Or.inr (Or.inl ⟨p, hp⟩)
  · grind
  · rw [hsome] at h
    exact Or.inr ⟨k, r.1, hlt, ⟨hown, hne, hnew, hfree⟩, hsend, h⟩

theorem granted_same (hi : i < s.accepted)
    (h : sendRoutingResponse
      { s.conn i with tables := (s.conn i).tables.grant pk k } (k + numReservedPorts) pk = some c) :
    (s.enterPeer i pk k).SameButQueues (s.setConn i c) := by
  have := TCPServer.SameButQueues.setConn (s := s.enterPeer i pk k) (i := i) hi
    (by simpa [TCPServer.enterPeer] using sendCtrlPacket_same h)
  simpa [TCPServer.enterPeer, TCPServer.setConn] using this

theorem TCPServer.WellFormed.registered_ne (wf : s.WellFormed) (hown : (s.conn i).pubkey = some own)
    (other : pk ≠ own) (hj : s.conns.lookup pk = some j) : j ≠ i := by
  rintro rfl
  exact other (Option.some.inj ((wf.registered pk j hj).2.1.symm.trans hown))

theorem handleRoutingRequest_cases (wf : s.WellFormed) (hi : i < s.accepted)
    (hst : (s.conn i).status = .confirmed) (h : handleRoutingRequest s i order.keys pkt = some s') :
    ∃ pk own, requestKey pkt = some pk ∧ (s.conn i).pubkey = some own ∧
    (s.SameButQueues s' ∧ (pk = own ∨ (∃ p, (s.conn i).tables.connInfos pk = some p) ∨
        ∀ k : UInt8, k.toNat < 240 → (s.conn i).tables.connIds k = some true) ∨
    ∃ k, Fresh s i own pk k ∧
      ((s.enterPeer i pk k).SameButQueues s' ∧
        (∀ j, s.conns.lookup pk = some j → (s.conn j).tables.connInfos own = none) ∨
      ∃ j q, s.conns.lookup pk = some j ∧ j ≠ i ∧ (s.conn j).tables.connInfos own = some q ∧
        ((s.enterPeer i pk k).linkPair i (s.conn i).tables.npci j q).SameButQueues s')) := by
  obtain ⟨pk, own, hpk, hown, cases⟩ := handleRoutingRequest_split (wf.conn i).tables h
  refine ⟨pk, own, hpk, hown, ?_⟩
  rcases cases with ⟨connid, c, hsend, rfl, why⟩ | ⟨k, c, -, fresh, hsend, h⟩
  · refine Or.inl ⟨.setConn hi (sendCtrlPacket_same hsend), ?_⟩
    exact why.imp id (Or.imp id And.right)
  · refine Or.inr ⟨k, fresh, ?_⟩
    have hsame := granted_same hi hsend
    have hwf := (wf.enterPeer hi hst fresh).of_same hsame
    have hown' : ((s.setConn i c).conn i).pubkey = some own :=
      (hsame.conn i).pubkey.trans (by simpa [TCPServer.enterPeer] using hown)
    rcases linkRouting_cases hwf hi h with ⟨rfl, nolink⟩ | ⟨j, own', q, hj, hs, hq, hlink⟩
    · refine Or.inl ⟨hsame, ?_⟩
      intro j hj
      simpa [setConn_ne s c (wf.registered_ne hown fresh.other hj)] using nolink j own hj hown'
    · obtain rfl := Option.some.inj (hs.symm.trans hown')
      have hne := wf.registered_ne hown fresh.other hj
      rw [setConn_ne s c hne] at hq
      exact Or.inr ⟨j, q, hj, hne, hq,
        (hsame.linkPair hi (wf.registered pk j hj).1 _ q).trans hlink⟩

theorem handleDisconnectNotification_cases (h : handleDisconnectNotification s i pkt = some s') :
    ∃ connid p, pkt[1]? = some connid ∧ (s.conn i).tables.connInfos2 connid = some p ∧
    (s' = s ∧ (∀ j, s.conns.lookup ((s.conn i).tables.pcis p).pubkey = some j →
        (s.conn j).tables.connInfos2 ((s.conn i).tables.pcis p).otherid = none) ∨
    ∃ j q, s.conns.lookup ((s.conn i).tables.pcis p).pubkey = some j ∧
      (s.conn j).tables.connInfos2 ((s.conn i).tables.pcis p).otherid = some q ∧
      sendDisconnectNotification (s.unlinkPair j q i p) j
        ((s.conn j).tables.pcis q).connid = some s') := by
  unfold handleDisconnectNotification at h
  cases hpkt : pkt[1]? with
  | none => simp [hpkt] at h
  | some connid =>
    simp only [hpkt] at h
    cases hp : (s.conn i).tables.connInfos2 connid with
    | none => simp [hp] at h
    | some p =>
      simp only [hp] at h
      refine ⟨connid, p, rfl, hp, ?_⟩
      cases hj : s.conns.lookup ((s.conn i).tables.pcis p).pubkey with
      | none => grind
      | some j =>
        simp only [hj] at h
        cases hq : (s.conn j).tables.connInfos2 ((s.conn i).tables.pcis p).otherid with
        | none => grind
        | some q =>
          simp only [hq] at h
          exact Or.inr ⟨j, q, rfl, hq, h⟩

theorem handleRoutingData_cases {rpkt : Bytes} (h : handleRoutingData s i rpkt = some s') :
    ∃ connid data, rpkt = connid :: data ∧
    (s' = s ∧ (∀ p j own, (s.conn i).tables.connInfos2 connid = some p →
        s.conns.lookup ((s.conn i).tables.pcis p).pubkey = some j →
        (s.conn i).pubkey = some own → (s.conn j).tables.connInfos own = none) ∨
    ∃ p j own q c, (s.conn i).tables.connInfos2 connid = some p ∧
      s.conns.lookup ((s.conn i).tables.pcis p).pubkey = some j ∧
      (s.conn i).pubkey = some own ∧ (s.conn j).tables.connInfos own = some q ∧
      sendDataPacket (s.conn j) ((s.conn j).tables.pcis q).connid data = some c ∧
      s' = s.setConn j c) := by
  cases rpkt with
  | nil => simp [handleRoutingData] at h
  | cons connid data =>
    refine ⟨connid, data, rfl, ?_⟩
    unfold handleRoutingData at h
    simp only at h
    cases hp : (s.conn i).tables.connInfos2 connid with
    | none => grind
    | some p =>
      simp only [hp] at h
      cases hj : s.conns.lookup ((s.conn i).tables.pcis p).pubkey with
      | none => grind
      | some j =>
        cases hown : (s.conn i).pubkey with
        | none => simp [hj, hown] at h
        | some own =>
          simp only [hj, hown] at h
          cases hq : (s.conn j).tables.connInfos own with
          | none => grind
          | some q =>
            simp only [hq] at h
            obtain ⟨c, hc, rfl⟩ := Option.map_eq_some_iff.mp h
            exact Or.inr ⟨p, j, own, q, c, rfl, hj, rfl, hq, hc, rfl⟩

theorem dispatch_cases {order : List UInt8} (h : dispatch s i order pkt = some s') :
    ((pkt.head? ≠ some 0 ∧ pkt.head? ≠ some 3) ∧
      (s' = s ∨ ∃ c, handlePingRequest (s.conn i) pkt = some c ∧ s' = s.setConn i c)) ∨
    (pkt.head? = some 0 ∧ handleRoutingRequest s i order pkt = some s') ∨
    (pkt.head? = some 3 ∧ handleDisconnectNotification s i pkt = some s') ∨
    ∃ connid, pkt.head? = some connid ∧ numReservedPorts ≤ connid ∧
      handleRoutingData s i pkt = some s' := by
  cases pkt with
  | nil => simp [dispatch] at h
  | cons ptype rest =>
    have other : ∀ c : UInt8, ptype ≠ c → (ptype :: rest).head? ≠ some c := by grind
    unfold dispatch at h
    simp only at h
    split_ifs at h with ping pong request answer disconnect todo data reserved
    · obtain ⟨c, hc, rfl⟩ := Option.map_eq_some_iff.mp h
      subst ping
      exact Or.inl ⟨⟨other 0 (by decide), other 3 (by decide)⟩, Or.inr ⟨c, hc, rfl⟩⟩
    · grind
    · exact Or.inr (Or.inl ⟨by simp [request], h⟩)
    · grind
    · grind
    · grind
    · exact Or.inr (Or.inr (Or.inr ⟨ptype, rfl, data, h⟩))
    · grind

theorem resetLink_conn (k : CryptoKey) (s : TCPServer) (j : Nat) :
    (resetLink k s j).conn j =
      match (s.conn j).tables.connInfos k with
      | none => s.conn j
      | some p => { s.conn j with tables := (s.conn j).tables.modifyPci p resetPci } := by
  unfold resetLink
  split <;> simp_all

theorem resetLink_conn_ne (k : CryptoKey) (s : TCPServer) (h : i ≠ j) :
    (resetLink k s j).conn i = s.conn i := by
  unfold resetLink
  split
  · rfl
  · exact modifyPci_conn_ne s _ _ h

def TCPSecureConn.resetLink (c : TCPSecureConn) (k : CryptoKey) : TCPSecureConn :=
  match c.tables.connInfos k with
  | none => c
  | some p => { c with tables := c.tables.modifyPci p resetPci }

theorem foldl_resetLink (k : CryptoKey) (s : TCPServer) (l : List Nat) (distinct : l.Nodup) :
    (l.foldl (resetLink k) s).conns = s.conns ∧ (l.foldl (resetLink k) s).accepted = s.accepted ∧
    ∀ i, (i ∈ l → (l.foldl (resetLink k) s).conn i = (s.conn i).resetLink k) ∧
      (i ∉ l → (l.foldl (resetLink k) s).conn i = s.conn i) := by
  have kept : (l.foldl (resetLink k) s).conns = s.conns ∧
      (l.foldl (resetLink k) s).accepted = s.accepted := by
    induction l generalizing s with
    | nil => exact ⟨rfl, rfl⟩
    | cons j rest ih =>
      obtain ⟨conns, accepted⟩ := ih (resetLink k s j) (List.nodup_cons.mp distinct).2
      rw [List.foldl_cons, conns, accepted]
      unfold resetLink
      split <;> exact ⟨rfl, rfl⟩
  refine ⟨kept.1, kept.2, ?_⟩
  intro i
  exact Pointwise.foldl_cell (fun s i => s.conn i) (resetLink k) (fun _ c => c.resetLink k)
    (resetLink_conn k) (fun s j i h => resetLink_conn_ne k s h) distinct s i

theorem killAccepted_spec (k : CryptoKey) (distinct : s.registered.Nodup)
    (opened : ∀ j ∈ s.registered, (s.conn j).cwctrlq.closed = false) :
    ∃ t, killAccepted s k = .ok t ∧ t.conns = s.conns ∧ t.accepted = s.accepted ∧
      (∀ j ∈ s.registered, ((s.conn j).resetLink k).SameButQueues (t.conn j)) ∧
      ∀ i, i ∉ s.registered → t.conn i = s.conn i := by
  obtain ⟨hconns, hacc, hcell⟩ := foldl_resetLink k s s.registered distinct
  obtain ⟨t, hfold, ⟨hkeep, hkeep'⟩, hpost, hother⟩ := Pointwise.foldlM_cell
    (fun s i => s.conn i) (notifyClosed k) (fun _ c => c.cwctrlq.closed = false)
    (fun _ c c' => c.SameButQueues c')
    (fun s t => t.conns = s.conns ∧ t.accepted = s.accepted) (fun s => ⟨rfl, rfl⟩)
    (fun s t r h h' => ⟨h'.1.trans h.1, h'.2.trans h.2⟩)
    (by
      intro s j hopen
      unfold notifyClosed
      split
      · exact ⟨s, rfl, .refl _, ⟨rfl, rfl⟩, fun _ _ => rfl⟩
      · rename_i p _
        obtain ⟨c, hc⟩ := sendCtrlPacket_isSome hopen
          (disconnectNotification ((s.conn j).tables.pcis p).connid)
        refine ⟨s.setConn j c, ?_, ?_, ⟨rfl, rfl⟩, ?_⟩
        · simp [sendDisconnectNotification, hc, pure, Except.pure]
        · simpa using sendCtrlPacket_same hc
        · intro i hi
          exact setConn_ne s c hi)
    (List.nodup_dedup s.registered) (s.registered.foldl (resetLink k) s)
    (by
      intro j hj
      rw [(hcell j).1 (List.mem_dedup.mp hj)]
      have := opened j (List.mem_dedup.mp hj)
      unfold TCPSecureConn.resetLink
      split <;> exact this)
  refine ⟨t, hfold, hkeep.trans hconns, hkeep'.trans hacc, ?_, ?_⟩
  · intro j hj
    rw [← (hcell j).1 hj]
    exact hpost j (List.mem_dedup.mpr hj)
  · intro i hi
    rw [hother i (fun h => hi (List.mem_dedup.mp h)), (hcell i).2 hi]

def closedConn (c : TCPSecureConn) : TCPSecureConn := finishClose { c with status := .noStatus }

theorem finishClose_fields (c : TCPSecureConn) :
    (finishClose c).pubkey = c.pubkey ∧ (finishClose c).status = c.status ∧
    (finishClose c).tables = c.tables ∧ (finishClose c).reading = c.reading ∧
    (finishClose c).pinging = c.pinging ∧ (finishClose c).onClosed = false ∧
    (finishClose c).onConfirmed = false := by
  unfold finishClose
  simp only
  split
  · simp
  · split
    · simp
    · split <;> simp

theorem closedConn_fields (c : TCPSecureConn) :
    (closedConn c).pubkey = c.pubkey ∧ (closedConn c).status = .noStatus ∧
    (closedConn c).tables = c.tables ∧ (closedConn c).reading = c.reading ∧
    (closedConn c).pinging = c.pinging ∧ (closedConn c).onClosed = false ∧
    (closedConn c).onConfirmed = false :=
  finishClose_fields { c with status := .noStatus }

theorem closedConn_ok (h : c.tables.Consistent) : (closedConn c).Ok := by
  obtain ⟨-, -, htab, -, -, hcl, hcf⟩ := closedConn_fields c
  constructor
  · rw [htab]; exact h
  · rw [hcl, hcf]
  all_goals intro hbad; rw [hcl] at hbad; cases hbad

theorem doClose_quiet (h : (s.conn i).onClosed = false) :
    doClose s i = s.setConn i (closedConn (s.conn i)) := by
  simp [doClose, h, closedConn, TCPServer.setConn]

theorem doClose_keyless (h : (s.conn i).onClosed = true) (hkey : (s.conn i).pubkey = none) :
    doClose s i = { s.setConn i { s.conn i with status := .noStatus } with
      hsConns := s.hsConns.erase i } := by
  simp [doClose, h, onConnClosed, hkey, TCPServer.setConn]

theorem doClose_keyed (wf : s.WellFormed) {k : CryptoKey} (h : (s.conn i).onClosed = true)
    (hkey : (s.conn i).pubkey = some k) :
    (doClose s i).conns = s.conns.erase k ∧ (doClose s i).accepted = s.accepted ∧
    (doClose s i).conn i = closedConn (s.conn i) ∧
    ∀ x, x ≠ i → ((∃ k', k' ≠ k ∧ s.conns.lookup k' = some x) →
        ((s.conn x).resetLink k).SameButQueues ((doClose s i).conn x)) ∧
      ((∀ k', k' ≠ k → s.conns.lookup k' ≠ some x) → (doClose s i).conn x = s.conn x) := by
  let s₁ : TCPServer := { s.setConn i { s.conn i with status := .noStatus } with
    hsConns := s.hsConns.erase i, conns := s.conns.erase k }
  have lookup : ∀ k' x, s₁.conns.lookup k' = some x ↔ k' ≠ k ∧ s.conns.lookup k' = some x := by
    intro k' x
    by_cases hk : k' = k
    · subst k'; simp [s₁]
    · simp [s₁, AList.lookup_erase_ne hk, hk]
  have hreg : ∀ x, x ∈ s₁.registered ↔ ∃ k', k' ≠ k ∧ s.conns.lookup k' = some x := by
    intro x
    rw [mem_registered]
    exact exists_congr fun k' => lookup k' x
  -- the closing connection is registered under its own key only
  have hi : i ∉ s₁.registered := by
    rw [hreg]
    rintro ⟨k', hne, hk'⟩
    exact hne (Option.some.inj ((wf.registered k' i hk').2.1.symm.trans hkey))
  have hconn : ∀ x, x ≠ i → s₁.conn x = s.conn x := fun x hx => setConn_ne s _ hx
  have distinct : s₁.registered.Nodup := registered_nodup fun k' k'' x h1 h2 =>
    wf.registered_inj ((lookup k' x).mp h1).2 ((lookup k'' x).mp h2).2
  have opened : ∀ j ∈ s₁.registered, (s₁.conn j).cwctrlq.closed = false := by
    intro j hj
    obtain ⟨k', -, hk'⟩ := (hreg j).mp hj
    rw [hconn j (by rintro rfl; exact hi hj)]
    exact ((wf.conn j).opened (wf.registered k' j hk').2.2.2).1
  obtain ⟨t, hkill, hconns, hacc, hpost, hother⟩ := killAccepted_spec k distinct opened
  have hti : t.conn i = { s.conn i with status := .noStatus } := by
    rw [hother i hi]
    simp [s₁, TCPServer.setConn]
  have hclose : doClose s i = t.setConn i (finishClose (t.conn i)) := by
    have hcall : onConnClosed (s.setConn i { s.conn i with status := .noStatus }) i = .ok t := by
      simpa [onConnClosed, hkey, s₁, TCPServer.setConn] using hkill
    have hlive : ((s.setConn i { s.conn i with status := .noStatus }).conn i).onClosed = true := by
      simpa using h
    simp only [doClose, hlive, if_true, hcall]
  rw [hclose]
  refine ⟨hconns, hacc, ?_, ?_⟩
  · rw [setConn_self, hti]
    rfl
  · intro x hx
    rw [setConn_ne t _ hx]
    refine ⟨?_, ?_⟩
    · grind
    · grind

theorem doClose_accepted (wf : s.WellFormed) (i : Nat) :
    (doClose s i).accepted = s.accepted := by
  cases hcl : (s.conn i).onClosed with
  | false => rw [doClose_quiet hcl]; rfl
  | true =>
    cases hkey : (s.conn i).pubkey with
    | none => rw [doClose_keyless hcl hkey]; rfl
    | some k => exact (doClose_keyed wf hcl hkey).2.1

theorem pciOf_enterPeer (ok : (s.conn i).tables.Consistent) (pk : CryptoKey) (k : UInt8) (j : Nat)
    (k' : CryptoKey) :
    pciOf (s.enterPeer i pk k) j k' =
      if j = i ∧ k' = pk then some ⟨pk, 1, 0, k + numReservedPorts⟩ else pciOf s j k' := by
  by_cases hj : j = i
  · subst j
    by_cases hk : k' = pk
    · subst k'
      simp [pciOf, TCPServer.enterPeer]
    · simp only [pciOf, TCPServer.enterPeer, setConn_self, RoutingTables.grant_connInfos,
        RoutingTables.grant_pcis, Function.update_of_ne hk, hk, and_false, if_false]
      cases hp : (s.conn i).tables.connInfos k' with
      | none => rfl
      | some p =>
        have hne : p ≠ (s.conn i).tables.npci := Nat.ne_of_lt (ok.allocated k' p hp)
        simp [Function.update_of_ne hne]
  · simp [pciOf, TCPServer.enterPeer, setConn_ne s _ hj, hj]

theorem Fresh.other_entry (fresh : Fresh s i own pk k) {a : Nat} {k' : CryptoKey} {x : PeerConnInfo}
    (h : pciOf s a k' = some x) : ¬ (a = i ∧ k' = pk) := by
  rintro ⟨rfl, rfl⟩
  rw [pciOf_eq_none_iff.mpr fresh.new] at h
  cases h

theorem pciOf_linkPair (oki : (s.conn i).tables.Consistent) (okj : (s.conn j).tables.Consistent)
    (hne : j ≠ i) (hp : (s.conn i).tables.connInfos pk = some p)
    (hq : (s.conn j).tables.connInfos own = some q) (z : Nat) (k' : CryptoKey) :
    pciOf (s.linkPair i p j q) z k' =
      if z = j ∧ k' = own then some { (s.conn j).tables.pcis q with
        status := 2, otherid := ((s.conn i).tables.pcis p).connid }
      else if z = i ∧ k' = pk then some { (s.conn i).tables.pcis p with
        status := 2, otherid := ((s.conn j).tables.pcis q).connid }
      else pciOf s z k' := by
  unfold TCPServer.linkPair
  rw [pciOf_modifyPci (k := own) (by rw [modifyPci_conn_ne s p _ hne]; exact okj)
    (by rw [modifyPci_conn_ne s p _ hne]; exact hq), pciOf_modifyPci oki hp,
    pciOf_modifyPci oki hp]
  have hjp : pciOf s j own = some ((s.conn j).tables.pcis q) := by simp [pciOf, hq]
  have hip : pciOf s i pk = some ((s.conn i).tables.pcis p) := by simp [pciOf, hp]
  simp [hne, hjp, hip]

theorem pciOf_unlinkPair {kj ki : CryptoKey} (oki : (s.conn i).tables.Consistent)
    (okj : (s.conn j).tables.Consistent) (hne : j ≠ i)
    (hp : (s.conn i).tables.connInfos ki = some p) (hq : (s.conn j).tables.connInfos kj = some q)
    (z : Nat) (k' : CryptoKey) :
    pciOf (s.unlinkPair j q i p) z k' =
      if z = j ∧ k' = kj then some (resetPci ((s.conn j).tables.pcis q))
      else if z = i ∧ k' = ki then some (resetPci ((s.conn i).tables.pcis p))
      else pciOf s z k' := by
  unfold TCPServer.unlinkPair
  have hij : i ≠ j := hne.symm
  rw [pciOf_modifyPci (k := ki) (by rw [modifyPci_conn_ne s q _ hij]; exact oki)
    (by rw [modifyPci_conn_ne s q _ hij]; exact hp), pciOf_modifyPci okj hq,
    pciOf_modifyPci okj hq]
  have hjp : pciOf s j kj = some ((s.conn j).tables.pcis q) := by simp [pciOf, hq]
  have hip : pciOf s i ki = some ((s.conn i).tables.pcis p) := by simp [pciOf, hp]
  by_cases hz : z = i ∧ k' = ki
  · obtain ⟨rfl, rfl⟩ := hz
    simp [hij, hip]
  · simp [hz, hjp]

theorem resetLink_pcis (ok : c.tables.Consistent) (k k' : CryptoKey) :
    ((c.resetLink k).tables.connInfos k').map (c.resetLink k).tables.pcis =
      if k' = k then ((c.tables.connInfos k).map c.tables.pcis).map resetPci
      else (c.tables.connInfos k').map c.tables.pcis := by
  unfold TCPSecureConn.resetLink
  cases hp : c.tables.connInfos k with
  | none =>
    by_cases hk : k' = k
    · subst k'; simp [hp]
    · simp [hk]
  | some p =>
    by_cases hk : k' = k
    · subst k'; simp [RoutingTables.modifyPci, hp]
    · simp only [RoutingTables.modifyPci, hk, if_false]
      cases hq : c.tables.connInfos k' with
      | none => rfl
      | some q =>
        have hne : q ≠ p := by rintro rfl; exact hk (ok.pointer_inj hq hp)
        simp [Function.update_of_ne hne]

theorem TCPSecureConn.Ok.resetLink (h : c.Ok) (k : CryptoKey) :
    (c.resetLink k).Ok := by
  unfold TCPSecureConn.resetLink
  split
  · exact h
  · exact h.modifyPci _ (fun _ => rfl) (fun _ => rfl) (fun _ => Or.inl rfl)

theorem resetLink_fields (c : TCPSecureConn) (k : CryptoKey) :
    (c.resetLink k).pubkey = c.pubkey ∧ (c.resetLink k).status = c.status ∧
    (c.resetLink k).onClosed = c.onClosed ∧ (c.resetLink k).pinging = c.pinging ∧
    (c.resetLink k).onConfirmed = c.onConfirmed ∧ (c.resetLink k).reading = c.reading := by
  unfold TCPSecureConn.resetLink
  split <;> simp

theorem TCPServer.WellFormed.linkPair (wf : s.WellFormed) (hi : i < s.accepted)
    (hj : j < s.accepted) (p q : Nat) :
    (s.linkPair i p j q).WellFormed := by
  unfold TCPServer.linkPair
  refine TCPServer.WellFormed.modifyPci (wf.modifyPci hi p ?_ ?_ ?_) hj q ?_ ?_ ?_
  all_goals intro x; simp

theorem TCPServer.WellFormed.unlinkPair (wf : s.WellFormed) (hi : i < s.accepted)
    (hj : j < s.accepted) (p q : Nat) :
    (s.unlinkPair j q i p).WellFormed := by
  unfold TCPServer.unlinkPair
  refine TCPServer.WellFormed.modifyPci (wf.modifyPci hj q ?_ ?_ ?_) hi p ?_ ?_ ?_
  all_goals intro x; simp [resetPci]

theorem TCPServer.WellFormed.keyless (wf : s.WellFormed) (h : (s.conn i).onClosed = true)
    (hkey : (s.conn i).pubkey = none) :
    (s.conn i).status = .noStatus := by
  by_contra hne
  obtain ⟨k, hk⟩ := (wf.conn i).keyed h hne
  rw [hkey] at hk
  cases hk

theorem TCPServer.WellFormed.doClose_keyed (wf : s.WellFormed) {k : CryptoKey}
    (h : (s.conn i).onClosed = true) (hkey : (s.conn i).pubkey = some k) (hi : i < s.accepted) :
    (doClose s i).WellFormed := by
  obtain ⟨hconns, hacc, hself, hother⟩ := TcpServer.doClose_keyed wf h hkey
  refine ⟨?_, ?_, ?_⟩
  · intro x
    by_cases hx : x = i
    · subst x; rw [hself]; exact closedConn_ok (wf.conn i).tables
    · by_cases hreg : ∃ k', k' ≠ k ∧ s.conns.lookup k' = some x
      · exact ((wf.conn x).resetLink k).of_same ((hother x hx).1 hreg)
      · rw [(hother x hx).2 (fun k' hne hk' => hreg ⟨k', hne, hk'⟩)]
        exact wf.conn x
  · intro k' x hk'
    rw [hconns] at hk'
    have hne : k' ≠ k := by rintro rfl; simp at hk'
    rw [AList.lookup_erase_ne hne] at hk'
    have hx : x ≠ i := by
      rintro rfl
      exact hne (Option.some.inj ((wf.registered k' x hk').2.1.symm.trans hkey))
    have hsame := (hother x hx).1 ⟨k', hne, hk'⟩
    obtain ⟨fkey, fst, fcl, -⟩ := resetLink_fields (s.conn x) k
    obtain ⟨hlt, hk, hst, hlive⟩ := wf.registered k' x hk'
    exact ⟨hacc ▸ hlt, hsame.pubkey.trans (fkey.trans hk), hsame.status.trans (fst.trans hst),
      hsame.onClosed.trans (fcl.trans hlive)⟩
  · intro x hx
    rw [hacc] at hx
    have unlisted : ∀ k', k' ≠ k → s.conns.lookup k' ≠ some x := fun k' _ hk' =>
      absurd (wf.registered k' x hk').1 (not_lt.mpr hx)
    rw [(hother x (by omega)).2 unlisted, wf.beyond x hx]

theorem TCPServer.WellFormed.doClose (wf : s.WellFormed) (hi : i < s.accepted) :
    (doClose s i).WellFormed := by
  cases hcl : (s.conn i).onClosed with
  | false =>
    rw [doClose_quiet hcl]
    refine wf.setConn hi (closedConn_ok (wf.conn i).tables) ?_
    intro k hk
    have := (wf.registered k i hk).2.2.2
    rw [hcl] at this
    cases this
  | true =>
    cases hkey : (s.conn i).pubkey with
    | none =>
      have hsame : { s.conn i with status := TcpStatus.noStatus } = s.conn i := by
        rw [← wf.keyless hcl hkey]
      rw [doClose_keyless hcl hkey, hsame]
      have hwf := wf.setConn hi (wf.conn i) (fun k hk => (wf.registered k i hk).2)
      exact ⟨hwf.conn, hwf.registered, hwf.beyond⟩
    | some k => exact wf.doClose_keyed hcl hkey hi

/-- A relation between two states of a connection that holds along the single steps of
the handlers: an object changes but for its id, or a packet goes into a queue. -/
structure ConnSteps (R : TCPSecureConn → TCPSecureConn → Prop) : Prop where
  refl : ∀ c, R c c
  trans : ∀ {a b c}, R a b → R b c → R a c
  modify : ∀ (c : TCPSecureConn) (p : Nat) (f : PeerConnInfo → PeerConnInfo),
    (∀ x, (f x).connid = x.connid) → R c { c with tables := c.tables.modifyPci p f }
  ctrl : ∀ {c c' : TCPSecureConn} {data : Bytes}, sendCtrlPacket c data = some c' → R c c'
  data : ∀ {c c' : TCPSecureConn} {k : CryptoKey} {p : Nat} {data : Bytes},
    c.tables.connInfos k = some p →
    sendDataPacket c (c.tables.pcis p).connid data = some c' → R c c'

/-- The relation holds for every connection, and the lists of connections are unchanged. -/
structure TCPServer.Stepped (R : TCPSecureConn → TCPSecureConn → Prop) (s s' : TCPServer) :
    Prop where
  conn : ∀ x, R (s.conn x) (s'.conn x)
  hsConns : s'.hsConns = s.hsConns
  conns : s'.conns = s.conns

def reached : Except TCPServer TCPServer → TCPServer
  | .ok s => s
  | .error s => s

namespace ConnSteps

variable {R : TCPSecureConn → TCPSecureConn → Prop}

theorem same (steps : ConnSteps R) (s : TCPServer) : s.Stepped R s :=
  ⟨fun _ => steps.refl _, rfl, rfl⟩

theorem comp (steps : ConnSteps R) {a b c : TCPServer} (h : a.Stepped R b) (h' : b.Stepped R c) :
    a.Stepped R c :=
  ⟨fun x => steps.trans (h.conn x) (h'.conn x), h'.hsConns.trans h.hsConns,
    h'.conns.trans h.conns⟩

theorem setConn (steps : ConnSteps R) (h : R (s.conn i) c) : s.Stepped R (s.setConn i c) := by
  refine ⟨fun x => ?_, rfl, rfl⟩
  by_cases hx : x = i
  · subst x
    rw [setConn_self]
    exact h
  · rw [setConn_ne s c hx]
    exact steps.refl _

theorem modifyPci (steps : ConnSteps R) (s : TCPServer) (i p : Nat)
    {f : PeerConnInfo → PeerConnInfo} (kept : ∀ x, (f x).connid = x.connid) :
    s.Stepped R (s.modifyPci i p f) :=
  steps.setConn (steps.modify _ p f kept)

theorem linkPair (steps : ConnSteps R) (s : TCPServer) (i p j q : Nat) :
    s.Stepped R (s.linkPair i p j q) := by
  unfold TCPServer.linkPair
  refine steps.comp (steps.modifyPci s i p ?_) (steps.modifyPci _ j q ?_)
  · exact fun _ => rfl
  · exact fun _ => rfl

theorem unlinkPair (steps : ConnSteps R) (s : TCPServer) (i p j q : Nat) :
    s.Stepped R (s.unlinkPair i p j q) := by
  unfold TCPServer.unlinkPair
  refine steps.comp (steps.modifyPci s i p ?_) (steps.modifyPci _ j q ?_)
  · exact fun _ => rfl
  · exact fun _ => rfl

theorem linkRouting (steps : ConnSteps R) (h : linkRouting s i p pk = some s') :
    s.Stepped R s' := by
  unfold TcpServer.linkRouting at h
  split at h
  · cases h
    exact steps.same _
  · cases h
  · split at h
    · cases h
      exact steps.same _
    · obtain ⟨s₁, h₁, h₂⟩ := Option.bind_eq_some_iff.mp h
      obtain ⟨c₁, hc₁, rfl⟩ := Option.map_eq_some_iff.mp h₁
      obtain ⟨c₂, hc₂, rfl⟩ := Option.map_eq_some_iff.mp h₂
      exact steps.comp (steps.comp (steps.linkPair s _ _ _ _) (steps.setConn (steps.ctrl hc₁)))
        (steps.setConn (steps.ctrl hc₂))

theorem dispatch (steps : ConnSteps R) {order : List UInt8} (other : pkt.head? ≠ some 0)
    (h : dispatch s i order pkt = some s') :
    s.Stepped R s' := by
  rcases dispatch_cases h with ⟨-, rfl | ⟨c, hc, rfl⟩⟩ | ⟨request, -⟩ | ⟨-, h⟩ | ⟨connid, -, -, h⟩
  · exact steps.same _
  · exact steps.setConn (steps.ctrl hc)
  · exact absurd request other
  · obtain ⟨connid, p, -, -, ⟨rfl, -⟩ | ⟨j, q, -, -, sent⟩⟩ :=
      handleDisconnectNotification_cases h
    · exact steps.same _
    · obtain ⟨c, hc, rfl⟩ := Option.map_eq_some_iff.mp sent
      exact steps.comp (steps.unlinkPair s _ _ _ _) (steps.setConn (steps.ctrl hc))
  · obtain ⟨connid, data, -, ⟨rfl, -⟩ | ⟨p, j, own, q, c, -, -, -, entry, hc, rfl⟩⟩ :=
      handleRoutingData_cases h
    · exact steps.same _
    · exact steps.setConn (steps.data entry hc)

theorem foldl_resetLink (steps : ConnSteps R) (k : CryptoKey) (l : List Nat) (s : TCPServer) :
    s.Stepped R (l.foldl (resetLink k) s) := by
  induction l generalizing s with
  | nil => exact steps.same _
  | cons j rest ih =>
    refine steps.comp ?_ (ih (resetLink k s j))
    unfold resetLink
    split
    · exact steps.same _
    · exact steps.modifyPci _ _ _ fun _ => rfl

theorem notifyClosed (steps : ConnSteps R) (k : CryptoKey) (s : TCPServer) (j : Nat) :
    s.Stepped R (reached (notifyClosed k s j)) := by
  unfold TcpServer.notifyClosed
  split
  · exact steps.same _
  · split
    · exact steps.same _
    · rename_i sent
      obtain ⟨c, hc, rfl⟩ := Option.map_eq_some_iff.mp sent
      exact steps.setConn (steps.ctrl hc)

theorem foldlM_notifyClosed (steps : ConnSteps R) (k : CryptoKey) (l : List Nat)
    (s : TCPServer) : s.Stepped R (reached (l.foldlM (TcpServer.notifyClosed k) s)) := by
  induction l generalizing s with
  | nil => exact steps.same _
  | cons j rest ih =>
    have first := steps.notifyClosed k s j
    rw [List.foldlM_cons]
    cases hj : TcpServer.notifyClosed k s j with
    | error t =>
      rw [hj] at first
      exact first
    | ok t =>
      rw [hj] at first
      exact steps.comp first (ih t)

theorem killAccepted (steps : ConnSteps R) (s : TCPServer) (k : CryptoKey) :
    s.Stepped R (reached (killAccepted s k)) :=
  steps.comp (steps.foldl_resetLink k s.registered s) (steps.foldlM_notifyClosed k _ _)

theorem onConnClosed (steps : ConnSteps R) (s : TCPServer) (i : Nat) (x : Nat) :
    R (s.conn x) ((reached (onConnClosed s i)).conn x) := by
  unfold TcpServer.onConnClosed
  simp only
  split
  · exact steps.refl _
  · rename_i binpk _
    exact (steps.killAccepted { s with hsConns := s.hsConns.erase i, conns := s.conns.erase binpk }
      binpk).conn x

theorem doClose_ne (steps : ConnSteps R) (s : TCPServer) {x : Nat} (hx : x ≠ i) :
    R (s.conn x) ((doClose s i).conn x) := by
  have called := steps.onConnClosed (s.setConn i { s.conn i with status := .noStatus }) i x
  rw [setConn_ne s _ hx] at called
  unfold doClose
  simp only
  split_ifs
  · cases call : TcpServer.onConnClosed (s.setConn i { s.conn i with status := .noStatus }) i with
    | error t =>
      rw [call] at called
      exact called
    | ok t =>
      rw [call] at called
      simp only [setConn_ne t _ hx]
      exact called
  · rw [setConn_ne _ _ hx, setConn_ne s _ hx]
    exact steps.refl _

end ConnSteps

end TcpServer
