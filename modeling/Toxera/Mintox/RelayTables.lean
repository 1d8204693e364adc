import Toxera.Mintox.RelayRuns

/-!
# The routing tables in every run

Any interleaving of events over any number of connections leaves the tables of each
connection consistent.
-/

namespace TcpServer

open CryptoCore Exec

variable {c : TCPSecureConn} {es : List Event} {i p : Nat} {order : RangeOrder} {own pk : CryptoKey}
  {pkt : Bytes} {s s' : TCPServer}

theorem TCPServer.WellFormed.throughout {m : TCPServer} (wf : m.WellFormed)
    (run : exec next m es = some s) : s.WellFormed :=
  exec_invariant (fun _ _ _ wf h => (next_effect wf h).1) wf run

theorem reachable_wellFormed (run : exec next newTCPServer es = some s) : s.WellFormed :=
  newTCPServer_wellFormed.throughout run

def RoutingTables.Full (t : RoutingTables) : Prop :=
  ∀ c : UInt8, numReservedPorts ≤ c → ∃ p, t.connInfos2 c = some p

variable {t : RoutingTables}

theorem RoutingTables.Consistent.full_iff (h : t.Consistent) :
    t.Full ↔ ∀ k : UInt8, k.toNat < 240 → t.connIds k = some true := by
  constructor
  · intro full k hk
    have hle : numReservedPorts ≤ k + numReservedPorts := by
      rw [UInt8.le_iff_toNat_le, offset_toNat hk]
      exact Nat.le_add_left 16 k.toNat
    have := (h.used _).mpr (full _ hle)
    rwa [offset_sub] at this
  · intro taken c hc
    refine (h.used c).mp (taken _ ?_)
    have hle : 16 ≤ c.toNat := UInt8.le_iff_toNat_le.mp hc
    have := c.toNat_lt
    rw [UInt8.toNat_sub_of_le c numReservedPorts hc]
    change c.toNat - 16 < 240
    omega

theorem routingResponse_length (connid : UInt8) (pk : CryptoKey) :
    (routingResponse connid pk).length = 34 := by
  simp [routingResponse, pk.property, publicKeySize]

def Answered (c c' : TCPSecureConn) (connid : UInt8) (pk : CryptoKey) : Prop :=
  queued c.cwctrlq (routingResponse connid pk) <+: c'.cwctrlq.buf

theorem answered_of_send {c₁ c' : TCPSecureConn} {connid : UInt8}
    (h : sendRoutingResponse { c with tables := t } connid pk = some c₁)
    (grows : c₁.cwctrlq.buf <+: c'.cwctrlq.buf) : Answered c c' connid pk := by
  have hbuf := sendCtrlPacket_buf (by rw [routingResponse_length]; omega) h
  rwa [Answered, ← hbuf]

theorem linkRouting_grows (wf : s.WellFormed) (hi : i < s.accepted)
    (hown : (s.conn i).pubkey = some own) (other : pk ≠ own) (h : linkRouting s i p pk = some s') :
    (s.conn i).cwctrlq.buf <+: (s'.conn i).cwctrlq.buf := by
  rcases linkRouting_cases wf hi h with ⟨rfl, -⟩ | ⟨j, own', q, hj, hown', hq, -⟩
  · exact List.prefix_refl _
  · obtain rfl := Option.some.inj (hown'.symm.trans hown)
    rw [linkRouting_queues hj hown hq (wf.registered_ne hown other hj) h i, if_pos rfl]
    exact queued_prefix _ _

theorem modifyPci_connid {f : PeerConnInfo → PeerConnInfo} (hid : ∀ x, (f x).connid = x.connid)
    (z : Nat) (k : CryptoKey) :
    (pciOf (s.modifyPci i p f) z k).map PeerConnInfo.connid =
      (pciOf s z k).map PeerConnInfo.connid := by
  by_cases hz : z = i
  · subst z
    simp only [pciOf, modifyPci_conn_self, RoutingTables.modifyPci, Option.map_map]
    congr 1
    funext q
    by_cases hq : q = p
    · subst q; simp [hid]
    · simp [Function.update_of_ne hq]
  · simp [pciOf, modifyPci_conn_ne s p f hz]

theorem linkRouting_connid (wf : s.WellFormed) (hi : i < s.accepted)
    (h : linkRouting s i p pk = some s') (z : Nat) (k : CryptoKey) :
    (pciOf s' z k).map PeerConnInfo.connid = (pciOf s z k).map PeerConnInfo.connid := by
  rcases linkRouting_cases wf hi h with ⟨rfl, -⟩ | ⟨j, own, q, -, -, -, same⟩
  · rfl
  · rw [same.pciOf, TCPServer.linkPair, modifyPci_connid, modifyPci_connid]
    all_goals intro x; rfl

theorem dispatch_request (s : TCPServer) (i : Nat) (order : List UInt8) (head : pkt.head? = some 0) :
    dispatch s i order pkt = handleRoutingRequest s i order pkt := by
  cases pkt with
  | nil => cases head
  | cons b rest =>
    obtain rfl : b = 0 := by simpa using head
    simp [dispatch]

theorem request_of_recv (head : pkt.head? = some 0) (h : next s (.recv i pkt order) = some s') :
    i < s.accepted ∧ (s.conn i).status = .confirmed ∧
      handleRoutingRequest s i order.keys pkt = some s' := by
  obtain ⟨⟨hi, -, hst⟩, h⟩ := next_eq_some_iff.mp h
  exact ⟨hi, hst, (dispatch_request s i order.keys head).symm.trans h⟩

theorem new_peer_cases (wf : s.WellFormed) (hown : (s.conn i).pubkey = some own)
    (head : pkt.head? = some 0) (request : requestKey pkt = some pk) (other : pk ≠ own)
    (new : (s.conn i).tables.connInfos pk = none) (h : next s (.recv i pkt order) = some s') :
    (∃ c, sendRoutingResponse (s.conn i) 0 pk = some c ∧ s' = s.setConn i c ∧
      ∀ k : UInt8, k.toNat < 240 → (s.conn i).tables.connIds k = some true) ∨
    ∃ k c, k.toNat < 240 ∧ Fresh s i own pk k ∧
      (s.enterPeer i pk k).WellFormed ∧
      sendRoutingResponse { s.conn i with tables := (s.conn i).tables.grant pk k }
        (k + numReservedPorts) pk = some c ∧
      linkRouting (s.setConn i c) i (s.conn i).tables.npci pk = some s' := by
  obtain ⟨hi, hst, h⟩ := request_of_recv head h
  obtain ⟨pk', own', hpk', hown', cases⟩ := handleRoutingRequest_split (wf.conn i).tables h
  obtain rfl := Option.some.inj (hpk'.symm.trans request)
  obtain rfl := Option.some.inj (hown'.symm.trans hown)
  rcases cases with ⟨connid, c, hsend, hs', heq | ⟨p, hp⟩ | ⟨rfl, taken⟩⟩ |
    ⟨k, c, hlt, fresh, hsend, hlink⟩
  · exact absurd heq other
  · rw [new] at hp
    cases hp
  · exact Or.inl ⟨c, hsend, hs', taken⟩
  · exact Or.inr ⟨k, c, hlt, fresh, wf.enterPeer hi hst fresh, hsend, hlink⟩

theorem new_peer_answer (wf : s.WellFormed) (hown : (s.conn i).pubkey = some own)
    (head : pkt.head? = some 0) (request : requestKey pkt = some pk) (other : pk ≠ own)
    (new : (s.conn i).tables.connInfos pk = none) (h : next s (.recv i pkt order) = some s') :
    ∃ connid, Answered (s.conn i) (s'.conn i) connid pk ∧
      (connid = 0 ↔ (s.conn i).tables.Full) ∧
      (connid = 0 → ∀ x, (s'.conn x).tables = (s.conn x).tables) ∧
      (connid ≠ 0 → ∃ x, pciOf s' i pk = some x ∧ x.connid = connid) := by
  have hi := (request_of_recv head h).1
  have ok := (wf.conn i).tables
  rcases new_peer_cases wf hown head request other new h with ⟨c, hsend, rfl, taken⟩ |
    ⟨k, c, hlt, fresh, entered, hsend, hlink⟩
  · refine ⟨0, answered_of_send hsend (by simp), by simpa using ok.full_iff.mpr taken, ?_,
      fun hne => absurd rfl hne⟩
    intro _ x
    exact ((TCPServer.SameButQueues.setConn hi (sendCtrlPacket_same hsend)).conn x).tables
  · have nonzero := offset_ne_zero hlt
    have notFull : ¬ (s.conn i).tables.Full := by
      intro full
      have := ok.full_iff.mp full k hlt
      rw [fresh.free] at this
      cases this
    have same := granted_same hi hsend
    have hwf := entered.of_same same
    have hownc : ((s.setConn i c).conn i).pubkey = some own :=
      (same.conn i).pubkey.trans (by simpa [TCPServer.enterPeer] using hown)
    refine ⟨k + numReservedPorts, answered_of_send hsend ?_,
      ⟨fun h0 => absurd h0 nonzero, fun full => absurd full notFull⟩,
      fun h0 => absurd h0 nonzero, fun _ => ?_⟩
    · simpa using linkRouting_grows hwf hi hownc other hlink
    · have listed := linkRouting_connid hwf hi hlink i pk
      rw [same.pciOf, pciOf_enterPeer ok, if_pos ⟨rfl, rfl⟩] at listed
      exact Option.map_eq_some_iff.mp listed

theorem sendConnectNotification_isSome (connid : UInt8) (takes : (s.conn i).Takes) :
    ∃ s', sendConnectNotification s i connid = some s' := by
  obtain ⟨c, hc⟩ := (sendCtrlPacket_isSome_iff (s.conn i) (connectNotification connid)).mpr
    (Or.inr takes)
  exact ⟨s.setConn i c, by simp [sendConnectNotification, hc]⟩

theorem linkRouting_isSome (wf : s.WellFormed) (hi : i < s.accepted)
    (hown : (s.conn i).pubkey = some own) (other : pk ≠ own) (takes : (s.conn i).Takes) :
    ∃ s', linkRouting s i p pk = some s' := by
  unfold linkRouting
  cases hj : s.conns.lookup pk with
  | none => exact ⟨s, rfl⟩
  | some j =>
    simp only [hown]
    cases hq : (s.conn j).tables.connInfos own with
    | none => exact ⟨s, rfl⟩
    | some q =>
      have hne := wf.registered_ne hown other hj
      obtain ⟨s₁, h₁⟩ := sendConnectNotification_isSome (s := s.linkPair i p j q) (i := i)
        ((s.conn i).tables.pcis p).connid
        (by simpa [TCPServer.linkPair, modifyPci_conn_ne _ _ _ hne.symm, TCPSecureConn.Takes]
          using takes)
      have hj' := wf.registered pk j hj
      have hopen : (s₁.conn j).cwctrlq.closed = false := by
        rw [((sendConnectNotification_same (by exact hi) h₁).conn j).ctrlClosed]
        simpa [TCPServer.linkPair, modifyPci_conn_ne _ _ _ hne]
          using ((wf.conn j).opened hj'.2.2.2).1
      obtain ⟨s₂, h₂⟩ := sendConnectNotification_isSome
        ((s.conn j).tables.pcis q).connid (Or.inl hopen)
      exact ⟨s₂, Option.bind_eq_some_iff.mpr ⟨s₁, h₁, h₂⟩⟩

theorem beginRouting_isSome (hown : c.pubkey = some own) (takes : c.Takes) (order : List UInt8)
    (pk : CryptoKey) : ∃ r, beginRouting c order pk = some r := by
  have answer : ∀ (c' : TCPSecureConn) connid (o : Option Nat), c'.cwctrlq = c.cwctrlq →
      ∃ r, ((sendRoutingResponse c' connid pk).map fun x => (x, o)) = some r := by
    intro c' connid o hq
    obtain ⟨x, hx⟩ := (sendCtrlPacket_isSome_iff c' (routingResponse connid pk)).mpr
      (Or.inr (by rw [TCPSecureConn.Takes, hq]; exact takes))
    exact ⟨(x, o), Option.map_eq_some_iff.mpr ⟨x, hx, rfl⟩⟩
  simp only [beginRouting, hown]
  split_ifs
  · exact answer _ _ _ rfl
  all_goals
    cases c.tables.connInfos pk with
    | none => exact answer _ _ _ rfl
    | some p =>
      simp only
      split_ifs
      · exact answer _ _ _ rfl
      · exact answer _ _ _ rfl

theorem handleRoutingRequest_isSome (wf : s.WellFormed) (order : RangeOrder) (hi : i < s.accepted)
    (hst : (s.conn i).status = .confirmed) (hown : (s.conn i).pubkey = some own)
    (takes : (s.conn i).Takes) (request : requestKey pkt = some pk) :
    ∃ s', handleRoutingRequest s i order.keys pkt = some s' := by
  have long : ¬ pkt.length < 1 + publicKeySize := by
    have := pk.property
    rw [newCryptoKey_eq_some request, List.length_take, List.length_drop, publicKeySize] at this
    rw [publicKeySize]
    omega
  obtain ⟨r, hr⟩ := beginRouting_isSome hown takes order.keys pk
  unfold handleRoutingRequest
  rw [if_neg long, show newCryptoKey _ = some pk from request, Option.bind_some, hr,
    Option.bind_some]
  obtain ⟨own', hown', cases⟩ := beginRouting_cases (wf.conn i).tables hr
  obtain rfl := Option.some.inj (hown'.symm.trans hown)
  rcases cases with ⟨hnone, -⟩ | ⟨-, -, hnone, -⟩ | ⟨hne, hnew, hsome, k, hlt, hfree, hsend⟩
  · exact ⟨s.setConn i r.1, by rw [hnone]⟩
  · exact ⟨s.setConn i r.1, by rw [hnone]⟩
  · rw [hsome]
    have same := granted_same hi hsend
    have hwf := (wf.enterPeer hi hst ⟨hown, hne, hnew, hfree⟩).of_same same
    refine linkRouting_isSome hwf hi ?_ hne ?_
    · exact (same.conn i).pubkey.trans (by simpa [TCPServer.enterPeer] using hown)
    · rw [setConn_self]
      exact TCPSecureConn.Takes.sent (by exact takes) hsend

theorem request_processed (wf : s.WellFormed) (enabled : Enabled s (.recv i pkt order))
    (live : (s.conn i).onClosed = true) (head : pkt.head? = some 0)
    (request : requestKey pkt = some pk) : ∃ s', next s (.recv i pkt order) = some s' := by
  obtain ⟨hi, hreading, hst⟩ := enabled
  obtain ⟨own, hown⟩ := (wf.conn i).keyed live (by rw [hst]; decide)
  obtain ⟨s', h⟩ := handleRoutingRequest_isSome wf order hi hst hown
    (Or.inl ((wf.conn i).opened live).1) request
  exact ⟨s', next_eq_some_iff.mpr ⟨⟨hi, hreading, hst⟩,
    (dispatch_request s i order.keys head).trans h⟩⟩

/-- In every run and for every connection the three tables describe one set of
objects with distinct ids from 16 on, and a request for a new peer is answered
zero exactly when no id is left, which changes nothing. -/
theorem routing_tables_in_every_run {es : List Event} {s : TCPServer}
    (run : exec next newTCPServer es = some s) (i : Nat) :
    (∀ pk p, (s.conn i).tables.connInfos pk = some p →
      ((s.conn i).tables.pcis p).pubkey = pk ∧
      (s.conn i).tables.connInfos2 ((s.conn i).tables.pcis p).connid = some p) ∧
    (∀ c p, (s.conn i).tables.connInfos2 c = some p →
      (∃ pk, (s.conn i).tables.connInfos pk = some p) ∧
      ((s.conn i).tables.pcis p).connid = c ∧ 16 ≤ c.toNat ∧ c.toNat ≤ 255) ∧
    (∀ pk pk' p p', pk ≠ pk' → (s.conn i).tables.connInfos pk = some p →
      (s.conn i).tables.connInfos pk' = some p' →
      ((s.conn i).tables.pcis p).connid ≠ ((s.conn i).tables.pcis p').connid) ∧
    (∀ c, (s.conn i).tables.connIds (c - numReservedPorts) = some true ↔
      ∃ p, (s.conn i).tables.connInfos2 c = some p) ∧
    ∀ pkt order own pk, (s.conn i).pubkey = some own → pkt.head? = some 0 →
      requestKey pkt = some pk → pk ≠ own → (s.conn i).tables.connInfos pk = none →
      (Enabled s (.recv i pkt order) → (s.conn i).onClosed = true →
        ∃ s', next s (.recv i pkt order) = some s') ∧
      ∀ s', next s (.recv i pkt order) = some s' →
        ∃ connid, Answered (s.conn i) (s'.conn i) connid pk ∧
          (connid = 0 ↔ (s.conn i).tables.Full) ∧
          (connid = 0 → ∀ x, (s'.conn x).tables = (s.conn x).tables) ∧
          (connid ≠ 0 → ∃ x, pciOf s' i pk = some x ∧ x.connid = connid) := by
  have wf := reachable_wellFormed run
  have ok := (wf.conn i).tables
  refine ⟨ok.info, ?_, ?_, ok.used, ?_⟩
  · intro c p hp
    obtain ⟨hkey, hid⟩ := ok.info2 c p hp
    exact ⟨⟨_, hkey⟩, hid, ok.range c p hp, Nat.le_of_lt_succ c.toNat_lt⟩
  · intro pk pk' p p' hne hp hp' same
    exact hne (ok.connid_inj hp hp' same)
  · intro pkt order own pk hown head request other new
    refine ⟨fun enabled live => request_processed wf enabled live head request, ?_⟩
    intro s' h
    exact new_peer_answer wf hown head request other new h

/-- The first request of a run is entered under the first free id; the peer's
own request is then answered, too, and not with zero. -/
theorem routing_tables_after_one_request :
    (∃ p, ((after (joins 0 1 ++ joins 1 2 ++ [requests 0 2])).conn 0).tables.connInfos2 16 =
      some p) ∧
    ∃ s' connid, next (after (joins 0 1 ++ joins 1 2 ++ [requests 0 2])) (requests 1 1) = some s' ∧
      Answered ((after (joins 0 1 ++ joins 1 2 ++ [requests 0 2])).conn 1) (s'.conn 1) connid
        (keyOf 1) ∧ connid ≠ 0 := by
  have run : exec next newTCPServer (joins 0 1 ++ joins 1 2 ++ [requests 0 2]) =
      some (after (joins 0 1 ++ joins 1 2 ++ [requests 0 2])) := exec_after (by decide +kernel)
  refine ⟨((routing_tables_in_every_run run 0).2.2.2.1 16).mp (by decide +kernel), ?_⟩
  obtain ⟨processed, answer⟩ := (routing_tables_in_every_run run 1).2.2.2.2
    (0 :: (keyOf 1).val) natural (keyOf 2) (keyOf 1) (by decide +kernel) rfl (by decide +kernel)
    (by decide +kernel) (by decide +kernel)
  obtain ⟨s', h⟩ := processed (by decide +kernel) (by decide +kernel)
  obtain ⟨connid, answered, zero_iff, -⟩ := answer s' h
  refine ⟨s', connid, h, answered, ?_⟩
  intro zero
  obtain ⟨p, hp⟩ := zero_iff.mp zero 16 (by decide)
  have unused : ((after (joins 0 1 ++ joins 1 2 ++ [requests 0 2])).conn 1).tables.connInfos2 16 =
      none := by decide +kernel
  rw [unused] at hp
  cases hp

end TcpServer
