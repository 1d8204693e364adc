import Toxera.Mintox.RelayLinks

/-!
# What a disconnect notification touches

A client ends a link by naming its own id for the peer.
-/

namespace TcpServer

open CryptoCore Exec

variable {connid : UInt8} {i j p : Nat} {pkt : Bytes} {s s' : TCPServer} {x y : PeerConnInfo}

def pciById (s : TCPServer) (i : Nat) (connid : UInt8) : Option PeerConnInfo :=
  ((s.conn i).tables.connInfos2 connid).map (s.conn i).tables.pcis

theorem pciById_eq_some_iff :
    pciById s i connid = some x ↔
      ∃ p, (s.conn i).tables.connInfos2 connid = some p ∧ (s.conn i).tables.pcis p = x := by
  simp [pciById, Option.map_eq_some_iff]

theorem TCPServer.WellFormed.pciOf_of_id (wf : s.WellFormed) (h : pciById s i connid = some x) :
    pciOf s i x.pubkey = some x ∧ x.connid = connid := by
  obtain ⟨p, hp, rfl⟩ := pciById_eq_some_iff.mp h
  obtain ⟨hkey, hid⟩ := (wf.conn i).tables.info2 connid p hp
  exact ⟨pciOf_eq_some_iff.mpr ⟨p, hkey, rfl⟩, hid⟩

/-- Everything a disconnect notification of connection `i` does when its entry `x`
leads to the entry `y` of connection `j`. -/
structure Unlinks (s s' : TCPServer) (i j : Nat) (x y : PeerConnInfo) : Prop where
  registry : s'.conns = s.conns
  maps : ∀ z, (s'.conn z).tables.connInfos = (s.conn z).tables.connInfos ∧
    (s'.conn z).tables.connInfos2 = (s.conn z).tables.connInfos2 ∧
    (s'.conn z).tables.connIds = (s.conn z).tables.connIds
  entries : ∀ z k, pciOf s' z k =
    if z = j ∧ k = y.pubkey then some (resetPci y)
    else if z = i ∧ k = x.pubkey then some (resetPci x)
    else pciOf s z k
  data : SameData s s'
  told : (s'.conn j).cwctrlq.buf = queued (s.conn j).cwctrlq (disconnectNotification y.connid)
  silent : ∀ z, z ≠ j → (s'.conn z).cwctrlq = (s.conn z).cwctrlq

theorem unlinkPair_maps (s : TCPServer) (j q i p z : Nat) :
    ((s.unlinkPair j q i p).conn z).tables.connInfos = (s.conn z).tables.connInfos ∧
    ((s.unlinkPair j q i p).conn z).tables.connInfos2 = (s.conn z).tables.connInfos2 ∧
    ((s.unlinkPair j q i p).conn z).tables.connIds = (s.conn z).tables.connIds ∧
    ((s.unlinkPair j q i p).conn z).cwctrlq = (s.conn z).cwctrlq := by
  have keeps : ∀ (t : TCPServer) (a o : Nat),
      ((t.modifyPci a o resetPci).conn z).tables.connInfos = (t.conn z).tables.connInfos ∧
      ((t.modifyPci a o resetPci).conn z).tables.connInfos2 = (t.conn z).tables.connInfos2 ∧
      ((t.modifyPci a o resetPci).conn z).tables.connIds = (t.conn z).tables.connIds ∧
      ((t.modifyPci a o resetPci).conn z).cwctrlq = (t.conn z).cwctrlq := by
    intro t a o
    by_cases hz : z = a
    · subst z
      rw [modifyPci_conn_self]
      exact ⟨rfl, rfl, rfl, rfl⟩
    · rw [modifyPci_conn_ne t o _ hz]
      exact ⟨rfl, rfl, rfl, rfl⟩
  obtain ⟨h1, h2, h3, h4⟩ := keeps (s.modifyPci j q resetPci) i p
  obtain ⟨g1, g2, g3, g4⟩ := keeps s j q
  exact ⟨h1.trans g1, h2.trans g2, h3.trans g3, h4.trans g4⟩

theorem sendDisconnect_unlinks (wf : s.WellFormed) {q : Nat} {otherid : UInt8}
    (hp : (s.conn i).tables.connInfos2 connid = some p)
    (hj : s.conns.lookup ((s.conn i).tables.pcis p).pubkey = some j)
    (hq : (s.conn j).tables.connInfos2 otherid = some q)
    (h : sendDisconnectNotification (s.unlinkPair j q i p) j
      ((s.conn j).tables.pcis q).connid = some s') :
    Unlinks s s' i j ((s.conn i).tables.pcis p) ((s.conn j).tables.pcis q) := by
  obtain ⟨hp', -⟩ := (wf.conn i).tables.info2 _ p hp
  obtain ⟨hq', -⟩ := (wf.conn j).tables.info2 _ q hq
  have same := sendDisconnectNotification_same (by exact (wf.registered _ j hj).1) h
  obtain ⟨c, hc, rfl⟩ := Option.map_eq_some_iff.mp h
  have buf := sendCtrlPacket_buf (by simp [disconnectNotification]) hc
  constructor
  case registry => rfl
  case maps =>
    intro z
    obtain ⟨h1, h2, h3, -⟩ := unlinkPair_maps s j q i p z
    rw [(same.conn z).tables]
    exact ⟨h1, h2, h3⟩
  case entries =>
    intro z k
    rw [same.pciOf, pciOf_unlinkPair (wf.conn i).tables (wf.conn j).tables
      (unlink_apart wf hp' hj) hp' hq']
  case data =>
    have reset : SameData s (s.unlinkPair j q i p) :=
      (SameData.modifyPci s j q _).trans (.modifyPci _ _ _ _)
    exact reset.trans (.setConn (sendCtrlPacket_dataq hc))
  case told =>
    rw [setConn_self, buf, (unlinkPair_maps s j q i p j).2.2.2]
  case silent =>
    intro z hz
    rw [setConn_ne _ _ hz]
    exact (unlinkPair_maps s j q i p z).2.2.2

theorem handleDisconnectNotification_isSome (wf : s.WellFormed) (hid : pkt[1]? = some connid)
    (hp : (s.conn i).tables.connInfos2 connid = some p) :
    ∃ s', handleDisconnectNotification s i pkt = some s' := by
  unfold handleDisconnectNotification
  simp only [hid, hp]
  cases hj : s.conns.lookup ((s.conn i).tables.pcis p).pubkey with
  | none => exact ⟨s, rfl⟩
  | some j =>
    cases hq : (s.conn j).tables.connInfos2 ((s.conn i).tables.pcis p).otherid with
    | none => exact ⟨s, by simp only [hq]⟩
    | some q =>
      simp only [hq]
      -- a registered connection has its queues open
      have open_ := ((wf.conn j).opened (wf.registered _ j hj).2.2.2).1
      obtain ⟨c, hc⟩ := sendCtrlPacket_isSome (c := (s.unlinkPair j q i p).conn j)
        (by rw [(unlinkPair_maps s j q i p j).2.2.2]; exact open_)
        (disconnectNotification ((s.conn j).tables.pcis q).connid)
      exact ⟨_, Option.map_eq_some_iff.mpr ⟨c, hc, rfl⟩⟩

theorem dispatch_disconnect (s : TCPServer) (i : Nat) (order : List UInt8)
    (head : pkt.head? = some 3) :
    dispatch s i order pkt = handleDisconnectNotification s i pkt := by
  cases pkt with
  | nil => cases head
  | cons c rest =>
    obtain rfl : c = 3 := by simpa using head
    simp [dispatch]

theorem disconnect_unlinks (wf : s.WellFormed) {order : RangeOrder}
    (enabled : Enabled s (.recv i pkt order)) (head : pkt.head? = some 3)
    (hid : pkt[1]? = some connid) (bound : pciById s i connid = some x) :
    ∃ s', next s (.recv i pkt order) = some s' ∧
      (s' = s ∧ (∀ j, s.conns.lookup x.pubkey = some j → pciById s j x.otherid = none) ∨
      ∃ j y, s.conns.lookup x.pubkey = some j ∧ j ≠ i ∧ pciById s j x.otherid = some y ∧
        Unlinks s s' i j x y) := by
  obtain ⟨p, hp, rfl⟩ := pciById_eq_some_iff.mp bound
  obtain ⟨s', h⟩ := handleDisconnectNotification_isSome wf hid hp
  refine ⟨s', next_eq_some_iff.mpr ⟨enabled, (dispatch_disconnect s i order.keys head).trans h⟩,
    ?_⟩
  obtain ⟨connid', p', hid', hp', cases⟩ := handleDisconnectNotification_cases h
  obtain rfl := Option.some.inj (hid.symm.trans hid')
  obtain rfl := Option.some.inj (hp.symm.trans hp')
  rcases cases with ⟨rfl, none_⟩ | ⟨j, q, hj, hq, hsend⟩
  · grind [pciById]
  · refine Or.inr ⟨j, _, hj, ?_, pciById_eq_some_iff.mpr ⟨q, hq, rfl⟩,
      sendDisconnect_unlinks wf hp hj hq hsend⟩
    exact unlink_apart wf ((wf.conn i).tables.info2 _ p hp).1 hj

/-- Connection `i` tears down nothing but its own link to the key `kb`: no entry
differs but its own for `kb` and the one that `kb` keeps for its key, and at most
one packet is queued, which tells `kb` its own id for this client. -/
structure OwnLinkOnly (s s' : TCPServer) (i : Nat) (kb : CryptoKey) : Prop where
  registry : s'.conns = s.conns
  maps : ∀ z, (s'.conn z).tables.connInfos = (s.conn z).tables.connInfos ∧
    (s'.conn z).tables.connInfos2 = (s.conn z).tables.connInfos2 ∧
    (s'.conn z).tables.connIds = (s.conn z).tables.connIds
  entries : ∀ z k, pciOf s' z k = pciOf s z k ∨ z = i ∧ k = kb ∨
    s.conns.lookup kb = some z ∧ (s.conn i).pubkey = some k
  data : SameData s s'
  packets : (∀ z, (s'.conn z).cwctrlq.buf = (s.conn z).cwctrlq.buf) ∨
    ∃ j own y, s.conns.lookup kb = some j ∧ (s.conn i).pubkey = some own ∧
      pciOf s j own = some y ∧
      (s'.conn j).cwctrlq.buf = (s.conn j).cwctrlq.buf ++ [disconnectNotification y.connid] ∧
      ∀ z, z ≠ j → (s'.conn z).cwctrlq.buf = (s.conn z).cwctrlq.buf

/-- The remembered id leads to the peer's entry for this client, or to nothing; or
to an entry on which the notification has no visible effect, because it is not
linked and its owner's queue is full. -/
def LeadsHome (s : TCPServer) (i : Nat) (x : PeerConnInfo) : Prop :=
  ∀ j y, s.conns.lookup x.pubkey = some j → pciById s j x.otherid = some y →
    (s.conn i).pubkey = some y.pubkey ∨
      resetPci y = y ∧ (s.conn j).cwctrlq.cap ≤ (s.conn j).cwctrlq.buf.length

theorem Unlinks.ownLinkOnly (h : Unlinks s s' i j x y) (peer : s.conns.lookup x.pubkey = some j)
    (theirs : pciOf s j y.pubkey = some y) (home : LeadsHome s i x)
    (found : pciById s j x.otherid = some y) : OwnLinkOnly s s' i x.pubkey := by
  have silent : ∀ z, z ≠ j → (s'.conn z).cwctrlq.buf = (s.conn z).cwctrlq.buf := by
    intro z hz
    rw [h.silent z hz]
  refine ⟨h.registry, h.maps, ?_, h.data, ?_⟩
  · intro z k
    rw [h.entries z k]
    split_ifs with h1 h2
    · obtain ⟨rfl, rfl⟩ := h1
      rcases home z y peer found with own | ⟨reset, -⟩
      · exact Or.inr (Or.inr ⟨peer, own⟩)
      · exact Or.inl (by rw [reset, theirs])
    · exact Or.inr (Or.inl h2)
    · exact Or.inl rfl
  · have told := h.told
    unfold queued at told
    split_ifs at told with room
    · rcases home j y peer found with own | ⟨-, full⟩
      · grind
      · omega
    · refine Or.inl fun z => ?_
      by_cases hz : z = j
      · subst z
        exact told
      · exact silent z hz

theorem Unlinks.leadsHome (wf : s.WellFormed) (h : Unlinks s s' i j x y) (apart : j ≠ i)
    (theirs : pciOf s j y.pubkey = some y) (own : OwnLinkOnly s s' i x.pubkey) :
    (s.conn i).pubkey = some y.pubkey ∨
      resetPci y = y ∧ (s.conn j).cwctrlq.cap ≤ (s.conn j).cwctrlq.buf.length := by
  by_cases hkey : (s.conn i).pubkey = some y.pubkey
  · exact Or.inl hkey
  refine Or.inr ⟨?_, ?_⟩
  · -- the entry is not one of the two that may differ
    rcases own.entries j y.pubkey with same | ⟨rfl, -⟩ | ⟨-, hown⟩
    · rw [h.entries, if_pos ⟨rfl, rfl⟩, theirs] at same
      exact Option.some.inj same
    · exact absurd rfl apart
    · exact absurd hown hkey
  · by_contra room
    have told := h.told
    rw [queued, if_pos (by omega)] at told
    rcases own.packets with quiet | ⟨j', own', y', -, hown, hy', told', silent⟩
    · rw [quiet j] at told
      simp at told
    · by_cases hj : j = j'
      · subst j'
        rw [told'] at told
        obtain hid : y'.connid = y.connid := by
          simpa [disconnectNotification] using told
        exact hkey (hown.trans (congrArg some (wf.pciOf_inj hy' theirs hid)))
      · rw [silent j hj] at told
        simp at told

/-- In every reachable state a disconnect notification for an id in use is processed. -/
theorem disconnect_own_link_only_iff {es : List Event} {s : TCPServer} {i : Nat} {pkt : Bytes}
    {order : RangeOrder} {connid : UInt8} {x : PeerConnInfo}
    (run : exec next newTCPServer es = some s) (enabled : Enabled s (.recv i pkt order))
    (head : pkt.head? = some 3) (named : pkt[1]? = some connid)
    (bound : pciById s i connid = some x) :
    ∃ s', next s (.recv i pkt order) = some s' ∧
      (OwnLinkOnly s s' i x.pubkey ↔ LeadsHome s i x) := by
  have wf := reachable_wellFormed run
  obtain ⟨s', hs', cases⟩ := disconnect_unlinks wf enabled head named bound
  refine ⟨s', hs', ?_⟩
  rcases cases with ⟨rfl, nothing⟩ | ⟨j, y, peer, apart, found, unlinks⟩
  · refine ⟨fun _ j y hj hy => ?_, fun _ => ?_⟩
    · rw [nothing j hj] at hy
      cases hy
    · exact ⟨rfl, fun _ => ⟨rfl, rfl, rfl⟩, fun _ _ => Or.inl rfl, fun _ => rfl,
        Or.inl fun _ => rfl⟩
  · have theirs := (wf.pciOf_of_id found).1
    refine ⟨fun own j' y' hj' hy' => ?_, fun home => unlinks.ownLinkOnly peer theirs home found⟩
    obtain rfl := Option.some.inj (peer.symm.trans hj')
    obtain rfl := Option.some.inj (found.symm.trans hy')
    exact unlinks.leadsHome wf apart theirs own

/-- A linked client tears down its link with the other client. -/
theorem disconnect_own_link_only_bothAsk :
    ∃ s', next (after bothAsk) (disconnects 0 16) = some s' ∧
      OwnLinkOnly (after bothAsk) s' 0 (keyOf 2) := by
  have bound : pciById (after bothAsk) 0 16 = some ⟨keyOf 2, 2, 16, 16⟩ := by decide +kernel
  have run : exec next newTCPServer bothAsk = some (after bothAsk) := exec_after (by decide +kernel)
  obtain ⟨s', hs', h⟩ := disconnect_own_link_only_iff run
    (by decide +kernel : Enabled (after bothAsk) (disconnects 0 16)) rfl rfl bound
  refine ⟨s', hs', h.mpr fun j y hj hy => Or.inl ?_⟩
  obtain rfl : 1 = j := Option.some.inj ((by decide +kernel :
    (after bothAsk).conns.lookup (keyOf 2) = some 1).symm.trans hj)
  obtain rfl : ⟨keyOf 1, 2, 16, 16⟩ = y := Option.some.inj ((by decide +kernel :
    pciById (after bothAsk) 1 16 = some _).symm.trans hy)
  decide +kernel

/-- The second of two linked clients connects again and links with a third under
the id that the first one remembers. -/
def relinked : List Event :=
  bothAsk ++ joins 2 2 ++ joins 3 3 ++ [requests 2 3, requests 3 2]

/-- The first client's disconnect notification then resets an entry for the third
client's key and announces the end of a link that is not its own. -/
theorem disconnect_hits_third_client :
    exec next newTCPServer relinked = some (after relinked) ∧
    pciById (after relinked) 0 16 = some ⟨keyOf 2, 2, 16, 16⟩ ∧
    next (after relinked) (disconnects 0 16) = some (after (relinked ++ [disconnects 0 16])) ∧
    pciOf (after relinked) 2 (keyOf 3) = some ⟨keyOf 3, 2, 16, 16⟩ ∧
    pciOf (after (relinked ++ [disconnects 0 16])) 2 (keyOf 3) = some ⟨keyOf 3, 1, 0, 16⟩ ∧
    ¬ OwnLinkOnly (after relinked) (after (relinked ++ [disconnects 0 16])) 0 (keyOf 2) := by
  have before : pciOf (after relinked) 2 (keyOf 3) = some ⟨keyOf 3, 2, 16, 16⟩ := by
    decide +kernel
  have later : pciOf (after (relinked ++ [disconnects 0 16])) 2 (keyOf 3) =
      some ⟨keyOf 3, 1, 0, 16⟩ := by decide +kernel
  refine ⟨exec_after (by decide +kernel), by decide +kernel, next_after (by decide +kernel),
    before, later, fun own => ?_⟩
  rcases own.entries 2 (keyOf 3) with same | ⟨h, -⟩ | ⟨-, h⟩
  · rw [before, later] at same
    revert same
    decide
  · cases h
  · revert h
    decide +kernel

end TcpServer
