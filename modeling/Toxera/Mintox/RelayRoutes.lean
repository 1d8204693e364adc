import Toxera.Mintox.RelayLinks

/-!
# Asking for a route again

Two clients that ask for each other are linked by the second request, provided that this
request makes a new entry.
-/

namespace TcpServer

open CryptoCore Exec

variable {a b i : Nat} {e : Event} {es : List Event} {k ka kb : CryptoKey} {m m' s s' : TCPServer}

theorem Effect.registered_new (h : Effect s s' e) (hreg : s'.conns.lookup k = some i) :
    s.conns.lookup k = some i ∨
      (s.conn i).onClosed = true ∧ (s.conn i).status = .unconfirmed := by
  cases h with
  | quiet _ _ reg => exact Or.inl ((reg k).symm.trans hreg)
  | register j _ k₀ live hst _ reg =>
    rw [reg] at hreg
    split_ifs at hreg
    · cases hreg
      exact Or.inr ⟨live, hst⟩
    · exact Or.inl hreg
  | drop _ _ k₀ _ _ _ reg => grind
  | enter _ _ _ _ _ _ _ _ _ _ reg => exact Or.inl ((reg k).symm.trans hreg)
  | link _ _ _ _ _ _ _ _ _ _ _ _ _ _ reg => exact Or.inl ((reg k).symm.trans hreg)
  | unlink _ _ _ _ _ _ _ _ _ _ _ _ _ reg => exact Or.inl ((reg k).symm.trans hreg)

def Retired (s : TCPServer) (i : Nat) : Prop :=
  ((s.conn i).onClosed = false ∨ (s.conn i).status = .confirmed) ∧
  ∀ k, s.conns.lookup k ≠ some i

theorem past_step (wf : s.WellFormed) (h : next s e = some s')
    (past : (s.conn i).onClosed = false ∨ (s.conn i).status = .confirmed) :
    (s'.conn i).onClosed = false ∨ (s'.conn i).status = .confirmed := by
  cases next_life wf h i with
  | same _ _ _ same => rwa [same.onClosed, same.status]
  | greeted _ start _ _ live =>
    rcases past with dead | hst
    · exact Or.inl (live.trans dead)
    · rw [start] at hst; cases hst
  | confirmed _ _ _ _ hst => exact Or.inr hst
  | replaced _ _ dead => exact Or.inl dead
  | closed _ _ _ dead =>
    refine Or.inl (dead.resolve_right ?_)
    -- only a connection without a key survives its close
    rintro ⟨live, keyless, -⟩
    rcases past with dead | hst
    · rw [live] at dead; cases dead
    · obtain ⟨k, hk⟩ := (wf.conn i).keyed live (by rw [hst]; decide)
      rw [keyless] at hk
      cases hk

theorem Retired.step (wf : s.WellFormed) (h : next s e = some s') (r : Retired s i) :
    Retired s' i := by
  refine ⟨past_step wf h r.1, ?_⟩
  intro k hk
  rcases (next_effect wf h).2.registered_new hk with old | ⟨live, hst⟩
  · exact r.2 k old
  · rcases r.1 with dead | confirmed
    · rw [live] at dead; cases dead
    · rw [hst] at confirmed; cases confirmed

theorem registered_step (wf : s.WellFormed) (h : next s e = some s')
    (hreg : s.conns.lookup k = some i) : s'.conns.lookup k = some i ∨ Retired s' i := by
  obtain ⟨-, -, hst, -⟩ := wf.registered k i hreg
  by_cases keeps : s'.conns.lookup k = some i
  · exact Or.inl keeps
  · refine Or.inr ⟨past_step wf h (Or.inr hst), ?_⟩
    intro k' hk'
    rcases (next_effect wf h).2.registered_new hk' with old | ⟨-, hst'⟩
    · obtain rfl := wf.registered_inj hreg old
      exact keeps hk'
    · rw [hst] at hst'
      cases hst'

theorem registered_throughout (wf : m.WellFormed) (run : exec next m es = some s)
    (last : s.conns.lookup k = some i)
    (past : (m.conn i).onClosed = false ∨ (m.conn i).status = .confirmed) :
    m.conns.lookup k = some i := by
  by_cases hreg : ∃ k', m.conns.lookup k' = some i
  · obtain ⟨k', hk'⟩ := hreg
    have final := exec_invariant
      (P := fun n => n.WellFormed ∧ (n.conns.lookup k' = some i ∨ Retired n i))
      (fun s e t hs h => ⟨(next_effect hs.1 h).1, hs.2.elim (registered_step hs.1 h)
        fun r => Or.inr (r.step hs.1 h)⟩) ⟨wf, Or.inl hk'⟩ run
    rcases final with ⟨wf', hk | r⟩
    · obtain rfl := wf'.registered_inj hk last
      exact hk'
    · exact absurd last (r.2 k)
  · have final := exec_invariant (P := fun n => n.WellFormed ∧ Retired n i)
      (fun s e t hs h => ⟨(next_effect hs.1 h).1, hs.2.step hs.1 h⟩)
      ⟨wf, past, fun k' hk' => hreg ⟨k', hk'⟩⟩ run
    exact absurd last (final.2.2 k)

theorem past_of_entry (wf : s.WellFormed) (h : pciOf s i k ≠ none) :
    (s.conn i).onClosed = false ∨ (s.conn i).status = .confirmed := by
  cases hcl : (s.conn i).onClosed with
  | false => exact Or.inl rfl
  | true =>
    refine Or.inr ?_
    by_contra hst
    exact h (pciOf_eq_none_iff.mpr ((wf.conn i).early hcl hst k))

theorem entry_persists (wf : m.WellFormed) (run : exec next m es = some s) (h : pciOf m i k ≠ none) :
    pciOf s i k ≠ none := by
  refine (exec_invariant (P := fun n => n.WellFormed ∧ pciOf n i k ≠ none) ?_ ⟨wf, h⟩ run).2
  rintro s e t ⟨wf, h⟩ step
  obtain ⟨x, hx⟩ := Option.ne_none_iff_exists'.mp h
  obtain ⟨wf', effect⟩ := next_effect wf step
  obtain ⟨x', hx', -⟩ := effect.entry_kept hx
  exact ⟨wf', by rw [hx']; simp⟩

/-- The step closes or replaces a live connection of `ka`, or it is a disconnect
notification of `ka` for `kb` or one that resets what `ka` keeps for `kb`. -/
def Disturbs (ka kb : CryptoKey) (m : TCPServer) (e : Event) : Prop :=
  (∃ i, Closes i e ∧ (m.conn i).onClosed = true ∧ (m.conn i).pubkey = some ka) ∨
  (∃ i plnpkt oc, e = .confirm i plnpkt ∧ (m.conn i).onClosed = true ∧
    (m.conn i).pubkey = some ka ∧ m.conns.lookup ka = some oc) ∨
  ∃ i pkt order x, e = .recv i pkt order ∧ pkt.head? = some 3 ∧ pkt[1]? = some x.connid ∧
    pciOf m i x.pubkey = some x ∧ ((m.conn i).pubkey = some ka ∧ x.pubkey = kb ∨
      ∃ j y, m.conns.lookup x.pubkey = some j ∧ pciOf m j y.pubkey = some y ∧
        y.connid = x.otherid ∧ (m.conn j).pubkey = some ka ∧ y.pubkey = kb)

/-- If the step is a request of `ka` for `kb`, there is a free id and there is room
for what it sends. -/
def Served (ka kb : CryptoKey) (m : TCPServer) (e : Event) : Prop :=
  ∀ i, (m.conn i).pubkey = some ka → Requests i kb e →
    (∃ k : UInt8, (m.conn i).tables.connIds k = some false) ∧
    (m.conn i).cwctrlq.buf.length + 2 ≤ (m.conn i).cwctrlq.cap ∧
    ∀ j, m.conns.lookup kb = some j → (m.conn j).cwctrlq.buf.length + 1 ≤ (m.conn j).cwctrlq.cap

/-- Connection `c` is sent a connection notification for its id of the key `k`. -/
def Notifies (c : Nat) (k : CryptoKey) (m : TCPServer) (_ : Event) (m' : TCPServer) : Prop :=
  ∃ x sent, pciOf m' c k = some x ∧ (m'.conn c).cwctrlq.buf = (m.conn c).cwctrlq.buf ++ sent ∧
    connectNotification x.connid ∈ sent

theorem queued_room {q : Chan Bytes} (room : q.buf.length < q.cap) (data : Bytes) :
    queued q data = q.buf ++ [data] := if_pos room

theorem link_notifies (wf : m.WellFormed) {j : Nat} {own pk : CryptoKey} {pkt : Bytes}
    {order : RangeOrder} {y : PeerConnInfo} (h : next m (.recv i pkt order) = some m')
    (head : pkt.head? = some 0) (request : requestKey pkt = some pk)
    (hown : (m.conn i).pubkey = some own) (other : pk ≠ own) (new : pciOf m i pk = none)
    (peer : m.conns.lookup pk = some j) (listed : pciOf m j own = some y)
    (free : ∃ k : UInt8, (m.conn i).tables.connIds k = some false)
    (roomi : (m.conn i).cwctrlq.buf.length + 2 ≤ (m.conn i).cwctrlq.cap)
    (roomj : (m.conn j).cwctrlq.buf.length + 1 ≤ (m.conn j).cwctrlq.cap) :
    Notifies i pk m (.recv i pkt order) m' ∧ Notifies j own m (.recv i pkt order) m' := by
  have hi := (request_of_recv head h).1
  have ok := (wf.conn i).tables
  rcases new_peer_cases wf hown head request other (pciOf_eq_none_iff.mp new) h with
    ⟨c, -, -, taken⟩ | ⟨k, c, hlt, fresh, entered, hsend, hlink⟩
  · exact absurd taken (ok.not_all_taken free)
  · have hne := wf.registered_ne hown other peer
    have same := granted_same hi hsend
    obtain ⟨q, hq, rfl⟩ := pciOf_eq_some_iff.mp listed
    have hownc : ((m.setConn i c).conn i).pubkey = some own :=
      (same.conn i).pubkey.trans (by simpa [TCPServer.enterPeer] using hown)
    have hqc : ((m.setConn i c).conn j).tables.connInfos own = some q := by
      rwa [setConn_ne m c hne]
    have queues := linkRouting_queues (s := m.setConn i c) peer hownc hqc hne hlink
    have ids := linkRouting_connid (entered.of_same same) hi hlink
    have hcap : c.cwctrlq.cap = (m.conn i).cwctrlq.cap := by
      obtain ⟨q, rfl, -, hcap, -⟩ := sendCtrlPacket_spec hsend
      exact hcap
    have hbuf : c.cwctrlq.buf =
        (m.conn i).cwctrlq.buf ++ [routingResponse (k + numReservedPorts) pk] := by
      rw [sendCtrlPacket_buf (by rw [routingResponse_length]; omega) hsend]
      exact queued_room (q := (m.conn i).cwctrlq) (by omega) _
    have hid : (((m.setConn i c).conn i).tables.pcis (m.conn i).tables.npci).connid =
        k + numReservedPorts := by
      rw [(same.conn i).tables]
      simp [TCPServer.enterPeer]
    constructor
    · have entry := ids i pk
      rw [same.pciOf, pciOf_enterPeer ok, if_pos ⟨rfl, rfl⟩] at entry
      obtain ⟨x, hx, hxid⟩ := Option.map_eq_some_iff.mp entry
      refine ⟨x, [routingResponse (k + numReservedPorts) pk,
        connectNotification (k + numReservedPorts)], hx, ?_, by simp [hxid]⟩
      have room : c.cwctrlq.buf.length < c.cwctrlq.cap := by grind
      rw [queues i, if_pos rfl, hid, setConn_self, queued_room room, hbuf, List.append_assoc]
      rfl
    · have kept := ids j own
      rw [same.pciOf, pciOf_enterPeer ok, if_neg (fun h => hne h.1), listed] at kept
      obtain ⟨x, hx, hxid⟩ := Option.map_eq_some_iff.mp kept
      refine ⟨x, [connectNotification x.connid], hx, ?_, List.mem_singleton_self _⟩
      rw [queues j, if_neg hne, if_pos rfl, setConn_ne m c hne, queued_room (by omega), hxid]

/-- One side of a link: the connection registered under `ka` keeps `kb` with status 2. -/
def SideUp (s : TCPServer) (ka kb : CryptoKey) (a : Nat) : Prop :=
  s.conns.lookup ka = some a ∧ ∃ x, pciOf s a kb = some x ∧ x.status = 2

theorem SideUp.step (wf : s.WellFormed) (up : SideUp s ka kb a)
    (calm : ¬ Disturbs ka kb s e ∧ ¬ Disturbs kb ka s e) (h : next s e = some s') :
    SideUp s' ka kb a := by
  obtain ⟨ha, x, hx, hst⟩ := up
  have hkey := (wf.registered ka a ha).2.1
  cases (next_effect wf h).2 with
  | quiet _ _ reg pci => exact ⟨(reg ka).trans ha, x, (pci a kb).trans hx, hst⟩
  | register i plnpkt k live _ key reg pci =>
    refine ⟨?_, x, (pci a kb).trans hx, hst⟩
    rw [reg, if_neg]
    · exact ha
    · rintro rfl
      exact calm.1 (Or.inr (Or.inl ⟨i, plnpkt, a, rfl, live, key, ha⟩))
  | drop i _ k closes live key reg pci =>
    refine ⟨?_, ?_⟩
    · rw [reg, if_neg]
      · exact ha
      · rintro rfl
        exact calm.1 (Or.inl ⟨i, closes, live, key⟩)
    · rcases pci a kb with ⟨rfl, -⟩ | ⟨-, same⟩
      · exact absurd (Or.inl ⟨i, closes, live, key⟩) calm.2
      · exact ⟨x, same.trans hx, hst⟩
  | enter i _ _ own pk k _ _ fresh _ reg pci =>
    have old : ¬ (a = i ∧ kb = pk) := fresh.other_entry hx
    exact ⟨(reg ka).trans ha, x, by rw [pci, if_neg old]; exact hx, hst⟩
  | link i _ _ own pk k j y _ _ fresh _ _ _ reg pci =>
    refine ⟨(reg ka).trans ha, ?_⟩
    have old : ¬ (a = i ∧ kb = pk) := fresh.other_entry hx
    rw [pci, if_neg old]
    by_cases theirs : a = j ∧ kb = own
    · exact ⟨_, if_pos theirs, rfl⟩
    · exact ⟨x, by rw [if_neg theirs]; exact hx, hst⟩
  | unlink i pkt order z y j head hid mine peer _ theirs crossed reg pci =>
    have notTheirs : ¬ (a = j ∧ kb = y.pubkey) := by
      rintro ⟨rfl, rfl⟩
      exact calm.1 (Or.inr (Or.inr ⟨i, pkt, order, z, rfl, head, hid, mine,
        Or.inr ⟨a, y, peer, theirs, crossed, hkey, rfl⟩⟩))
    have notMine : ¬ (a = i ∧ kb = z.pubkey) := by
      rintro ⟨rfl, rfl⟩
      exact calm.1 (Or.inr (Or.inr ⟨a, pkt, order, z, rfl, head, hid, mine, Or.inl ⟨hkey, rfl⟩⟩))
    exact ⟨(reg ka).trans ha, x, by rw [pci, if_neg notTheirs, if_neg notMine]; exact hx, hst⟩

theorem request_enters (wf : m.WellFormed) (h : next m e = some m') (request : Requests a kb e)
    (hkey : (m.conn a).pubkey = some ka) (apart : kb ≠ ka)
    (free : ∃ k : UInt8, (m.conn a).tables.connIds k = some false) : pciOf m' a kb ≠ none := by
  obtain ⟨pkt, order, rfl, head, hpk⟩ := request
  cases (next_effect wf h).2 with
  | quiet _ idle _ pci =>
    rw [pci]
    obtain ⟨pk, own, hpk', hown, why⟩ := idle.1 head
    obtain rfl := Option.some.inj (hpk.symm.trans hpk')
    obtain rfl := Option.some.inj (hkey.symm.trans hown)
    rcases why with heq | hsome | taken
    · exact absurd heq apart
    · exact hsome
    · exact absurd taken ((wf.conn a).tables.not_all_taken free)
  | drop _ _ _ closes => rcases closes with he | he <;> cases he
  | enter _ _ _ _ pk _ _ request _ _ _ pci => grind
  | link _ _ _ own pk _ j y _ request _ _ hne _ _ pci => grind
  | unlink _ _ _ _ _ _ head' =>
    rw [head] at head'
    cases head'

theorem second_entry_links (wf : m.WellFormed) (h : next m e = some m')
    (rest : exec next m' es = some s) (ha : s.conns.lookup ka = some a)
    (hb : s.conns.lookup kb = some b) (apart : kb ≠ ka) (served : Served ka kb m e)
    (new : pciOf m a kb = none) (hx : pciOf m' a kb ≠ none) (hy : pciOf m' b ka ≠ none) :
    SideUp m' ka kb a ∧ SideUp m' kb ka b ∧ Notifies a kb m e m' ∧ Notifies b ka m e m' := by
  obtain ⟨wf', effect⟩ := next_effect wf h
  have wfs := wf'.throughout rest
  have hab : a ≠ b := by
    rintro rfl
    exact apart (wfs.registered_inj hb ha)
  obtain ⟨x, hx⟩ := Option.ne_none_iff_exists'.mp hx
  have request := effect.entry_new new hx
  obtain ⟨pkt, order, rfl, head, hpk⟩ := request
  -- the request is not the other connection's, so that one had its entry before
  obtain ⟨y, hy⟩ : ∃ y, pciOf m b ka = some y := by
    rcases effect.entry b ka with same | ⟨-, pkt', order', he, -⟩
    · obtain ⟨y', hy'⟩ := Option.ne_none_iff_exists'.mp hy
      rw [hy'] at same
      obtain ⟨y, hy, -⟩ := Option.map_eq_some_iff.mp same.symm
      exact ⟨y, hy⟩
    · exact absurd (Event.recv.inj he).1 hab
  have run : exec next m (.recv a pkt order :: es) = some s := exec_cons_iff.mpr ⟨m', h, rest⟩
  obtain ⟨⟨-, -, hst⟩, -⟩ := next_eq_some_iff.mp h
  have hka := registered_throughout wf run ha (Or.inr hst)
  have hkb := registered_throughout wf run hb (past_of_entry wf (by rw [hy]; simp))
  have hkey := (wf.registered ka a hka).2.1
  obtain ⟨free, rooma, roomb⟩ := served a hkey ⟨pkt, order, rfl, head, hpk⟩
  have notified := link_notifies wf h head hpk hkey apart new hkb hy free rooma (roomb b hkb)
  have linked : SideUp m' ka kb a ∧ SideUp m' kb ka b := by
    cases effect with
    | quiet _ _ _ pci => rw [pci, new] at hx; cases hx
    | drop _ _ _ closes => rcases closes with he | he <;> cases he
    | enter _ _ _ own pk _ _ request fresh alone =>
      obtain rfl := Option.some.inj (hpk.symm.trans request)
      obtain rfl := Option.some.inj (hkey.symm.trans fresh.key)
      rw [alone b hkb] at hy
      cases hy
    | unlink _ _ _ _ _ _ head' => rw [head] at head'; cases head'
    | link _ _ _ own pk k j y' _ request fresh peer hne _ reg pci =>
      obtain rfl := Option.some.inj (hpk.symm.trans request)
      obtain rfl := Option.some.inj (hkey.symm.trans fresh.key)
      obtain rfl := Option.some.inj (peer.symm.trans hkb)
      exact ⟨⟨(reg _).trans hka, _, by rw [pci, if_neg (fun h => hne h.1.symm),
        if_pos ⟨rfl, rfl⟩], rfl⟩, ⟨(reg _).trans hkb, _, by rw [pci, if_pos ⟨rfl, rfl⟩], rfl⟩⟩
  exact ⟨linked.1, linked.2, notified⟩

theorem SideUp.throughout (wf : m.WellFormed) (up : SideUp m ka kb a)
    (run : exec next m es = some s)
    (calm : Along next (fun m e => ¬ Disturbs ka kb m e ∧ ¬ Disturbs kb ka m e) m es) :
    SideUp s ka kb a := by
  refine (exec_invariant_along (P := fun n => n.WellFormed ∧ SideUp n ka kb a) ?_ ⟨wf, up⟩
    calm run).2
  rintro s e t ⟨wf, up⟩ calm h
  exact ⟨(next_effect wf h).1, up.step wf calm h⟩

theorem both_entries_link (ha : s.conns.lookup ka = some a) (hb : s.conns.lookup kb = some b)
    (apart : kb ≠ ka) (hx : pciOf s a kb ≠ none) (hy : pciOf s b ka ≠ none) (es : List Event) :
    ∀ m : TCPServer, m.WellFormed → exec next m es = some s →
      Along next (fun m e => ¬ Disturbs ka kb m e ∧ ¬ Disturbs kb ka m e) m es →
      Along next (fun m e => Served ka kb m e ∧ Served kb ka m e) m es →
      (pciOf m a kb = none ∨ pciOf m b ka = none) →
      SideUp s ka kb a ∧ SideUp s kb ka b ∧
        Occurs next (Notifies a kb) m es ∧ Occurs next (Notifies b ka) m es := by
  induction es with
  | nil =>
    intro m _ run _ _ missing
    obtain rfl : m = s := by simpa using run
    rcases missing with h | h
    · exact absurd h hx
    · exact absurd h hy
  | cons e es ih =>
    intro m wf run calm served missing
    obtain ⟨m', h, rest⟩ := exec_cons_iff.mp run
    have wf' := (next_effect wf h).1
    have single : exec next m [e] = some m' := exec_cons_iff.mpr ⟨m', h, rfl⟩
    obtain ⟨-, calm'⟩ := (along_cons_iff h).mp calm
    obtain ⟨here, served'⟩ := (along_cons_iff h).mp served
    by_cases both : pciOf m' a kb ≠ none ∧ pciOf m' b ka ≠ none
    · have linked : SideUp m' ka kb a ∧ SideUp m' kb ka b ∧ Notifies a kb m e m' ∧
          Notifies b ka m e m' := by
        rcases missing with new | new
        · exact second_entry_links wf h rest ha hb apart here.1 new both.1 both.2
        · obtain ⟨upb, upa, nb, na⟩ :=
            second_entry_links wf h rest hb ha apart.symm here.2 new both.2 both.1
          exact ⟨upa, upb, na, nb⟩
      obtain ⟨upa, upb, na, nb⟩ := linked
      have calmer : Along next (fun m e => ¬ Disturbs kb ka m e ∧ ¬ Disturbs ka kb m e) m' es :=
        fun pre f post n cut run => (calm' pre f post n cut run).symm
      exact ⟨upa.throughout wf' rest calm', upb.throughout wf' rest calmer,
        ⟨[], e, es, m, m', rfl, rfl, h, na⟩, ⟨[], e, es, m, m', rfl, rfl, h, nb⟩⟩
    · have missing' : pciOf m' a kb = none ∨ pciOf m' b ka = none := by
        rcases Classical.not_and_iff_not_or_not.mp both with h | h
        · exact Or.inl (not_not.mp h)
        · exact Or.inr (not_not.mp h)
      obtain ⟨upa, upb, na, nb⟩ := ih m' wf' rest calm' served' missing'
      exact ⟨upa, upb, na.append_left single, nb.append_left single⟩

theorem requested_entry (wf : m.WellFormed) (run : exec next m es = some s)
    (ha : s.conns.lookup ka = some a) (apart : kb ≠ ka) (served : Along next (Served ka kb) m es)
    (request : Occurs next (fun _ e _ => Requests a kb e) m es) : pciOf s a kb ≠ none := by
  obtain ⟨pre, e, post, n, n', rfl, before, h, request⟩ := request
  obtain ⟨l, hl, rest⟩ := exec_append_iff.mp run
  obtain rfl := Option.some.inj (before.symm.trans hl)
  obtain ⟨l', hl', after⟩ := exec_cons_iff.mp rest
  obtain rfl := Option.some.inj (h.symm.trans hl')
  have wfn := wf.throughout before
  obtain ⟨pkt, order, rfl, -⟩ := id request
  obtain ⟨⟨-, -, hst⟩, -⟩ := next_eq_some_iff.mp h
  have hka := registered_throughout wfn rest ha (Or.inr hst)
  have hkey := (wfn.registered ka a hka).2.1
  have free := (served pre _ post n rfl before a hkey request).1
  exact entry_persists (next_effect wfn h).1 after (request_enters wfn h request hkey apart free)

/-- Take a stretch of a run in which nothing disturbs the pair, the requests of both find a free
id and room in the queues, and both ask for each other. -/
theorem route_restored {es stretch : List Event} {s₁ s : TCPServer} {a b : Nat}
    {ka kb : CryptoKey} (run : exec next newTCPServer es = some s₁)
    (later : exec next s₁ stretch = some s) (ha : s.conns.lookup ka = some a)
    (hb : s.conns.lookup kb = some b) (apart : ka ≠ kb)
    (calm : Along next (fun m e => ¬ Disturbs ka kb m e ∧ ¬ Disturbs kb ka m e) s₁ stretch)
    (served : Along next (fun m e => Served ka kb m e ∧ Served kb ka m e) s₁ stretch)
    (missing : pciOf s₁ a kb = none ∨ pciOf s₁ b ka = none)
    (asksA : Occurs next (fun _ e _ => Requests a kb e) s₁ stretch)
    (asksB : Occurs next (fun _ e _ => Requests b ka e) s₁ stretch) :
    Linked s ka kb ∧ Occurs next (Notifies a kb) s₁ stretch ∧
      Occurs next (Notifies b ka) s₁ stretch := by
  have wf := reachable_wellFormed run
  have hx := requested_entry wf later ha apart.symm
    (fun pre e post m cut run => (served pre e post m cut run).1) asksA
  have hy := requested_entry wf later hb apart
    (fun pre e post m cut run => (served pre e post m cut run).2) asksB
  obtain ⟨⟨-, x, hxs, hx2⟩, ⟨-, y, hys, hy2⟩, na, nb⟩ :=
    both_entries_link ha hb apart.symm hx hy stretch s₁ wf later calm served missing
  exact ⟨⟨a, b, x, y, ha, hb, hxs, hys, hx2, hy2⟩, na, nb⟩

theorem request_calm {b : UInt8} (m : TCPServer) : ¬ Disturbs ka kb m (requests i b) := by
  rintro (⟨j, closes, -⟩ | ⟨j, plnpkt, oc, he, -⟩ | ⟨j, pkt, order, x, he, head, -⟩)
  · rcases closes with he | he <;> cases he
  · cases he
  · obtain ⟨-, rfl, -⟩ := Event.recv.inj he
    cases head

theorem requests_calm (m : TCPServer) (asks : List (Nat × UInt8)) :
    Along next (fun m e => ¬ Disturbs ka kb m e ∧ ¬ Disturbs kb ka m e) m
      (asks.map fun q => requests q.1 q.2) := by
  refine along_of_mem ?_ m
  intro e he n
  obtain ⟨q, -, rfl⟩ := List.mem_map.mp he
  exact ⟨request_calm n, request_calm n⟩

def servedTest (m : TCPServer) : Event → Bool
  | .recv i _ _ => (m.conn i).tables.connIds 200 = some false &&
      (m.conn i).cwctrlq.buf.length + 2 ≤ (m.conn i).cwctrlq.cap &&
      m.registered.all fun j => (m.conn j).cwctrlq.buf.length + 1 ≤ (m.conn j).cwctrlq.cap
  | _ => true

theorem served_of_test (ka kb : CryptoKey) (m : TCPServer) (e : Event)
    (h : servedTest m e = true) : Served ka kb m e := by
  rintro i - ⟨pkt, order, rfl, -⟩
  simp only [servedTest, Bool.and_eq_true, decide_eq_true_eq, List.all_eq_true] at h
  exact ⟨⟨200, h.1.1⟩, h.1.2, fun j hj => h.2 j (mem_registered.mpr ⟨kb, hj⟩)⟩

/-- A client that was linked is closed, connects again, and both ask again. -/
theorem route_restored_after_close :
    Linked (after (bothAsk ++ [.readEnd 0] ++ joins 2 1 ++ [requests 2 2] ++ [requests 1 1]))
      (keyOf 1) (keyOf 2) := by
  have run : exec next newTCPServer (bothAsk ++ [.readEnd 0] ++ joins 2 1) =
      some (after (bothAsk ++ [.readEnd 0] ++ joins 2 1)) := exec_after (by decide +kernel)
  have first : next (after (bothAsk ++ [.readEnd 0] ++ joins 2 1)) (requests 2 2) =
      some (after (bothAsk ++ [.readEnd 0] ++ joins 2 1 ++ [requests 2 2])) :=
    next_after (by decide +kernel)
  have second : next (after (bothAsk ++ [.readEnd 0] ++ joins 2 1 ++ [requests 2 2]))
      (requests 1 1) =
      some (after (bothAsk ++ [.readEnd 0] ++ joins 2 1 ++ [requests 2 2] ++ [requests 1 1])) :=
    next_after (by decide +kernel)
  have later : exec next (after (bothAsk ++ [.readEnd 0] ++ joins 2 1))
      [requests 2 2, requests 1 1] = some _ :=
    exec_cons_iff.mpr ⟨_, first, exec_cons_iff.mpr ⟨_, second, rfl⟩⟩
  refine (route_restored (a := 2) (b := 1) run later (by decide +kernel) (by decide +kernel)
    (by decide) ?_ ?_ (Or.inl (by decide +kernel)) ?_ ?_).1
  · exact requests_calm _ [(2, 2), (1, 1)]
  · exact along_of_check (c := servedTest)
      (fun m e h => ⟨served_of_test _ _ m e h, served_of_test _ _ m e h⟩) (by decide +kernel)
  · exact ⟨[], _, _, _, _, rfl, rfl, first, _, natural, rfl, rfl, by decide +kernel⟩
  · exact ⟨[requests 2 2], _, [], _, _, rfl, exec_cons_iff.mpr ⟨_, first, rfl⟩, second, _, natural,
      rfl, rfl, by decide +kernel⟩

/-- After a disconnect notification both clients ask again, and the link stays down. -/
theorem route_lost_after_disconnect :
    exec next newTCPServer (bothAsk ++ [disconnects 0 16]) =
      some (after (bothAsk ++ [disconnects 0 16])) ∧
    exec next (after (bothAsk ++ [disconnects 0 16])) [requests 0 2, requests 1 1] =
      some (after (bothAsk ++ [disconnects 0 16] ++ [requests 0 2] ++ [requests 1 1])) ∧
    Along next (fun m e => ¬ Disturbs (keyOf 1) (keyOf 2) m e ∧ ¬ Disturbs (keyOf 2) (keyOf 1) m e)
      (after (bothAsk ++ [disconnects 0 16])) [requests 0 2, requests 1 1] ∧
    Requests 0 (keyOf 2) (requests 0 2) ∧ Requests 1 (keyOf 1) (requests 1 1) ∧
    (after (bothAsk ++ [disconnects 0 16] ++ [requests 0 2] ++ [requests 1 1])).conns.lookup
      (keyOf 1) = some 0 ∧
    (after (bothAsk ++ [disconnects 0 16] ++ [requests 0 2] ++ [requests 1 1])).conns.lookup
      (keyOf 2) = some 1 ∧
    ¬ Linked (after (bothAsk ++ [disconnects 0 16] ++ [requests 0 2] ++ [requests 1 1]))
      (keyOf 1) (keyOf 2) := by
  have named : (after (bothAsk ++ [disconnects 0 16] ++ [requests 0 2] ++
      [requests 1 1])).conns.lookup (keyOf 1) = some 0 := by decide +kernel
  refine ⟨exec_after (by decide +kernel), ?_, ?_, ⟨_, natural, rfl, rfl, by decide +kernel⟩,
    ⟨_, natural, rfl, rfl, by decide +kernel⟩, named, by decide +kernel, ?_⟩
  · exact exec_cons_iff.mpr ⟨_, next_after (by decide +kernel),
      exec_cons_iff.mpr ⟨_, next_after (by decide +kernel), rfl⟩⟩
  · exact requests_calm _ [(0, 2), (1, 1)]
  · rintro ⟨a, b, x, y, ha, -, hx, -, hst, -⟩
    obtain rfl := Option.some.inj (named.symm.trans ha)
    obtain rfl : ⟨keyOf 2, 1, 0, 16⟩ = x := Option.some.inj ((by decide +kernel :
      pciOf (after (bothAsk ++ [disconnects 0 16] ++ [requests 0 2] ++ [requests 1 1])) 0
        (keyOf 2) = some _).symm.trans hx)
    revert hst
    decide

end TcpServer
