import Toxera.Mintox.RelayTables

/-!
# Where data packets go

A data packet is forwarded by three lookups: the sender's id, the registry, and the
receiver's entry for the sender.
-/

namespace TcpServer

open CryptoCore Exec

variable {b i : Nat} {c : TCPSecureConn} {connid : UInt8} {d pkt : Bytes} {e : Event}
  {k ka kb : CryptoKey} {m s s' : TCPServer} {order : RangeOrder} {x y : PeerConnInfo}

def Requests (i : Nat) (k : CryptoKey) (e : Event) : Prop :=
  ∃ pkt order, e = .recv i pkt order ∧ pkt.head? = some 0 ∧ requestKey pkt = some k

theorem Effect.entry (h : Effect s s' e) (i : Nat) (k : CryptoKey) :
    (pciOf s' i k).map PeerConnInfo.connid = (pciOf s i k).map PeerConnInfo.connid ∨
      pciOf s i k = none ∧ Requests i k e := by
  cases h with
  | quiet _ _ _ pci => exact Or.inl (by rw [pci])
  | register _ _ _ _ _ _ _ pci => exact Or.inl (by rw [pci])
  | drop _ _ _ _ _ _ _ pci =>
    refine Or.inl ?_
    rcases pci i k with ⟨-, -, reset⟩ | ⟨-, same⟩
    · rw [reset, Option.map_map]
      rfl
    · rw [same]
  | enter c pkt order own pk _ head request fresh _ _ pci =>
    rw [pci]
    split_ifs with hc
    · obtain ⟨rfl, rfl⟩ := hc
      exact Or.inr ⟨pciOf_eq_none_iff.mpr fresh.new, pkt, order, rfl, head, request⟩
    · exact Or.inl rfl
  | link c pkt order own pk _ j y head request fresh _ _ listed _ pci =>
    rw [pci]
    split_ifs with hj hc
    · grind
    · obtain ⟨rfl, rfl⟩ := hc
      exact Or.inr ⟨pciOf_eq_none_iff.mpr fresh.new, pkt, order, rfl, head, request⟩
    · exact Or.inl rfl
  | unlink c _ _ z y j _ _ mine _ _ theirs _ _ pci =>
    refine Or.inl ?_
    rw [pci]
    split_ifs with hj hc
    · obtain ⟨rfl, rfl⟩ := hj
      rw [theirs]
      rfl
    · obtain ⟨rfl, rfl⟩ := hc
      rw [mine]
      rfl
    · rfl

theorem Effect.entry_kept (h : Effect s s' e) (hx : pciOf s i k = some x) :
    ∃ x', pciOf s' i k = some x' ∧ x'.connid = x.connid := by
  rcases h.entry i k with same | ⟨hnone, -⟩
  · rw [hx] at same
    exact Option.map_eq_some_iff.mp same
  · rw [hx] at hnone
    cases hnone

theorem Effect.entry_new (h : Effect s s' e) (hnone : pciOf s i k = none)
    (hx : pciOf s' i k = some x) : Requests i k e := by
  rcases h.entry i k with same | ⟨-, request⟩
  · rw [hx, hnone] at same
    cases same
  · exact request

/-- The step is a routing request of connection `i` for the key, and it binds
the key to the id. -/
def Binds (i : Nat) (k : CryptoKey) (connid : UInt8) (m : TCPServer) (e : Event)
    (m' : TCPServer) : Prop :=
  Requests i k e ∧ pciOf m i k = none ∧ ∃ x, pciOf m' i k = some x ∧ x.connid = connid

theorem entry_bound {es : List Event} (run : exec next newTCPServer es = some s)
    (hx : pciOf s i k = some x) : Occurs next (Binds i k x.connid) newTCPServer es := by
  revert i k x
  refine exec_history (P := fun es s => ∀ {i k x}, pciOf s i k = some x →
    Occurs next (Binds i k x.connid) newTCPServer es) ?_ ?_ run
  · intro i k x hx
    simp [newTCPServer, pciOf, newTCPSecureConn, RoutingTables.empty] at hx
  · intro es s e s' before ih last i k x hx
    have effect := (next_effect (reachable_wellFormed before) last).2
    rw [occurs_snoc_iff before last]
    cases hold : pciOf s i k with
    | none => exact Or.inr ⟨effect.entry_new hold hx, hold, x, hx, rfl⟩
    | some x₀ =>
      obtain ⟨x', hx', hid⟩ := effect.entry_kept hold
      obtain rfl := Option.some.inj (hx'.symm.trans hx)
      rw [hid]
      exact Or.inl (ih hold)

def SameData (s s' : TCPServer) : Prop := ∀ x, (s'.conn x).cwdataq = (s.conn x).cwdataq

theorem SameData.trans {t r : TCPServer} (h : SameData s t) (h' : SameData t r) :
    SameData s r := fun x => (h' x).trans (h x)

theorem SameData.setConn (h : c.cwdataq = (s.conn i).cwdataq) : SameData s (s.setConn i c) := by
  intro x
  by_cases hx : x = i
  · subst x; simpa using h
  · rw [setConn_ne s c hx]

theorem SameData.modifyPci (s : TCPServer) (i p : Nat) (f : PeerConnInfo → PeerConnInfo) :
    SameData s (s.modifyPci i p f) := .setConn rfl

theorem sendCtrlPacket_dataq {c' : TCPSecureConn} {data : Bytes}
    (h : sendCtrlPacket c data = some c') : c'.cwdataq = c.cwdataq := by
  obtain ⟨q, rfl, -⟩ := sendCtrlPacket_spec h
  rfl

theorem sendConnectNotification_dataq (h : sendConnectNotification s i connid = some s') :
    SameData s s' := by
  obtain ⟨c, hc, rfl⟩ := Option.map_eq_some_iff.mp h
  exact .setConn (sendCtrlPacket_dataq hc)

theorem linkRouting_dataq {p : Nat} {pk : CryptoKey} (h : linkRouting s i p pk = some s') :
    SameData s s' := by
  unfold linkRouting at h
  split at h
  · cases h
    exact fun _ => rfl
  · cases h
  · split at h
    · cases h
      exact fun _ => rfl
    · obtain ⟨s₁, h₁, h₂⟩ := Option.bind_eq_some_iff.mp h
      refine SameData.trans ?_ (sendConnectNotification_dataq h₂)
      refine SameData.trans ?_ (sendConnectNotification_dataq h₁)
      exact (SameData.modifyPci s i p _).trans (.modifyPci _ _ _ _)

theorem dispatch_dataq (wf : s.WellFormed) (h : dispatch s i order.keys pkt = some s') :
    SameData s s' ∨ handleRoutingData s i pkt = some s' := by
  rcases dispatch_cases h with ⟨-, rfl | ⟨c, hc, rfl⟩⟩ | ⟨-, h⟩ | ⟨-, h⟩ | ⟨connid, -, -, h⟩
  · exact Or.inl fun _ => rfl
  · exact Or.inl (.setConn (sendCtrlPacket_dataq hc))
  · obtain ⟨pk, own, -, -, ⟨connid, c, hc, rfl, -⟩ | ⟨k, c, -, -, hc, hlink⟩⟩ :=
      handleRoutingRequest_split (wf.conn i).tables h
    · exact Or.inl (.setConn (sendCtrlPacket_dataq hc))
    · have hd := sendCtrlPacket_dataq hc
      exact Or.inl (SameData.trans (.setConn hd) (linkRouting_dataq hlink))
  · obtain ⟨connid, p, -, -, ⟨rfl, -⟩ | ⟨j, q, -, -, hsend⟩⟩ :=
      handleDisconnectNotification_cases h
    · exact Or.inl fun _ => rfl
    · obtain ⟨c, hc, rfl⟩ := Option.map_eq_some_iff.mp hsend
      have reset : SameData s (s.unlinkPair j q i p) :=
        (SameData.modifyPci s j q _).trans (.modifyPci _ _ _ _)
      exact Or.inl (reset.trans (.setConn (sendCtrlPacket_dataq hc)))
  · exact Or.inr h

/-- The event is a data packet from a client with key `ka` that the lookups carry
to the client registered under `kb`, and there is room for it. -/
structure Delivers (ka kb : CryptoKey) (m : TCPServer) (i : Nat) (connid : UInt8) (d : Bytes)
    (b : Nat) (x y : PeerConnInfo) : Prop where
  sender : (m.conn i).pubkey = some ka
  bound : pciOf m i kb = some x
  connid : x.connid = connid
  receiver : m.conns.lookup kb = some b
  listed : pciOf m b ka = some y
  short : d.length ≤ 2048
  room : (m.conn b).cwdataq.buf.length < (m.conn b).cwdataq.cap

theorem Delivers.pointer (wf : m.WellFormed) (h : Delivers ka kb m i connid d b x y) :
    ∃ p, (m.conn i).tables.connInfos2 connid = some p ∧ ((m.conn i).tables.pcis p).pubkey = kb := by
  obtain ⟨p, hp, rfl⟩ := pciOf_eq_some_iff.mp h.bound
  obtain ⟨hkey, hid⟩ := (wf.conn i).tables.info kb p hp
  exact ⟨p, h.connid ▸ hid, hkey⟩

theorem handleRoutingData_delivers (wf : s.WellFormed)
    (h : handleRoutingData s i (connid :: d) = some s') :
    ((∀ z, s'.conn z = s.conn z) ∧ ∀ ka kb b x y, ¬ Delivers ka kb s i connid d b x y) ∨
    ∃ ka kb b x y q, Delivers ka kb s i connid d b x y ∧
      s' = s.setConn b { s.conn b with cwdataq := q } ∧
      q.buf = (s.conn b).cwdataq.buf ++ [y.connid :: d] := by
  obtain ⟨_, _, heq, cases⟩ := handleRoutingData_cases h
  obtain ⟨rfl, rfl⟩ := List.cons.inj heq
  rcases cases with ⟨rfl, nowhere⟩ | ⟨p, j, own, q, c, hp, hj, hown, hq, hsend, rfl⟩
  · refine Or.inl ⟨fun _ => rfl, ?_⟩
    intro ka kb b x y del
    obtain ⟨p, hp, hkey⟩ := del.pointer wf
    have unlisted := nowhere p b ka hp (by rw [hkey]; exact del.receiver) del.sender
    rw [← pciOf_eq_none_iff, del.listed] at unlisted
    cases unlisted
  · obtain ⟨dq, rfl, hclosed, hcap, hbuf⟩ := sendDataPacket_spec hsend
    obtain ⟨hentry, hid⟩ := (wf.conn i).tables.info2 connid p hp
    by_cases fits : d.length ≤ 2048 ∧ (s.conn j).cwdataq.buf.length < (s.conn j).cwdataq.cap
    · rw [if_pos fits] at hbuf
      exact Or.inr ⟨own, _, j, _, _, dq,
        ⟨hown, pciOf_eq_some_iff.mpr ⟨p, hentry, rfl⟩, hid, hj,
          pciOf_eq_some_iff.mpr ⟨q, hq, rfl⟩, fits.1, fits.2⟩, rfl, hbuf⟩
    · rw [if_neg fits] at hbuf
      obtain rfl : dq = (s.conn j).cwdataq := Chan.ext hcap hbuf hclosed
      refine Or.inl ⟨?_, ?_⟩
      · intro z
        by_cases hz : z = j
        · subst z; simp
        · rw [setConn_ne s _ hz]
      · intro ka kb b x y del
        obtain ⟨p', hp', hkey⟩ := del.pointer wf
        obtain rfl := Option.some.inj (hp.symm.trans hp')
        rw [hkey] at hj
        obtain rfl := Option.some.inj (hj.symm.trans del.receiver)
        exact fits ⟨del.short, del.room⟩

theorem dispatch_data (data : numReservedPorts ≤ connid) (s : TCPServer) (i : Nat)
    (order : List UInt8) (d : Bytes) :
    dispatch s i order (connid :: d) = handleRoutingData s i (connid :: d) := by
  have other : ∀ c : UInt8, c < numReservedPorts → connid ≠ c := by
    rintro c hc rfl
    exact UInt8.not_lt.mpr data hc
  simp [dispatch, other 4 (by decide), other 5 (by decide), other 0 (by decide),
    other 1 (by decide), other 2 (by decide), other 3 (by decide), other 6 (by decide),
    other 7 (by decide), other 8 (by decide), other 9 (by decide), data]

/-- Of every data packet at most one copy is queued. -/
theorem data_goes_where_bound {es : List Event} {s s' : TCPServer} {i : Nat} {connid : UInt8}
    {d : Bytes} {order : RangeOrder} (run : exec next newTCPServer es = some s)
    (data : numReservedPorts ≤ connid) (h : next s (.recv i (connid :: d) order) = some s') :
    (∀ z, s'.conn z = s.conn z) ∨
    ∃ ka kb b x y, (s.conn i).pubkey = some ka ∧
      pciOf s i kb = some x ∧ x.connid = connid ∧
      Occurs next (Binds i kb connid) newTCPServer es ∧
      s.conns.lookup kb = some b ∧ pciOf s b ka = some y ∧
      Occurs next (Binds b ka y.connid) newTCPServer es ∧
      (s'.conn b).cwdataq.buf = (s.conn b).cwdataq.buf ++ [y.connid :: d] ∧
      (s'.conn b).cwctrlq = (s.conn b).cwctrlq ∧ ∀ z, z ≠ b → s'.conn z = s.conn z := by
  obtain ⟨-, h⟩ := next_eq_some_iff.mp h
  have h' : handleRoutingData s i (connid :: d) = some s' := by
    rw [← dispatch_data data s i order.keys d]
    exact h
  rcases handleRoutingData_delivers (reachable_wellFormed run) h' with
    ⟨same, -⟩ | ⟨ka, kb, b, x, y, q, del, rfl, hbuf⟩
  · exact Or.inl same
  · refine Or.inr ⟨ka, kb, b, x, y, del.sender, del.bound, del.connid, ?_, del.receiver,
      del.listed, entry_bound run del.listed, by simpa using hbuf, by simp,
      fun z hz => setConn_ne s _ hz⟩
    rw [← del.connid]
    exact entry_bound run del.bound

def bothAsk : List Event := joins 0 1 ++ joins 1 2 ++ [requests 0 2, requests 1 1]

theorem data_goes_where_bound_linked_pair :
    ∃ s' b y, next (after bothAsk) (sends 0 16 [7]) = some s' ∧
      Occurs next (Binds b (keyOf 1) y) newTCPServer bothAsk ∧
      (s'.conn b).cwdataq.buf = ((after bothAsk).conn b).cwdataq.buf ++ [[y, 7]] := by
  obtain ⟨s', h⟩ := Option.isSome_iff_exists.mp
    (by decide +kernel : (next (after bothAsk) (sends 0 16 [7])).isSome = true)
  have queue : (next (after bothAsk) (sends 0 16 [7])).map (fun t => (t.conn 1).cwdataq.buf) =
      some [[16, 7]] := by decide +kernel
  have run : exec next newTCPServer bothAsk = some (after bothAsk) := exec_after (by decide +kernel)
  rcases data_goes_where_bound run (by decide) h with
    same | ⟨ka, kb, b, x, y, hka, -, -, -, -, -, bound, hbuf, -⟩
  · have empty : ((after bothAsk).conn 1).cwdataq.buf = [] := by decide +kernel
    rw [h, Option.map_some, same 1, empty] at queue
    cases queue
  · obtain rfl : keyOf 1 = ka := Option.some.inj ((by decide +kernel :
      ((after bothAsk).conn 0).pubkey = some (keyOf 1)).symm.trans hka)
    exact ⟨s', b, y.connid, h, bound, hbuf⟩

def Linked (s : TCPServer) (ka kb : CryptoKey) : Prop :=
  ∃ a b x y, s.conns.lookup ka = some a ∧ s.conns.lookup kb = some b ∧
    pciOf s a kb = some x ∧ pciOf s b ka = some y ∧ x.status = 2 ∧ y.status = 2

/-- A packet from a client with key `ka` reaches the data queue of the client
registered under `kb`. -/
def Forwards (ka kb : CryptoKey) (m : TCPServer) (e : Event) (m' : TCPServer) : Prop :=
  ∃ i pkt order b, e = .recv i pkt order ∧ (m.conn i).pubkey = some ka ∧
    m.conns.lookup kb = some b ∧ (m'.conn b).cwdataq.buf ≠ (m.conn b).cwdataq.buf

def Deliverable (ka kb : CryptoKey) (m : TCPServer) (e : Event) : Prop :=
  ∃ i connid d order b x y, e = .recv i (connid :: d) order ∧ Delivers ka kb m i connid d b x y

theorem forwards_iff {m' : TCPServer} (wf : m.WellFormed) (h : next m e = some m')
    (ka kb : CryptoKey) : Forwards ka kb m e m' ↔ Deliverable ka kb m e := by
  constructor
  · rintro ⟨i, pkt, order, b, rfl, hka, hkb, changed⟩
    obtain ⟨-, hstep⟩ := next_eq_some_iff.mp h
    rcases dispatch_dataq wf hstep with same | hdata
    · exact absurd (by rw [same b]) changed
    · obtain ⟨connid, d, rfl, -⟩ := handleRoutingData_cases hdata
      rcases handleRoutingData_delivers wf hdata with
        ⟨same, -⟩ | ⟨ka', kb', b', x, y, q, del, rfl, -⟩
      · exact absurd (by rw [same b]) changed
      · obtain rfl : b = b' := by
          by_contra hne
          exact changed (by rw [setConn_ne m _ hne])
        obtain rfl := Option.some.inj (del.sender.symm.trans hka)
        obtain rfl := wf.registered_inj del.receiver hkb
        exact ⟨i, connid, d, order, b, x, y, rfl, del⟩
  · rintro ⟨i, connid, d, order, b, x, y, rfl, del⟩
    obtain ⟨p, hp, -⟩ := del.pointer wf
    have data : numReservedPorts ≤ connid :=
      UInt8.le_iff_toNat_le.mpr ((wf.conn i).tables.range connid p hp)
    obtain ⟨-, hstep⟩ := next_eq_some_iff.mp h
    have hdata : handleRoutingData m i (connid :: d) = some m' := by
      rw [← dispatch_data data m i order.keys d]
      exact hstep
    rcases handleRoutingData_delivers wf hdata with
      ⟨-, nowhere⟩ | ⟨ka', kb', b', x', y', q, del', rfl, hbuf⟩
    · exact absurd del (nowhere ka kb b x y)
    · -- the same id leads to the same receiver
      obtain ⟨p', hp', hkey'⟩ := del'.pointer wf
      obtain ⟨p'', hp'', hkey''⟩ := del.pointer wf
      obtain rfl := Option.some.inj (hp'.symm.trans hp'')
      obtain rfl := hkey'.symm.trans hkey''
      obtain rfl := Option.some.inj (del'.receiver.symm.trans del.receiver)
      refine ⟨i, connid :: d, order, b', rfl, del.sender, del.receiver, ?_⟩
      rw [setConn_self, hbuf]
      simp

/-- Two registered connections that keep each other with status 2 and crossed ids. -/
structure LinkBetween (s : TCPServer) (ka kb : CryptoKey) (a b : Nat) (x y : PeerConnInfo) :
    Prop where
  registered : s.conns.lookup ka = some a
  peer : s.conns.lookup kb = some b
  mine : pciOf s a kb = some x
  theirs : pciOf s b ka = some y
  status : x.status = 2 ∧ y.status = 2
  crossed : x.otherid = y.connid ∧ y.otherid = x.connid

theorem disconnect_resets (wf : s.WellFormed) {a : Nat} (link : LinkBetween s ka kb a b x y)
    (head : pkt.head? = some 3) (hid : pkt[1]? = some x.connid)
    (h : next s (.recv a pkt order) = some s') :
    pciOf s' a kb = some (resetPci x) ∧ pciOf s' b ka = some (resetPci y) := by
  obtain ⟨-, hb, hx, hy, -, crossed, -⟩ := link
  obtain ⟨p, hp, rfl⟩ := pciOf_eq_some_iff.mp hx
  obtain ⟨q, hq, rfl⟩ := pciOf_eq_some_iff.mp hy
  obtain ⟨hkey, hp2⟩ := (wf.conn a).tables.info kb p hp
  obtain ⟨-, hq2⟩ := (wf.conn b).tables.info ka q hq
  have hne := unlink_apart wf hp hb
  obtain ⟨-, hstep⟩ := next_eq_some_iff.mp h
  have hdisc : handleDisconnectNotification s a pkt = some s' := by
    cases pkt with
    | nil => cases head
    | cons c rest => grind [step, dispatch]
  obtain ⟨connid, p', hconn, hp', cases⟩ := handleDisconnectNotification_cases hdisc
  obtain rfl := Option.some.inj (hconn.symm.trans hid)
  obtain rfl := Option.some.inj (hp'.symm.trans hp2)
  rcases cases with ⟨-, nothing⟩ | ⟨j, q', hj, hq', hsend⟩
  · grind
  · rw [hkey, hb] at hj
    cases hj
    rw [crossed, hq2] at hq'
    cases hq'
    have same := sendDisconnectNotification_same (by exact (wf.registered kb b hb).1) hsend
    constructor
    · rw [same.pciOf, pciOf_unlinkPair (wf.conn a).tables (wf.conn b).tables hne hp hq]
      simp [hne.symm]
    · rw [same.pciOf, pciOf_unlinkPair (wf.conn a).tables (wf.conn b).tables hne hp hq]
      simp

/-- After a disconnect over a link both entries are still there, with status 1. -/
theorem silent_after_disconnect_iff {es later : List Event} {s₀ s₁ s₂ : TCPServer} {a b : Nat}
    {ka kb : CryptoKey} {x y : PeerConnInfo} {pkt : Bytes} {order : RangeOrder}
    (run : exec next newTCPServer es = some s₀) (link : LinkBetween s₀ ka kb a b x y)
    (head : pkt.head? = some 3) (connid : pkt[1]? = some x.connid)
    (torn : next s₀ (.recv a pkt order) = some s₁) (rest : exec next s₁ later = some s₂) :
    (pciOf s₁ a kb = some (resetPci x) ∧ pciOf s₁ b ka = some (resetPci y)) ∧
    (Along next (fun m e => ¬ Linked m ka kb → ¬ Deliverable ka kb m e ∧ ¬ Deliverable kb ka m e)
      s₁ later ↔
    ¬ Occurs next (fun m e m' => ¬ Linked m ka kb ∧
      (Forwards ka kb m e m' ∨ Forwards kb ka m e m')) s₁ later) := by
  refine ⟨disconnect_resets (reachable_wellFormed run) link head connid torn, ?_⟩
  refine along_iff_not_occurs rest ?_
  intro pre e m m' hm hm'
  have reach : exec next newTCPServer (es ++ .recv a pkt order :: pre) = some m :=
    exec_append_iff.mpr ⟨s₀, run, exec_cons_iff.mpr ⟨s₁, torn, hm⟩⟩
  have wf := reachable_wellFormed reach
  rw [forwards_iff wf hm', forwards_iff wf hm', not_and, not_or]

theorem bothAsk_link : LinkBetween (after bothAsk) (keyOf 1) (keyOf 2) 0 1
    ⟨keyOf 2, 2, 16, 16⟩ ⟨keyOf 1, 2, 16, 16⟩ :=
  ⟨by decide +kernel, by decide +kernel, by decide +kernel, by decide +kernel, by decide, by decide⟩

/-- The link is gone, and the next data packet is forwarded all the same. -/
theorem forwarded_after_disconnect :
    LinkBetween (after bothAsk) (keyOf 1) (keyOf 2) 0 1
      ⟨keyOf 2, 2, 16, 16⟩ ⟨keyOf 1, 2, 16, 16⟩ ∧
    next (after bothAsk) (disconnects 0 16) = some (after (bothAsk ++ [disconnects 0 16])) ∧
    ¬ Linked (after (bothAsk ++ [disconnects 0 16])) (keyOf 1) (keyOf 2) ∧
    Occurs next (Forwards (keyOf 1) (keyOf 2)) (after (bothAsk ++ [disconnects 0 16]))
      [sends 0 16 [7]] := by
  refine ⟨bothAsk_link, next_after (by decide +kernel), ?_, ?_⟩
  · rintro ⟨a, b, x, y, ha, -, hx, -, hst, -⟩
    obtain rfl : 0 = a := Option.some.inj ((by decide +kernel :
      (after (bothAsk ++ [disconnects 0 16])).conns.lookup (keyOf 1) = some 0).symm.trans ha)
    obtain rfl : ⟨keyOf 2, 1, 0, 16⟩ = x := Option.some.inj ((by decide +kernel :
      pciOf (after (bothAsk ++ [disconnects 0 16])) 0 (keyOf 2) = some _).symm.trans hx)
    revert hst
    decide
  · refine ⟨[], sends 0 16 [7], [], _, after (bothAsk ++ [disconnects 0 16] ++ [sends 0 16 [7]]),
      rfl, rfl, next_after (by decide +kernel), 0, _, natural, 1, rfl, by decide +kernel,
      by decide +kernel, by decide +kernel⟩

theorem silent_after_disconnect_until_request :
    ¬ Occurs next (fun m e m' => ¬ Linked m (keyOf 1) (keyOf 2) ∧
      (Forwards (keyOf 1) (keyOf 2) m e m' ∨ Forwards (keyOf 2) (keyOf 1) m e m'))
      (after (bothAsk ++ [disconnects 0 16])) [requests 0 2] := by
  have run : exec next newTCPServer bothAsk = some (after bothAsk) := exec_after (by decide +kernel)
  have torn : next (after bothAsk) (disconnects 0 16) =
      some (after (bothAsk ++ [disconnects 0 16])) := next_after (by decide +kernel)
  have last : next (after (bothAsk ++ [disconnects 0 16])) (requests 0 2) =
      some (after (bothAsk ++ [disconnects 0 16] ++ [requests 0 2])) :=
    next_after (by decide +kernel)
  refine (silent_after_disconnect_iff run bothAsk_link rfl rfl torn
    (exec_cons_iff.mpr ⟨_, last, rfl⟩)).2.mp ?_
  rw [← List.nil_append [requests 0 2], along_snoc_iff rfl]
  refine ⟨along_nil _ _, fun _ => ?_⟩
  have wf := reachable_wellFormed (exec_snoc_iff.mpr ⟨_, run, torn⟩)
  -- a request does not carry the id of an entry
  have request : ∀ ka kb, ¬ Deliverable ka kb (after (bothAsk ++ [disconnects 0 16]))
      (requests 0 2) := by
    rintro ka kb ⟨i, connid, d, order, b, x, y, he, del⟩
    obtain ⟨p, hp, -⟩ := del.pointer wf
    obtain ⟨rfl, hpkt, -⟩ := Event.recv.inj he
    obtain ⟨rfl, -⟩ := List.cons.inj hpkt
    have := (wf.conn 0).tables.range 0 p hp
    revert this
    decide
  exact ⟨request _ _, request _ _⟩

end TcpServer
