import Toxera.Mintox.RoutingTables

/-!
# Well-formed states of the relay

What the handlers can rely on: the tables of every connection are consistent, a connection
that still carries its callbacks is in a definite phase, and the registry names
connections under their own keys.
-/

namespace TcpServer

open CryptoCore

variable {connid : UInt8} {data : Bytes} {f : PeerConnInfo → PeerConnInfo} {i j : Nat}
  {k : CryptoKey}

@[simp] theorem setConn_self (s : TCPServer) (i : Nat) (c : TCPSecureConn) :
    (s.setConn i c).conn i = c := by
  simp [TCPServer.setConn]

theorem setConn_ne (s : TCPServer) (c : TCPSecureConn) (h : j ≠ i) :
    (s.setConn i c).conn j = s.conn j := by
  simp [TCPServer.setConn, Function.update_of_ne h]

@[simp] theorem setConn_conns (s : TCPServer) (i : Nat) (c : TCPSecureConn) :
    (s.setConn i c).conns = s.conns := rfl

@[simp] theorem setConn_accepted (s : TCPServer) (i : Nat) (c : TCPSecureConn) :
    (s.setConn i c).accepted = s.accepted := rfl

structure TCPSecureConn.SameButQueues (c c' : TCPSecureConn) : Prop where
  pubkey : c'.pubkey = c.pubkey
  status : c'.status = c.status
  tables : c'.tables = c.tables
  ctrlClosed : c'.cwctrlq.closed = c.cwctrlq.closed
  dataClosed : c'.cwdataq.closed = c.cwdataq.closed
  onClosed : c'.onClosed = c.onClosed
  onConfirmed : c'.onConfirmed = c.onConfirmed
  reading : c'.reading = c.reading
  pinging : c'.pinging = c.pinging

variable {c c' : TCPSecureConn}

theorem TCPSecureConn.SameButQueues.refl (c : TCPSecureConn) : c.SameButQueues c :=
  ⟨rfl, rfl, rfl, rfl, rfl, rfl, rfl, rfl, rfl⟩

theorem TCPSecureConn.SameButQueues.trans {a b : TCPSecureConn} (h : a.SameButQueues b)
    (h' : b.SameButQueues c) : a.SameButQueues c :=
  ⟨h'.pubkey.trans h.pubkey, h'.status.trans h.status, h'.tables.trans h.tables,
    h'.ctrlClosed.trans h.ctrlClosed, h'.dataClosed.trans h.dataClosed,
    h'.onClosed.trans h.onClosed, h'.onConfirmed.trans h.onConfirmed,
    h'.reading.trans h.reading, h'.pinging.trans h.pinging⟩

theorem offered_spec {q : Chan Bytes} {f : Chan Bytes → TCPSecureConn} {packet : Bytes}
    (same : c = f q)
    (h : (if data.length > 2048 then some c else if q.len ≥ q.cap then some c
      else (q.trySend packet).map f) = some c') :
    ∃ q', c' = f q' ∧ q'.closed = q.closed ∧ q'.cap = q.cap ∧
      q'.buf = if data.length ≤ 2048 ∧ q.buf.length < q.cap then q.buf ++ [packet] else q.buf := by
  rw [Chan.len] at h
  split_ifs at h with long full
  · grind
  · grind
  · obtain ⟨q', hq, rfl⟩ := Option.map_eq_some_iff.mp h
    obtain ⟨hopen, hopen', hcap, hbuf⟩ := Chan.trySend_spec hq
    refine ⟨q', rfl, hopen'.trans hopen.symm, hcap, ?_⟩
    rw [hbuf, if_pos (by omega), if_pos (by omega)]

theorem sendCtrlPacket_spec (h : sendCtrlPacket c data = some c') :
    ∃ q, c' = { c with cwctrlq := q } ∧ q.closed = c.cwctrlq.closed ∧ q.cap = c.cwctrlq.cap ∧
      q.buf = if data.length ≤ 2048 ∧ c.cwctrlq.buf.length < c.cwctrlq.cap
        then c.cwctrlq.buf ++ [data] else c.cwctrlq.buf :=
  offered_spec (f := fun q => { c with cwctrlq := q }) rfl h

def queued (q : Chan Bytes) (data : Bytes) : List Bytes :=
  if q.buf.length < q.cap then q.buf ++ [data] else q.buf

theorem queued_prefix (q : Chan Bytes) (data : Bytes) : q.buf <+: queued q data := by
  unfold queued
  split_ifs
  · exact List.prefix_append _ _
  · exact List.prefix_refl _

theorem sendCtrlPacket_buf (short : data.length ≤ 2048) (h : sendCtrlPacket c data = some c') :
    c'.cwctrlq.buf = queued c.cwctrlq data := by
  obtain ⟨q, rfl, -, -, hbuf⟩ := sendCtrlPacket_spec h
  simp [hbuf, queued, short]

/-- The control queue takes or drops a packet without a panic: it is open, or so
full that nothing is sent on it. -/
def TCPSecureConn.Takes (c : TCPSecureConn) : Prop :=
  c.cwctrlq.closed = false ∨ c.cwctrlq.cap ≤ c.cwctrlq.buf.length

theorem sendCtrlPacket_isSome_iff (c : TCPSecureConn) (data : Bytes) :
    (∃ c', sendCtrlPacket c data = some c') ↔ 2048 < data.length ∨ c.Takes := by
  unfold sendCtrlPacket TCPSecureConn.Takes
  rw [Chan.len]
  split_ifs with long full
  · simp [long]
  · simp [full]
  · cases hclosed : c.cwctrlq.closed with
    | false =>
      obtain ⟨q, hq⟩ := Chan.trySend_isSome hclosed data
      simp [hq]
    | true => simp [Chan.trySend, hclosed, full, long]

theorem sendCtrlPacket_isSome (h : c.cwctrlq.closed = false) (data : Bytes) :
    ∃ c', sendCtrlPacket c data = some c' :=
  (sendCtrlPacket_isSome_iff _ _).mpr (Or.inr (Or.inl h))

theorem TCPSecureConn.Takes.sent (h : c.Takes) (sent : sendCtrlPacket c data = some c') :
    c'.Takes := by
  obtain ⟨q, rfl, hclosed, hcap, hbuf⟩ := sendCtrlPacket_spec sent
  unfold TCPSecureConn.Takes
  rcases h with open_ | full
  · exact Or.inl (hclosed.trans open_)
  · grind

theorem sendCtrlPacket_same (h : sendCtrlPacket c data = some c') : c.SameButQueues c' := by
  obtain ⟨q, rfl, hclosed, -, -⟩ := sendCtrlPacket_spec h
  exact ⟨rfl, rfl, rfl, hclosed, rfl, rfl, rfl, rfl, rfl⟩

theorem sendDataPacket_spec (h : sendDataPacket c connid data = some c') :
    ∃ q, c' = { c with cwdataq := q } ∧ q.closed = c.cwdataq.closed ∧ q.cap = c.cwdataq.cap ∧
      q.buf = if data.length ≤ 2048 ∧ c.cwdataq.buf.length < c.cwdataq.cap
        then c.cwdataq.buf ++ [connid :: data] else c.cwdataq.buf :=
  offered_spec (f := fun q => { c with cwdataq := q }) rfl h

theorem sendDataPacket_isSome (h : c.cwdataq.closed = false) (connid : UInt8) (data : Bytes) :
    ∃ c', sendDataPacket c connid data = some c' := by
  unfold sendDataPacket
  split_ifs with long full
  · exact ⟨_, rfl⟩
  · exact ⟨_, rfl⟩
  · obtain ⟨q, hq⟩ := Chan.trySend_isSome h (connid :: data)
    exact ⟨_, by rw [hq]; rfl⟩

theorem sendDataPacket_same (h : sendDataPacket c connid data = some c') : c.SameButQueues c' := by
  obtain ⟨q, rfl, hclosed, -, -⟩ := sendDataPacket_spec h
  exact ⟨rfl, rfl, rfl, rfl, hclosed, rfl, rfl, rfl, rfl⟩

structure TCPServer.SameButQueues (s s' : TCPServer) : Prop where
  conn : ∀ i, (s.conn i).SameButQueues (s'.conn i)
  conns : s'.conns = s.conns
  accepted : s'.accepted = s.accepted
  beyond : ∀ i, s.accepted ≤ i → s'.conn i = s.conn i

variable {s s' : TCPServer}

theorem TCPServer.SameButQueues.refl (s : TCPServer) : s.SameButQueues s :=
  ⟨fun _ => .refl _, rfl, rfl, fun _ _ => rfl⟩

theorem TCPServer.SameButQueues.trans {a b c : TCPServer} (h : a.SameButQueues b)
    (h' : b.SameButQueues c) : a.SameButQueues c :=
  ⟨fun i => (h.conn i).trans (h'.conn i), h'.conns.trans h.conns, h'.accepted.trans h.accepted,
    fun i hi => (h'.beyond i (h.accepted ▸ hi)).trans (h.beyond i hi)⟩

theorem TCPServer.SameButQueues.setConn (hi : i < s.accepted) (h : (s.conn i).SameButQueues c) :
    s.SameButQueues (s.setConn i c) := by
  refine ⟨?_, rfl, rfl, ?_⟩
  · intro j
    by_cases hj : j = i
    · subst j; simpa using h
    · rw [setConn_ne s c hj]; exact .refl _
  · intro j hj
    exact setConn_ne s c (by omega)

/-- A connection that still has its callbacks has not been closed after its
handshake: its status tells whether the client's key is known, its tables are
empty before the confirmation, it never lists its own key, and its queues are
open. -/
structure TCPSecureConn.Ok (c : TCPSecureConn) : Prop where
  tables : c.tables.Consistent
  callbacks : c.onConfirmed = c.onClosed
  keyless : c.onClosed = true → c.status = .noStatus → c.pubkey = none
  keyed : c.onClosed = true → c.status ≠ .noStatus → ∃ k, c.pubkey = some k
  early : c.onClosed = true → c.status ≠ .confirmed → ∀ k, c.tables.connInfos k = none
  own : c.onClosed = true → ∀ k, c.pubkey = some k → c.tables.connInfos k = none
  looping : c.onClosed = true → (c.pinging = true ↔ c.status = .confirmed)
  opened : c.onClosed = true → c.cwctrlq.closed = false ∧ c.cwdataq.closed = false

theorem newTCPSecureConn_ok : newTCPSecureConn.Ok where
  tables := RoutingTables.empty_consistent
  callbacks := rfl
  keyless := fun _ _ => rfl
  keyed := fun _ h => absurd rfl h
  early := fun _ _ _ => rfl
  own := fun _ _ _ => rfl
  looping := by simp [newTCPSecureConn]
  opened := fun _ => ⟨rfl, rfl⟩

theorem TCPSecureConn.Ok.of_same (h : c.Ok) (same : c.SameButQueues c') : c'.Ok := by
  obtain ⟨hkey, hst, htab, hctrl, hdata, hcl, hcf, -, hping⟩ := same
  constructor
  · rw [htab]; exact h.tables
  · rw [hcl, hcf]; exact h.callbacks
  · rw [hcl, hst, hkey]; exact h.keyless
  · rw [hcl, hst, hkey]; exact h.keyed
  · rw [hcl, hst, htab]; exact h.early
  · rw [hcl, hkey, htab]; exact h.own
  · rw [hcl, hst, hping]; exact h.looping
  · rw [hcl, hctrl, hdata]; exact h.opened

theorem TCPSecureConn.Ok.modifyPci (h : c.Ok) (p : Nat) (hkey : ∀ x, (f x).pubkey = x.pubkey)
    (hid : ∀ x, (f x).connid = x.connid) (hst : ∀ x, (f x).status = 1 ∨ (f x).status = 2) :
    TCPSecureConn.Ok { c with tables := c.tables.modifyPci p f } :=
  ⟨h.tables.modifyPci p hkey hid hst, h.callbacks, h.keyless, h.keyed, h.early, h.own,
    h.looping, h.opened⟩

structure TCPServer.WellFormed (s : TCPServer) : Prop where
  conn : ∀ i, (s.conn i).Ok
  registered : ∀ k i, s.conns.lookup k = some i → i < s.accepted ∧
    (s.conn i).pubkey = some k ∧ (s.conn i).status = .confirmed ∧ (s.conn i).onClosed = true
  beyond : ∀ i, s.accepted ≤ i → s.conn i = newTCPSecureConn

theorem newTCPServer_wellFormed : newTCPServer.WellFormed where
  conn := fun _ => newTCPSecureConn_ok
  registered := by
    intro k i h
    simp [newTCPServer] at h
  beyond := fun _ _ => rfl

theorem TCPServer.WellFormed.of_same (h : s.WellFormed) (same : s.SameButQueues s') :
    s'.WellFormed := by
  refine ⟨fun i => (h.conn i).of_same (same.conn i), ?_, ?_⟩
  · intro k i hk
    rw [same.conns] at hk
    obtain ⟨hlt, hkey, hst, hcl⟩ := h.registered k i hk
    have hc := same.conn i
    exact ⟨same.accepted ▸ hlt, hc.pubkey.trans hkey, hc.status.trans hst, hc.onClosed.trans hcl⟩
  · intro i hi
    rw [same.accepted] at hi
    rw [same.beyond i hi, h.beyond i hi]

theorem TCPServer.WellFormed.registered_inj (h : s.WellFormed) {k' : CryptoKey}
    (hk : s.conns.lookup k = some i) (hk' : s.conns.lookup k' = some i) : k = k' :=
  Option.some.inj ((h.registered k i hk).2.1.symm.trans (h.registered k' i hk').2.1)

theorem mem_registered : i ∈ s.registered ↔ ∃ k, s.conns.lookup k = some i := by
  simp only [TCPServer.registered, List.mem_map]
  constructor
  · rintro ⟨⟨k, j⟩, hmem, rfl⟩
    exact ⟨k, AList.mem_lookup_iff.mpr hmem⟩
  · rintro ⟨k, hk⟩
    exact ⟨⟨k, i⟩, AList.mem_lookup_iff.mp hk, rfl⟩

theorem registered_nodup
    (inj : ∀ k k' i, s.conns.lookup k = some i → s.conns.lookup k' = some i → k = k') :
    s.registered.Nodup := by
  have entries : s.conns.entries.Nodup := s.conns.nodupKeys.nodup
  refine List.Nodup.map_on ?_ entries
  rintro ⟨k, i⟩ hi ⟨k', j⟩ hj heq
  obtain rfl : i = j := heq
  obtain rfl := inj k k' i (AList.mem_lookup_iff.mpr hi) (AList.mem_lookup_iff.mpr hj)
  rfl

def pciOf (s : TCPServer) (i : Nat) (k : CryptoKey) : Option PeerConnInfo :=
  ((s.conn i).tables.connInfos k).map (s.conn i).tables.pcis

theorem pciOf_eq_some_iff {x : PeerConnInfo} :
    pciOf s i k = some x ↔
      ∃ p, (s.conn i).tables.connInfos k = some p ∧ (s.conn i).tables.pcis p = x := by
  simp [pciOf, Option.map_eq_some_iff]

theorem pciOf_eq_none_iff : pciOf s i k = none ↔ (s.conn i).tables.connInfos k = none := by
  simp [pciOf]

theorem TCPServer.SameButQueues.pciOf (h : s.SameButQueues s') (i : Nat) (k : CryptoKey) :
    pciOf s' i k = TcpServer.pciOf s i k := by
  simp [TcpServer.pciOf, (h.conn i).tables]

theorem modifyPci_conn_ne (s : TCPServer) (p : Nat) (f : PeerConnInfo → PeerConnInfo) (h : j ≠ i) :
    (s.modifyPci i p f).conn j = s.conn j :=
  setConn_ne s _ h

@[simp] theorem modifyPci_conn_self (s : TCPServer) (i p : Nat) (f : PeerConnInfo → PeerConnInfo) :
    (s.modifyPci i p f).conn i =
      { s.conn i with tables := (s.conn i).tables.modifyPci p f } := by
  simp [TCPServer.modifyPci]

@[simp] theorem modifyPci_conns (s : TCPServer) (i p : Nat) (f : PeerConnInfo → PeerConnInfo) :
    (s.modifyPci i p f).conns = s.conns := rfl

@[simp] theorem modifyPci_accepted (s : TCPServer) (i p : Nat)
    (f : PeerConnInfo → PeerConnInfo) : (s.modifyPci i p f).accepted = s.accepted := rfl

theorem pciOf_modifyPci {p : Nat} (ok : (s.conn i).tables.Consistent)
    (hp : (s.conn i).tables.connInfos k = some p) (f : PeerConnInfo → PeerConnInfo) (j : Nat)
    (k' : CryptoKey) :
    pciOf (s.modifyPci i p f) j k' =
      if j = i ∧ k' = k then (pciOf s i k).map f else pciOf s j k' := by
  by_cases hj : j = i
  · subst j
    by_cases hk : k' = k
    · subst k'
      simp [pciOf, RoutingTables.modifyPci, hp]
    · simp only [pciOf, modifyPci_conn_self, RoutingTables.modifyPci, hk, and_false, if_false]
      cases hq : (s.conn i).tables.connInfos k' with
      | none => rfl
      | some q =>
        have hne : q ≠ p := by rintro rfl; exact hk (ok.pointer_inj hq hp)
        simp [Function.update_of_ne hne]
  · simp [pciOf, modifyPci_conn_ne s p f hj, hj]

theorem TCPServer.WellFormed.modifyPci (h : s.WellFormed) (hi : i < s.accepted) (p : Nat)
    (hkey : ∀ x, (f x).pubkey = x.pubkey) (hid : ∀ x, (f x).connid = x.connid)
    (hst : ∀ x, (f x).status = 1 ∨ (f x).status = 2) : (s.modifyPci i p f).WellFormed := by
  refine ⟨?_, ?_, ?_⟩
  · intro j
    by_cases hj : j = i
    · subst j; simpa using (h.conn i).modifyPci p hkey hid hst
    · rw [modifyPci_conn_ne s p f hj]; exact h.conn j
  · intro k j hk
    have hreg := h.registered k j (by simpa using hk)
    by_cases hj : j = i
    · subst j; simpa using hreg
    · simpa [modifyPci_conn_ne s p f hj] using hreg
  · intro j hj
    rw [modifyPci_accepted] at hj
    rw [modifyPci_conn_ne s p f (by omega), h.beyond j hj]

end TcpServer
