import Toxera.Mintox.RelayForwarding

/-!
# The registry and the lives of connections

A connection is greeted, confirmed, and then closed or replaced by another one with the
same key.
-/

namespace TcpServer

open CryptoCore Exec

structure TCPSecureConn.SameLife (c c' : TCPSecureConn) : Prop where
  pubkey : c'.pubkey = c.pubkey
  status : c'.status = c.status
  onClosed : c'.onClosed = c.onClosed
  reading : c'.reading = c.reading

variable {c c' : TCPSecureConn} {i j : Nat} {k k₀ : CryptoKey} {order : RangeOrder}
  {pkt plnpkt : Bytes}

theorem TCPSecureConn.SameLife.refl (c : TCPSecureConn) : c.SameLife c := ⟨rfl, rfl, rfl, rfl⟩

theorem TCPSecureConn.SameLife.trans {a b : TCPSecureConn} (h : a.SameLife b) (h' : b.SameLife c) :
    a.SameLife c :=
  ⟨h'.pubkey.trans h.pubkey, h'.status.trans h.status, h'.onClosed.trans h.onClosed,
    h'.reading.trans h.reading⟩

theorem TCPSecureConn.SameButQueues.life (h : c.SameButQueues c') : c.SameLife c' :=
  ⟨h.pubkey, h.status, h.onClosed, h.reading⟩

theorem modifyPci_life (s : TCPServer) (i p : Nat) (f : PeerConnInfo → PeerConnInfo) (x : Nat) :
    (s.conn x).SameLife ((s.modifyPci i p f).conn x) := by
  by_cases hx : x = i
  · subst x; rw [modifyPci_conn_self]; exact ⟨rfl, rfl, rfl, rfl⟩
  · rw [modifyPci_conn_ne s p f hx]; exact .refl _

theorem enterPeer_life (s : TCPServer) (i : Nat) (pk : CryptoKey) (k : UInt8) (x : Nat) :
    (s.conn x).SameLife ((s.enterPeer i pk k).conn x) := by
  by_cases hx : x = i
  · subst x; rw [TCPServer.enterPeer, setConn_self]; exact ⟨rfl, rfl, rfl, rfl⟩
  · rw [TCPServer.enterPeer, setConn_ne s _ hx]; exact .refl _

theorem linkPair_life (s : TCPServer) (i p j q x : Nat) :
    (s.conn x).SameLife ((s.linkPair i p j q).conn x) :=
  (modifyPci_life s i p _ x).trans (modifyPci_life _ j q _ x)

theorem unlinkPair_life (s : TCPServer) (j q i p x : Nat) :
    (s.conn x).SameLife ((s.unlinkPair j q i p).conn x) :=
  (modifyPci_life s j q _ x).trans (modifyPci_life _ i p _ x)

theorem dispatch_life {s s' : TCPServer} (wf : s.WellFormed) (hi : i < s.accepted)
    (hst : (s.conn i).status = .confirmed) (h : dispatch s i order.keys pkt = some s') (x : Nat) :
    (s.conn x).SameLife (s'.conn x) := by
  rcases dispatch_cases h with ⟨-, rfl | ⟨c, hc, rfl⟩⟩ | ⟨-, h⟩ | ⟨-, h⟩ | ⟨connid, -, -, h⟩
  · exact .refl _
  · exact ((TCPServer.SameButQueues.setConn hi (sendCtrlPacket_same hc)).conn x).life
  · obtain ⟨pk, own, -, -, ⟨same, -⟩ | ⟨k, -, ⟨same, -⟩ | ⟨j, q, -, -, -, same⟩⟩⟩ :=
      handleRoutingRequest_cases wf hi hst h
    · exact (same.conn x).life
    · exact (enterPeer_life s i pk k x).trans (same.conn x).life
    · exact ((enterPeer_life s i pk k x).trans (linkPair_life _ _ _ _ _ x)).trans (same.conn x).life
  · obtain ⟨connid, p, -, -, ⟨rfl, -⟩ | ⟨j, q, hj, -, hsend⟩⟩ :=
      handleDisconnectNotification_cases h
    · exact .refl _
    · have same := sendDisconnectNotification_same (by exact (wf.registered _ j hj).1) hsend
      exact (unlinkPair_life s j q i p x).trans (same.conn x).life
  · exact ((data_same wf h).conn x).life

theorem doClose_life {s : TCPServer} (wf : s.WellFormed) (i x : Nat) :
    (x ≠ i → (s.conn x).SameLife ((doClose s i).conn x)) ∧
    ((doClose s i).conn i).status = .noStatus ∧
    ((doClose s i).conn i).pubkey = (s.conn i).pubkey ∧
    (((doClose s i).conn i).onClosed = true → (s.conn i).onClosed = true ∧
      (s.conn i).pubkey = none) := by
  cases hcl : (s.conn i).onClosed with
  | false =>
    rw [doClose_quiet hcl]
    obtain ⟨hkey, hst, -, -, -, hdead, -⟩ := closedConn_fields (s.conn i)
    refine ⟨fun hx => by rw [setConn_ne s _ hx]; exact .refl _, ?_, ?_, ?_⟩
    · rw [setConn_self, hst]
    · rw [setConn_self, hkey]
    · rw [setConn_self, hdead]
      intro h
      cases h
  | true =>
    cases hkey : (s.conn i).pubkey with
    | none =>
      rw [doClose_keyless hcl hkey]
      refine ⟨fun hx => ?_, by simp, by simpa using hkey, fun _ => ⟨rfl, rfl⟩⟩
      simpa [setConn_ne s _ hx] using TCPSecureConn.SameLife.refl (s.conn x)
    | some k =>
      obtain ⟨-, -, hself, hother⟩ := doClose_keyed wf hcl hkey
      obtain ⟨hkey', hst, -, -, -, hdead, -⟩ := closedConn_fields (s.conn i)
      refine ⟨fun hx => ?_, ?_, ?_, ?_⟩
      · by_cases hreg : ∃ k', k' ≠ k ∧ s.conns.lookup k' = some x
        · obtain ⟨fkey, fst, fcl, -, -, fread⟩ := resetLink_fields (s.conn x) k
          exact TCPSecureConn.SameLife.trans ⟨fkey, fst, fcl, fread⟩ ((hother x hx).1 hreg).life
        · rw [(hother x hx).2 fun k' hne hk' => hreg ⟨k', hne, hk'⟩]
          exact .refl _
      · rw [hself, hst]
      · rw [hself, hkey', hkey]
      · rw [hself, hdead]
        intro h
        cases h

def Supersedes (s : TCPServer) (x : Nat) (e : Event) : Prop :=
  ∃ j plnpkt k, e = .confirm j plnpkt ∧ j ≠ x ∧ (s.conn j).onClosed = true ∧
    (s.conn j).pubkey = some k ∧ s.conns.lookup k = some x

inductive Life (s : TCPServer) (x : Nat) (c' : TCPSecureConn) : Event → Prop where
  | same (e : Event) (open_ : ¬ Closes x e) (kept : ¬ Supersedes s x e)
      (h : (s.conn x).SameLife c') : Life s x c' e
  | greeted (pk : CryptoKey) (start : (s.conn x).status = .noStatus)
      (reader : (s.conn x).reading = true) (status : c'.status = .unconfirmed)
      (live : c'.onClosed = (s.conn x).onClosed) (reading : c'.reading = (s.conn x).reading) :
      Life s x c' (.handshake x pk)
  | confirmed (plnpkt : Bytes) (start : (s.conn x).status = .unconfirmed)
      (reader : (s.conn x).reading = true) (key : c'.pubkey = (s.conn x).pubkey)
      (status : c'.status = .confirmed) (live : c'.onClosed = (s.conn x).onClosed)
      (reading : c'.reading = (s.conn x).reading) : Life s x c' (.confirm x plnpkt)
  | replaced (e : Event) (newer : Supersedes s x e) (dead : c'.onClosed = false) : Life s x c' e
  | closed (e : Event) (closes : Closes x e) (status : c'.status = .noStatus)
      (dead : c'.onClosed = false ∨
        (s.conn x).onClosed = true ∧ (s.conn x).pubkey = none ∧ c'.reading = false) :
      Life s x c' e

theorem Life.of_event {s : TCPServer} {x : Nat} {e : Event} (close : ¬ Closes x e)
    (confirm : ∀ j plnpkt, e ≠ .confirm j plnpkt) (h : (s.conn x).SameLife c') : Life s x c' e :=
  .same e close (by rintro ⟨j, plnpkt, k, he, -⟩; exact confirm j plnpkt he) h

theorem setConn_life {s : TCPServer} (h : (s.conn i).SameLife c) (x : Nat) :
    (s.conn x).SameLife ((s.setConn i c).conn x) := by
  by_cases hx : x = i
  · subst x; rw [setConn_self]; exact h
  · rw [setConn_ne s c hx]; exact .refl _

theorem confirm_life {s s' : TCPServer} (wf : s.WellFormed) (hread : (s.conn i).reading = true)
    (hst : (s.conn i).status = .unconfirmed) (h : confirmStep s i plnpkt = some s') (x : Nat) :
    Life s x (s'.conn x) (.confirm i plnpkt) := by
  cases hcl : (s.conn i).onClosed with
  | false =>
    obtain ⟨c, same, rfl⟩ := confirmStep_dead ((wf.conn i).callbacks.trans hcl) h
    by_cases hx : x = i
    · subst x
      exact .confirmed plnpkt hst hread (by simpa using same.pubkey) (by simp)
        (by simpa using same.onClosed) (by simpa using same.reading)
    · refine .same _ (by simp [Closes]) ?_ (by rw [setConn_ne s _ hx]; exact .refl _)
      rintro ⟨j, p, k, he, -, live, -⟩
      obtain ⟨rfl, -⟩ := Event.confirm.inj he
      rw [hcl] at live
      cases live
  | true =>
    obtain ⟨k, c, hk, same, hself, -, -, hother⟩ := confirmStep_live wf hcl hst h
    by_cases hx : x = i
    · subst x
      rw [hself]
      exact .confirmed plnpkt hst hread same.pubkey rfl same.onClosed same.reading
    · rw [hother x hx]
      split_ifs with hold
      · exact .replaced _ ⟨i, plnpkt, k, rfl, Ne.symm hx, hcl, hk, hold⟩
          (closedConn_fields (s.conn x)).2.2.2.2.2.1
      · refine .same _ (by simp [Closes]) ?_ (.refl _)
        rintro ⟨j, p, k', he, -, -, hk', hold'⟩
        obtain ⟨rfl, -⟩ := Event.confirm.inj he
        obtain rfl := Option.some.inj (hk.symm.trans hk')
        exact hold hold'

theorem readEnd_life {s : TCPServer} (wf : s.WellFormed) (i x : Nat) :
    Life s x (((doClose s i).setConn i { (doClose s i).conn i with reading := false }).conn x)
      (.readEnd i) := by
  obtain ⟨others, hst, -, keyless⟩ := doClose_life wf i x
  by_cases hx : x = i
  · subst x
    refine .closed _ (Or.inl rfl) (by simpa using hst) ?_
    cases hcl : ((doClose s i).conn i).onClosed with
    | false => exact Or.inl (by simpa using hcl)
    | true => exact Or.inr ⟨(keyless hcl).1, (keyless hcl).2, by simp⟩
  · refine .of_event (by simpa [Closes] using Ne.symm hx) (by simp) ?_
    rw [setConn_ne _ _ hx]
    exact others hx

theorem loopEnd_life {s : TCPServer} (wf : s.WellFormed) (hping : (s.conn i).pinging = true)
    (x : Nat) : Life s x ((doClose s i).conn x) (.loopEnd i) := by
  obtain ⟨others, hst, -, keyless⟩ := doClose_life wf i x
  by_cases hx : x = i
  · subst x
    refine .closed _ (Or.inr rfl) hst (Or.inl ?_)
    by_contra hlive
    obtain ⟨hcl, hkey⟩ := keyless (by simpa using hlive)
    have confirmed := ((wf.conn i).looping hcl).mp hping
    rw [wf.keyless hcl hkey] at confirmed
    cases confirmed
  · exact .of_event (by simpa [Closes] using Ne.symm hx) (by simp) (others hx)

theorem next_life {s s' : TCPServer} (wf : s.WellFormed) {e : Event}
    (h : next s e = some s') (x : Nat) : Life s x (s'.conn x) e := by
  obtain ⟨enabled, h⟩ := next_eq_some_iff.mp h
  cases e with
  | accept =>
    cases h
    refine .of_event (by simp [Closes]) (by simp) (setConn_life ?_ x)
    rw [wf.beyond s.accepted (Nat.le_refl _)]
    exact .refl _
  | handshake i pk =>
    obtain ⟨-, hread, hst⟩ := enabled
    cases h
    by_cases hx : x = i
    · subst x
      exact .greeted pk hst hread (by simp) (by simp) (by simp)
    · exact .of_event (by simp [Closes]) (by simp) (by rw [setConn_ne s _ hx]; exact .refl _)
  | confirm i plnpkt => exact confirm_life wf enabled.2.1 enabled.2.2 h x
  | recv i plnpkt order =>
    obtain ⟨hi, -, hst⟩ := enabled
    exact .of_event (by simp [Closes]) (by simp) (dispatch_life wf hi hst h x)
  | readEnd i =>
    cases h
    exact readEnd_life wf i x
  | loopEnd i =>
    obtain ⟨-, hping⟩ := enabled
    cases h
    exact loopEnd_life wf hping x
  | takeCtrl i =>
    obtain ⟨r, -, rfl⟩ := Option.map_eq_some_iff.mp h
    refine .of_event (by simp [Closes]) (by simp) (setConn_life ?_ x)
    exact ⟨rfl, rfl, rfl, rfl⟩
  | takeData i =>
    obtain ⟨r, -, rfl⟩ := Option.map_eq_some_iff.mp h
    refine .of_event (by simp [Closes]) (by simp) (setConn_life ?_ x)
    exact ⟨rfl, rfl, rfl, rfl⟩

def Confirms (i : Nat) (k : CryptoKey) (m : TCPServer) (e : Event) (_ : TCPServer) : Prop :=
  (∃ plnpkt, e = .confirm i plnpkt) ∧ (m.conn i).pubkey = some k ∧ (m.conn i).onConfirmed = true

def Removes (i : Nat) (m : TCPServer) (e : Event) (m' : TCPServer) : Prop :=
  Closes i e ∨ ∃ j k, j ≠ i ∧ Confirms j k m e m' ∧ (m.conn i).pubkey = some k ∧
    (m.conn i).status = .confirmed

def Remains (es : List Event) (i : Nat) : Prop := ¬ Occurs next (Removes i) newTCPServer es

/-- Among the connections that remain, `i` is the one confirmed last under the key. -/
def MostRecent (es : List Event) (i : Nat) (k : CryptoKey) : Prop :=
  Remains es i ∧ ∃ pre e post m m', es = pre ++ e :: post ∧
    exec next newTCPServer pre = some m ∧ next m e = some m' ∧ Confirms i k m e m' ∧
    ∀ j, j ≠ i → Remains es j → ¬ Occurs next (Confirms j k) m' post

/-- A connection that has completed its handshake and is not confirmed is closed
only while nobody is registered under its key. -/
def ClosesAlone (m : TCPServer) (e : Event) : Prop :=
  ∀ i k, Closes i e → (m.conn i).onClosed = true → (m.conn i).status ≠ .confirmed →
    (m.conn i).pubkey = some k → m.conns.lookup k = none

theorem closes_inj {e : Event} (h : Closes i e) (h' : Closes j e) : i = j := by
  rcases h with rfl | rfl
  · rcases h' with h' | h'
    · exact Event.readEnd.inj h'
    · cases h'
  · rcases h' with h' | h'
    · cases h'
    · exact Event.loopEnd.inj h'

theorem not_confirms_of_closes {m m' : TCPServer} {e : Event} (h : Closes i e) :
    ¬ Confirms j k m e m' := by
  rintro ⟨⟨plnpkt, rfl⟩, -⟩
  rcases h with h | h <;> cases h

theorem remains_snoc_iff {es : List Event} {e : Event} {s s' : TCPServer}
    (before : exec next newTCPServer es = some s) (last : next s e = some s') (i : Nat) :
    Remains (es ++ [e]) i ↔ Remains es i ∧ ¬ Removes i s e s' := by
  rw [Remains, occurs_snoc_iff before last, not_or]
  rfl

structure History (es : List Event) (s : TCPServer) : Prop where
  alive : ∀ i, Remains es i → (s.conn i).onClosed = true
  gone : ∀ i, ¬ Remains es i → (s.conn i).onClosed = false ∨
    (s.conn i).reading = false ∧ (s.conn i).status = .noStatus
  confirmed : ∀ i k, (s.conn i).onClosed = true → (s.conn i).status = .confirmed →
    (s.conn i).pubkey = some k → Occurs next (Confirms i k) newTCPServer es
  registered : ∀ k i, s.conns.lookup k = some i ↔
    Occurs next (Confirms i k) newTCPServer es ∧ Remains es i

theorem removes_of_supersedes {s s' : TCPServer} (wf : s.WellFormed) {e : Event}
    (h : Supersedes s i e) : Removes i s e s' := by
  obtain ⟨j, plnpkt, k, rfl, hne, live, hkey, hreg⟩ := h
  obtain ⟨-, hkey', hst, -⟩ := wf.registered k i hreg
  exact Or.inr ⟨j, k, hne, ⟨⟨plnpkt, rfl⟩, hkey, (wf.conn j).callbacks.trans live⟩, hkey', hst⟩

section Step
variable {es : List Event} {e : Event} {s s' : TCPServer}

theorem History.alive_step (wf : s.WellFormed) (before : exec next newTCPServer es = some s)
    (hist : History es s) (last : next s e = some s') (i : Nat) (h : Remains (es ++ [e]) i) :
    (s'.conn i).onClosed = true := by
  obtain ⟨h, stays⟩ := (remains_snoc_iff before last i).mp h
  have live := hist.alive i h
  cases next_life wf last i with
  | same _ _ _ same => exact same.onClosed.trans live
  | greeted _ _ _ _ kept => exact kept.trans live
  | confirmed _ _ _ _ _ kept => exact kept.trans live
  | replaced _ newer => exact absurd (removes_of_supersedes wf newer) stays
  | closed _ closes => exact absurd (Or.inl closes) stays

theorem History.supersedes (wf : s.WellFormed) (hist : History es s) (h : Remains es i)
    (gone : Removes i s e s') (open_ : ¬ Closes i e) : Supersedes s i e := by
  rcases gone with closes | ⟨j, k, hne, ⟨⟨plnpkt, rfl⟩, hkey, hcf⟩, hkey', hst⟩
  · exact absurd closes open_
  · have confirmed := hist.confirmed i k (hist.alive i h) hst hkey'
    exact ⟨j, plnpkt, k, rfl, hne, (wf.conn j).callbacks.symm.trans hcf, hkey,
      (hist.registered k i).mpr ⟨confirmed, h⟩⟩

theorem History.dead_of_reading (hist : History es s) (h : ¬ Remains es i)
    (reader : (s.conn i).reading = true) : (s.conn i).onClosed = false := by
  rcases hist.gone i h with dead | ⟨stopped, -⟩
  · exact dead
  · rw [stopped] at reader
    cases reader

theorem History.gone_step (wf : s.WellFormed) (before : exec next newTCPServer es = some s)
    (hist : History es s) (last : next s e = some s') (i : Nat) (h : ¬ Remains (es ++ [e]) i) :
    (s'.conn i).onClosed = false ∨
      (s'.conn i).reading = false ∧ (s'.conn i).status = .noStatus := by
  rw [remains_snoc_iff before last i, not_and_or, not_not] at h
  cases next_life wf last i with
  | same _ open_ kept same =>
    rw [same.onClosed, same.reading, same.status]
    refine hist.gone i fun remains => ?_
    rcases h with h | gone
    · exact h remains
    · exact kept (hist.supersedes wf remains gone open_)
  | greeted _ _ reader _ kept =>
    rcases h with h | (closes | ⟨j, k, -, ⟨⟨plnpkt, he⟩, -⟩, -⟩)
    · exact Or.inl (kept.trans (hist.dead_of_reading h reader))
    · rcases closes with he | he <;> cases he
    · cases he
  | confirmed _ _ reader _ _ kept =>
    rcases h with h | (closes | ⟨j, k, hne, ⟨⟨plnpkt, he⟩, -⟩, -⟩)
    · exact Or.inl (kept.trans (hist.dead_of_reading h reader))
    · rcases closes with he | he <;> cases he
    · exact absurd (Event.confirm.inj he).1.symm hne
  | replaced _ _ dead => exact Or.inl dead
  | closed _ _ hst dead => exact dead.imp id fun hread => ⟨hread.2.2, hst⟩

theorem History.confirmed_step (wf : s.WellFormed) (before : exec next newTCPServer es = some s)
    (hist : History es s) (last : next s e = some s') (i : Nat) (k : CryptoKey)
    (live : (s'.conn i).onClosed = true) (hst : (s'.conn i).status = .confirmed)
    (hkey : (s'.conn i).pubkey = some k) :
    Occurs next (Confirms i k) newTCPServer (es ++ [e]) := by
  rw [occurs_snoc_iff before last]
  cases next_life wf last i with
  | same _ _ _ same =>
    rw [same.onClosed] at live
    rw [same.status] at hst
    rw [same.pubkey] at hkey
    exact Or.inl (hist.confirmed i k live hst hkey)
  | greeted _ _ _ hst' => rw [hst'] at hst; cases hst
  | confirmed plnpkt _ _ kept _ live' =>
    exact Or.inr ⟨⟨plnpkt, rfl⟩, kept.symm.trans hkey,
      (wf.conn i).callbacks.trans (live'.symm.trans live)⟩
  | replaced _ _ dead => rw [dead] at live; cases live
  | closed _ _ hst' => rw [hst'] at hst; cases hst

theorem idle_keeps (wf : s.WellFormed) (idle : Idle s e) :
    (s.conns.lookup k = some i → ¬ Removes i s e s') ∧ ¬ Confirms i k s e s' := by
  have unconfirmed : ∀ j k', ¬ Confirms j k' s e s' := by
    rintro j k' ⟨⟨plnpkt, rfl⟩, -, hcf⟩
    have dead : (s.conn j).onClosed = false := idle
    rw [(wf.conn j).callbacks, dead] at hcf
    cases hcf
  refine ⟨?_, unconfirmed i k⟩
  rintro hreg (closes | ⟨j, k', -, confirms, -⟩)
  · obtain ⟨-, hkey, -, live⟩ := wf.registered k i hreg
    have why : (s.conn i).onClosed = false ∨ (s.conn i).pubkey = none := by
      rcases closes with rfl | rfl
      · exact idle
      · exact idle
    rcases why with dead | keyless
    · rw [dead] at live; cases live
    · rw [keyless] at hkey; cases hkey
  · exact unconfirmed j k' confirms

theorem History.registered_same (before : exec next newTCPServer es = some s) (hist : History es s)
    (last : next s e = some s') (same : s'.conns.lookup k = s.conns.lookup k)
    (stays : s.conns.lookup k = some i → ¬ Removes i s e s') (new : ¬ Confirms i k s e s') :
    s'.conns.lookup k = some i ↔
      Occurs next (Confirms i k) newTCPServer (es ++ [e]) ∧ Remains (es ++ [e]) i := by
  rw [same, occurs_snoc_iff before last, remains_snoc_iff before last, or_iff_left new]
  constructor
  · intro hreg
    obtain ⟨confirmed, remains⟩ := (hist.registered k i).mp hreg
    exact ⟨confirmed, remains, stays hreg⟩
  · rintro ⟨confirmed, remains, -⟩
    exact (hist.registered k i).mpr ⟨confirmed, remains⟩

theorem History.recv_step (before : exec next newTCPServer es = some s) (hist : History es s)
    (last : next s (.recv j pkt order) = some s') (same : s'.conns.lookup k = s.conns.lookup k) :
    s'.conns.lookup k = some i ↔
      Occurs next (Confirms i k) newTCPServer (es ++ [.recv j pkt order]) ∧
        Remains (es ++ [.recv j pkt order]) i := by
  refine hist.registered_same before last same (fun _ => ?_) ?_
  · rintro (closes | ⟨j', k', -, ⟨⟨plnpkt, he⟩, -⟩, -⟩)
    · rcases closes with he | he <;> cases he
    · cases he
  · rintro ⟨⟨plnpkt, he⟩, -⟩
    cases he

theorem History.remains_of_live (hist : History es s) (live : (s.conn i).onClosed = true)
    (hst : (s.conn i).status ≠ .noStatus) : Remains es i := by
  by_contra gone
  rcases hist.gone i gone with dead | ⟨-, idle⟩
  · rw [dead] at live; cases live
  · exact hst idle

theorem History.register_step (wf : s.WellFormed) (before : exec next newTCPServer es = some s)
    (hist : History es s) (last : next s (.confirm j plnpkt) = some s')
    (live : (s.conn j).onClosed = true) (hst : (s.conn j).status = .unconfirmed)
    (key : (s.conn j).pubkey = some k₀)
    (reg : ∀ k', s'.conns.lookup k' = if k' = k₀ then some j else s.conns.lookup k') (k : CryptoKey)
    (i : Nat) : s'.conns.lookup k = some i ↔
      Occurs next (Confirms i k) newTCPServer (es ++ [.confirm j plnpkt]) ∧
        Remains (es ++ [.confirm j plnpkt]) i := by
  have confirms : ∀ i k, Confirms i k s (.confirm j plnpkt) s' → i = j ∧ k = k₀ := by
    rintro i k ⟨⟨p, he⟩, hkey, -⟩
    obtain ⟨rfl, -⟩ := Event.confirm.inj he
    exact ⟨rfl, Option.some.inj (hkey.symm.trans key)⟩
  by_cases hk : k = k₀
  · subst k
    rw [reg, if_pos rfl, occurs_snoc_iff before last, remains_snoc_iff before last]
    constructor
    · intro heq
      cases heq
      refine ⟨Or.inr ⟨⟨plnpkt, rfl⟩, key, (wf.conn j).callbacks.trans live⟩,
        hist.remains_of_live live (by rw [hst]; decide), ?_⟩
      rintro (closes | ⟨j', k', hne, confirmed, -⟩)
      · rcases closes with he | he <;> cases he
      · exact hne (confirms j' k' confirmed).1
    · rintro ⟨old | new, remains, stays⟩
      · by_contra hne
        have hreg := (hist.registered k₀ i).mpr ⟨old, remains⟩
        have apart : j ≠ i := by rintro rfl; exact hne rfl
        exact stays (removes_of_supersedes wf ⟨j, plnpkt, k₀, rfl, apart, live, key, hreg⟩)
      · rw [(confirms i k₀ new).1]
  · refine hist.registered_same before last (by rw [reg, if_neg hk]) ?_ ?_
    · rintro hreg (closes | ⟨j', k', -, confirmed, hkey, -⟩)
      · rcases closes with he | he <;> cases he
      · obtain ⟨-, rfl⟩ := confirms j' k' confirmed
        exact hk (Option.some.inj ((wf.registered k i hreg).2.1.symm.trans hkey))
    · grind

theorem History.drop_step (wf : s.WellFormed) (before : exec next newTCPServer es = some s)
    (hist : History es s) (last : next s e = some s') (good : ClosesAlone s e) {c : Nat}
    (closes : Closes c e) (live : (s.conn c).onClosed = true) (key : (s.conn c).pubkey = some k₀)
    (reg : ∀ k', s'.conns.lookup k' = if k' = k₀ then none else s.conns.lookup k') (k : CryptoKey)
    (i : Nat) : s'.conns.lookup k = some i ↔
      Occurs next (Confirms i k) newTCPServer (es ++ [e]) ∧ Remains (es ++ [e]) i := by
  by_cases hk : k = k₀
  · subst k
    rw [reg, if_pos rfl, occurs_snoc_iff before last, remains_snoc_iff before last,
      or_iff_left (not_confirms_of_closes closes)]
    refine ⟨fun h => (by cases h), ?_⟩
    rintro ⟨old, remains, stays⟩
    have hreg := (hist.registered k₀ i).mpr ⟨old, remains⟩
    by_cases hst : (s.conn c).status = .confirmed
    · -- the closing connection is the registered one
      have own := (hist.registered k₀ c).mpr
        ⟨hist.confirmed c k₀ live hst key, hist.remains_of_live live (by rw [hst]; decide)⟩
      obtain rfl := Option.some.inj (own.symm.trans hreg)
      exact absurd (Or.inl closes) stays
    · rw [good c k₀ closes live hst key] at hreg
      cases hreg
  · refine hist.registered_same before last (by rw [reg, if_neg hk]) ?_
      (not_confirms_of_closes closes)
    rintro hreg (closes' | ⟨j, k', -, confirmed, -⟩)
    · obtain rfl := closes_inj closes closes'
      exact hk (Option.some.inj ((wf.registered k c hreg).2.1.symm.trans key))
    · exact not_confirms_of_closes closes confirmed

theorem History.step (wf : s.WellFormed) (before : exec next newTCPServer es = some s)
    (hist : History es s) (good : ClosesAlone s e) (last : next s e = some s') :
    History (es ++ [e]) s' := by
  refine ⟨hist.alive_step wf before last, hist.gone_step wf before last,
    hist.confirmed_step wf before last, ?_⟩
  intro k i
  cases (next_effect wf last).2 with
  | quiet _ idle reg =>
    obtain ⟨stays, new⟩ := idle_keeps wf idle
    exact hist.registered_same before last (reg k) stays new
  | register j plnpkt k₀ live hst key reg =>
    exact hist.register_step wf before last live hst key reg k i
  | drop c _ k₀ closes live key reg =>
    exact hist.drop_step wf before last good closes live key reg k i
  | enter j pkt order _ _ _ _ _ _ _ reg =>
    exact hist.recv_step before last (reg k)
  | link j pkt order _ _ _ _ _ _ _ _ _ _ _ reg =>
    exact hist.recv_step before last (reg k)
  | unlink j pkt order _ _ _ _ _ _ _ _ _ _ reg =>
    exact hist.recv_step before last (reg k)

end Step

theorem history_start : History [] newTCPServer := by
  have nothing : ∀ A : TCPServer → Event → TCPServer → Prop,
      ¬ Occurs next A newTCPServer [] := by
    rintro A ⟨pre, e, post, -, -, cut, -⟩
    simp at cut
  refine ⟨fun _ _ => rfl, fun i h => absurd (nothing _) h, ?_, ?_⟩
  · intro i k _ hst
    cases hst
  · intro k i
    constructor
    · intro h
      simp [newTCPServer] at h
    · rintro ⟨h, -⟩
      exact absurd h (nothing _)

theorem history_of_run {es : List Event} {s : TCPServer}
    (run : exec next newTCPServer es = some s)
    (good : Along next ClosesAlone newTCPServer es) : History es s := by
  revert good
  refine exec_history (P := fun es s => Along next ClosesAlone newTCPServer es → History es s)
    (fun _ => history_start) ?_ run
  intro es s e s' before ih last good
  obtain ⟨front, here⟩ := (along_snoc_iff before).mp good
  exact (ih front).step (reachable_wellFormed before) before here last

theorem History.mostRecent_iff {es : List Event} {s : TCPServer} (hist : History es s)
    (i : Nat) (k : CryptoKey) :
    MostRecent es i k ↔ Occurs next (Confirms i k) newTCPServer es ∧ Remains es i := by
  constructor
  · rintro ⟨remains, pre, e, post, m, m', cut, hm, hm', confirms, -⟩
    exact ⟨⟨pre, e, post, m, m', cut, hm, hm', confirms⟩, remains⟩
  · rintro ⟨confirmed, remains⟩
    have hi := (hist.registered k i).mpr ⟨confirmed, remains⟩
    obtain ⟨pre, e, post, m, m', rfl, hm, hm', confirms⟩ := confirmed
    refine ⟨remains, pre, e, post, m, m', rfl, hm, hm', confirms, ?_⟩
    intro j hne remains' later
    have later' : Occurs next (Confirms j k) newTCPServer ((pre ++ [e]) ++ post) :=
      later.append_left (exec_snoc_iff.mpr ⟨m, hm, hm'⟩)
    rw [List.append_assoc, List.singleton_append] at later'
    have hj := (hist.registered k j).mpr ⟨later', remains'⟩
    exact hne (Option.some.inj (hj.symm.trans hi))

/-- In a run in which no unconfirmed connection is closed while its key is
registered, the registry names exactly the connection confirmed last among those
neither closed nor replaced, and a further close of that kind takes no other
connection out. -/
theorem registry_names_most_recent {es : List Event} {s : TCPServer}
    (run : exec next newTCPServer es = some s)
    (good : Along next ClosesAlone newTCPServer es) :
    (∀ k i, s.conns.lookup k = some i ↔ MostRecent es i k) ∧
    ∀ c e s' k i, Closes c e → ClosesAlone s e → next s e = some s' → i ≠ c →
      s.conns.lookup k = some i → s'.conns.lookup k = some i := by
  have hist := history_of_run run good
  constructor
  · intro k i
    rw [hist.registered, hist.mostRecent_iff]
  · intro c e s' k i closes alone last hne hreg
    obtain ⟨confirmed, remains⟩ := (hist.registered k i).mp hreg
    rw [(hist.step (reachable_wellFormed run) run alone last).registered,
      occurs_snoc_iff run last, remains_snoc_iff run last]
    refine ⟨Or.inl confirmed, remains, ?_⟩
    rintro (closes' | ⟨j, k', -, confirms, -⟩)
    · exact hne (closes_inj closes' closes)
    · exact not_confirms_of_closes closes confirms

theorem registry_after_reconnect :
    (after (joins 0 1 ++ joins 1 1 ++ [.readEnd 0])).conns.lookup (keyOf 1) = some 1 ∧
    MostRecent (joins 0 1 ++ joins 1 1 ++ [.readEnd 0]) 1 (keyOf 1) := by
  have before : exec next newTCPServer (joins 0 1 ++ joins 1 1) =
      some (after (joins 0 1 ++ joins 1 1)) := exec_after (by decide +kernel)
  have run : exec next newTCPServer (joins 0 1 ++ joins 1 1 ++ [.readEnd 0]) =
      some (after (joins 0 1 ++ joins 1 1 ++ [.readEnd 0])) := exec_after (by decide +kernel)
  have named : (after (joins 0 1 ++ joins 1 1 ++ [.readEnd 0])).conns.lookup (keyOf 1) =
      some 1 := by decide +kernel
  refine ⟨named, ((registry_names_most_recent run ?_).1 _ _).mp named⟩
  rw [along_snoc_iff before]
  constructor
  · refine along_of_mem ?_ _
    intro e he m i k closes
    rcases closes with rfl | rfl <;> simp [joins] at he
  · intro i k closes live
    obtain rfl : 0 = i := closes_inj (Or.inl rfl) closes
    have dead : ((after (joins 0 1 ++ joins 1 1)).conn 0).onClosed = false := by decide +kernel
    rw [dead] at live
    cases live

/-- A second connection with the same key that is closed before its confirmation
takes the first one out of the registry. -/
theorem unconfirmed_duplicate_unregisters :
    MostRecent (joins 0 1 ++ [.accept, .handshake 1 (keyOf 1), .readEnd 1]) 0 (keyOf 1) ∧
    (after (joins 0 1 ++ [.accept, .handshake 1 (keyOf 1)])).conns.lookup (keyOf 1) = some 0 ∧
    exec next newTCPServer (joins 0 1 ++ [.accept, .handshake 1 (keyOf 1), .readEnd 1]) =
      some (after (joins 0 1 ++ [.accept, .handshake 1 (keyOf 1), .readEnd 1])) ∧
    (after (joins 0 1 ++ [.accept, .handshake 1 (keyOf 1), .readEnd 1])).conns.lookup (keyOf 1) =
      none := by
  refine ⟨⟨?_, ?_⟩, by decide +kernel, exec_after (by decide +kernel), by decide +kernel⟩
  · intro gone
    obtain ⟨e, he, m, m', closes | ⟨j, k, hne, ⟨⟨p, rfl⟩, -⟩, -⟩⟩ := gone.mem
    · rcases closes with rfl | rfl <;> simp [joins] at he
    · grind [joins]
  · refine ⟨[.accept, .handshake 0 (keyOf 1)], .confirm 0 [4, 1],
      [.accept, .handshake 1 (keyOf 1), .readEnd 1], after [.accept, .handshake 0 (keyOf 1)],
      after ([.accept, .handshake 0 (keyOf 1)] ++ [.confirm 0 [4, 1]]), rfl,
      exec_after (by decide +kernel), next_after (by decide +kernel),
      ⟨⟨_, rfl⟩, by decide +kernel, by decide +kernel⟩, ?_⟩
    intro j _ _ later
    obtain ⟨e, he, m, m', ⟨p, rfl⟩, -⟩ := later.mem
    simp at he

end TcpServer
