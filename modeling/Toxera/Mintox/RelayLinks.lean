import Toxera.Mintox.RelayRegistry

/-!
# Links between two clients

A link is kept in the tables of both clients.
-/

namespace TcpServer

open CryptoCore Exec

variable {e : Event} {i j : Nat} {k own pk : CryptoKey} {s s' : TCPServer} {x y : PeerConnInfo}

theorem TCPServer.WellFormed.pciOf_range (wf : s.WellFormed) (h : pciOf s i k = some x) :
    16 ≤ x.connid.toNat := by
  obtain ⟨p, hp, rfl⟩ := pciOf_eq_some_iff.mp h
  exact (wf.conn i).tables.range _ p ((wf.conn i).tables.info k p hp).2

theorem TCPServer.WellFormed.pciOf_inj (wf : s.WellFormed) {k' : CryptoKey} {x' : PeerConnInfo}
    (h : pciOf s i k = some x) (h' : pciOf s i k' = some x') (same : x.connid = x'.connid) :
    k = k' := by
  obtain ⟨p, hp, rfl⟩ := pciOf_eq_some_iff.mp h
  obtain ⟨p', hp', rfl⟩ := pciOf_eq_some_iff.mp h'
  exact (wf.conn i).tables.connid_inj hp hp' same

def LinksSymmetric (s : TCPServer) : Prop :=
  ∀ ka a kb x, s.conns.lookup ka = some a → pciOf s a kb = some x → x.status = 2 →
    ∃ b y, s.conns.lookup kb = some b ∧ pciOf s b ka = some y ∧ y.status = 2 ∧
      x.otherid = y.connid ∧ y.otherid = x.connid

def UnlinkedZero (s : TCPServer) : Prop :=
  ∀ i k x, pciOf s i k = some x → x.status = 2 ∨ x.otherid = 0

theorem Effect.unlinkedZero (h : Effect s s' e) (zero : UnlinkedZero s) : UnlinkedZero s' := by
  intro i k x hx
  cases h with
  | quiet _ _ _ pci => exact zero i k x ((pci i k).symm.trans hx)
  | register _ _ _ _ _ _ _ pci => exact zero i k x ((pci i k).symm.trans hx)
  | drop _ _ _ _ _ _ _ pci =>
    rcases pci i k with ⟨-, -, reset⟩ | ⟨-, same⟩
    · rw [reset] at hx
      obtain ⟨z, -, rfl⟩ := Option.map_eq_some_iff.mp hx
      exact Or.inr rfl
    · exact zero i k x (same.symm.trans hx)
  | enter _ _ _ _ _ _ _ _ _ _ _ pci =>
    rw [pci] at hx
    split_ifs at hx
    · cases hx
      exact Or.inr rfl
    · exact zero i k x hx
  | link _ _ _ _ _ _ _ _ _ _ _ _ _ _ _ pci =>
    rw [pci] at hx
    split_ifs at hx
    · cases hx
      exact Or.inl rfl
    · cases hx
      exact Or.inl rfl
    · exact zero i k x hx
  | unlink _ _ _ _ _ _ _ _ _ _ _ _ _ _ pci =>
    rw [pci] at hx
    split_ifs at hx
    · cases hx
      exact Or.inr rfl
    · cases hx
      exact Or.inr rfl
    · exact zero i k x hx

/-- A client that connects again leaves no link behind, and routing requests and
disconnect notifications come from registered connections. -/
def Steady (m : TCPServer) : Event → Prop
  | .confirm i _ => ∀ k oc kb x, (m.conn i).pubkey = some k → m.conns.lookup k = some oc →
      pciOf m oc kb = some x → x.status ≠ 2
  | .recv i pkt _ => pkt.head? = some 0 ∨ pkt.head? = some 3 →
      ∃ own, m.conns.lookup own = some i
  | _ => True

theorem drop_symmetric (sym : LinksSymmetric s)
    (reg : ∀ k', s'.conns.lookup k' = if k' = k then none else s.conns.lookup k')
    (pci : ∀ x k', (k' = k ∧ (∃ k'', k'' ≠ k ∧ s.conns.lookup k'' = some x) ∧
      pciOf s' x k' = (pciOf s x k').map resetPci) ∨
      (¬ (k' = k ∧ ∃ k'', k'' ≠ k ∧ s.conns.lookup k'' = some x) ∧
      pciOf s' x k' = pciOf s x k')) : LinksSymmetric s' := by
  intro ka a kb x ha hx hst
  have hka : ka ≠ k := by grind
  rw [reg, if_neg hka] at ha
  rcases pci a kb with ⟨-, -, reset⟩ | ⟨other, same⟩
  · -- an entry for the closed key has status 1 now
    rw [reset] at hx
    obtain ⟨z, -, rfl⟩ := Option.map_eq_some_iff.mp hx
    cases hst
  · have hkb : kb ≠ k := fun heq => other ⟨heq, ka, hka, ha⟩
    obtain ⟨b, y, hb, hy, rest⟩ := sym ka a kb x ha (same.symm.trans hx) hst
    refine ⟨b, y, by rw [reg, if_neg hkb]; exact hb, ?_, rest⟩
    rcases pci b ka with ⟨heq, -⟩ | ⟨-, same'⟩
    · exact absurd heq hka
    · rw [same']
      exact hy

theorem register_symmetric (wf : s.WellFormed) (sym : LinksSymmetric s)
    (live : (s.conn i).onClosed = true) (hst : (s.conn i).status = .unconfirmed)
    (reg : ∀ k', s'.conns.lookup k' = if k' = k then some i else s.conns.lookup k')
    (pci : ∀ x k', pciOf s' x k' = pciOf s x k')
    (unlinked : ∀ oc kb x, s.conns.lookup k = some oc → pciOf s oc kb = some x → x.status ≠ 2) :
    LinksSymmetric s' := by
  intro ka a kb x ha hx hx2
  rw [pci] at hx
  by_cases hka : ka = k
  · subst ka
    rw [reg, if_pos rfl] at ha
    cases ha
    have empty := (wf.conn i).early live (by rw [hst]; decide) kb
    rw [pciOf_eq_none_iff.mpr empty] at hx
    cases hx
  · rw [reg, if_neg hka] at ha
    obtain ⟨b, y, hb, hy, hy2, rest⟩ := sym ka a kb x ha hx hx2
    have hkb : kb ≠ k := by
      rintro rfl
      exact unlinked b ka y hb hy hy2
    exact ⟨b, y, by rw [reg, if_neg hkb]; exact hb, (pci b ka).trans hy, hy2, rest⟩

theorem enter_symmetric (sym : LinksSymmetric s) {k : UInt8} (fresh : Fresh s i own pk k)
    (reg : ∀ k', s'.conns.lookup k' = s.conns.lookup k')
    (pci : ∀ x k', pciOf s' x k' =
      if x = i ∧ k' = pk then some ⟨pk, 1, 0, k + numReservedPorts⟩ else pciOf s x k') :
    LinksSymmetric s' := by
  intro ka a kb x ha hx hx2
  rw [reg] at ha
  rw [pci] at hx
  split_ifs at hx
  · cases hx
    cases hx2
  · obtain ⟨b, y, hb, hy, rest⟩ := sym ka a kb x ha hx hx2
    exact ⟨b, y, (reg kb).trans hb, by rw [pci, if_neg (fresh.other_entry hy)]; exact hy, rest⟩

theorem link_symmetric (wf : s.WellFormed) (sym : LinksSymmetric s) {k : UInt8}
    (fresh : Fresh s i own pk k) (here : s.conns.lookup own = some i)
    (peer : s.conns.lookup pk = some j) (apart : j ≠ i)
    (reg : ∀ k', s'.conns.lookup k' = s.conns.lookup k')
    (pci : ∀ x k', pciOf s' x k' =
      if x = j ∧ k' = own then some { y with status := 2, otherid := k + numReservedPorts }
      else if x = i ∧ k' = pk then some ⟨pk, 2, y.connid, k + numReservedPorts⟩
      else pciOf s x k') : LinksSymmetric s' := by
  have mine : pciOf s' i pk = some ⟨pk, 2, y.connid, k + numReservedPorts⟩ := by grind
  have theirs : pciOf s' j own = some { y with status := 2, otherid := k + numReservedPorts } := by
    rw [pci, if_pos ⟨rfl, rfl⟩]
  intro ka a kb x ha hx hx2
  rw [reg] at ha
  rw [pci] at hx
  split_ifs at hx with h1 h2
  · obtain ⟨rfl, rfl⟩ := h1
    cases hx
    obtain rfl := wf.registered_inj ha peer
    exact ⟨i, _, (reg kb).trans here, mine, rfl, rfl, rfl⟩
  · obtain ⟨rfl, rfl⟩ := h2
    cases hx
    obtain rfl := wf.registered_inj ha here
    exact ⟨j, _, (reg kb).trans peer, theirs, rfl, rfl, rfl⟩
  · obtain ⟨b, z, hb, hz, rest⟩ := sym ka a kb x ha hx hx2
    have notTheirs : ¬ (b = j ∧ ka = own) := by
      rintro ⟨rfl, rfl⟩
      exact h2 ⟨Option.some.inj (ha.symm.trans here), wf.registered_inj hb peer⟩
    have notMine : ¬ (b = i ∧ ka = pk) := fresh.other_entry hz
    exact ⟨b, z, (reg kb).trans hb, by rw [pci, if_neg notTheirs, if_neg notMine]; exact hz, rest⟩

theorem counterpart_key (wf : s.WellFormed) (sym : LinksSymmetric s) (zero : UnlinkedZero s)
    (here : s.conns.lookup own = some i) (mine : pciOf s i x.pubkey = some x)
    (peer : s.conns.lookup x.pubkey = some j) (theirs : pciOf s j y.pubkey = some y)
    (crossed : y.connid = x.otherid) : own = y.pubkey := by
  have linked : x.status = 2 := by
    rcases zero i _ x mine with h | h
    · exact h
    · have := wf.pciOf_range theirs
      rw [crossed, h] at this
      simp at this
  -- the counterpart that symmetry gives has the same id, so it is the same object
  obtain ⟨b, z, hb, hz, -, hid, -⟩ := sym own i _ x here mine linked
  obtain rfl := Option.some.inj (peer.symm.trans hb)
  exact wf.pciOf_inj hz theirs (hid.symm.trans crossed.symm)

theorem unlink_symmetric (wf : s.WellFormed) (sym : LinksSymmetric s) (zero : UnlinkedZero s)
    (here : s.conns.lookup own = some i) (mine : pciOf s i x.pubkey = some x)
    (peer : s.conns.lookup x.pubkey = some j) (theirs : pciOf s j y.pubkey = some y)
    (crossed : y.connid = x.otherid) (reg : ∀ k', s'.conns.lookup k' = s.conns.lookup k')
    (pci : ∀ z k', pciOf s' z k' =
      if z = j ∧ k' = y.pubkey then some (resetPci y)
      else if z = i ∧ k' = x.pubkey then some (resetPci x)
      else pciOf s z k') : LinksSymmetric s' := by
  have own_eq : own = y.pubkey := counterpart_key wf sym zero here mine peer theirs crossed
  intro ka a kb z ha hz hz2
  rw [reg] at ha
  rw [pci] at hz
  split_ifs at hz with h1 h2
  · cases hz
    cases hz2
  · cases hz
    cases hz2
  · obtain ⟨b, w, hb, hw, rest⟩ := sym ka a kb z ha hz hz2
    have notTheirs : ¬ (b = j ∧ ka = y.pubkey) := by
      rintro ⟨rfl, rfl⟩
      exact h2 ⟨Option.some.inj (ha.symm.trans (own_eq ▸ here)), wf.registered_inj hb peer⟩
    have notMine : ¬ (b = i ∧ ka = x.pubkey) := by
      rintro ⟨rfl, rfl⟩
      exact h1 ⟨Option.some.inj (ha.symm.trans peer),
        (wf.registered_inj hb here).trans own_eq⟩
    exact ⟨b, w, (reg kb).trans hb, by rw [pci, if_neg notTheirs, if_neg notMine]; exact hw, rest⟩

theorem registered_key (wf : s.WellFormed) {own' : CryptoKey} (hown : (s.conn i).pubkey = some own)
    (here : s.conns.lookup own' = some i) : s.conns.lookup own = some i := by
  obtain rfl := Option.some.inj ((wf.registered own' i here).2.1.symm.trans hown)
  exact here

theorem next_symmetric (wf : s.WellFormed) (zero : UnlinkedZero s) (sym : LinksSymmetric s)
    (good : Steady s e) (h : next s e = some s') : LinksSymmetric s' := by
  cases (next_effect wf h).2 with
  | quiet _ _ reg pci =>
    intro ka a kb x ha hx hst
    obtain ⟨b, y, hb, hy, rest⟩ := sym ka a kb x ((reg ka).symm.trans ha)
      ((pci a kb).symm.trans hx) hst
    exact ⟨b, y, (reg kb).trans hb, (pci b ka).trans hy, rest⟩
  | register i plnpkt k live hst key reg pci =>
    exact register_symmetric wf sym live hst reg pci fun oc kb x => good k oc kb x key
  | drop _ _ _ _ _ _ reg pci => exact drop_symmetric sym reg pci
  | enter _ _ _ _ _ _ _ _ fresh _ reg pci => exact enter_symmetric sym fresh reg pci
  | link i pkt order own pk k j y head _ fresh peer apart _ reg pci =>
    obtain ⟨own', here⟩ := good (Or.inl head)
    exact link_symmetric wf sym fresh (registered_key wf fresh.key here) peer apart reg pci
  | unlink i pkt order x y j head _ mine peer _ theirs crossed reg pci =>
    obtain ⟨own, here⟩ := good (Or.inr head)
    exact unlink_symmetric wf sym zero here mine peer theirs crossed reg pci

theorem newTCPServer_unlinkedZero : UnlinkedZero newTCPServer := by
  intro i k x hx
  simp [newTCPServer, pciOf, newTCPSecureConn, RoutingTables.empty] at hx

/-- In every run in which clients that connect again leave no link behind and only
registered connections ask for routes or end them, all links are symmetric. -/
theorem links_symmetric_in_steady_runs {es : List Event} {s : TCPServer}
    (run : exec next newTCPServer es = some s) (good : Along next Steady newTCPServer es) :
    LinksSymmetric s := by
  have start : newTCPServer.WellFormed ∧ UnlinkedZero newTCPServer ∧
      LinksSymmetric newTCPServer := by
    refine ⟨newTCPServer_wellFormed, newTCPServer_unlinkedZero, ?_⟩
    intro ka a kb x ha
    simp [newTCPServer] at ha
  refine (exec_invariant_along (P := fun s => s.WellFormed ∧ UnlinkedZero s ∧ LinksSymmetric s)
    ?_ start good run).2.2
  rintro s e s' ⟨wf, zero, sym⟩ steady h
  obtain ⟨wf', effect⟩ := next_effect wf h
  exact ⟨wf', effect.unlinkedZero zero, next_symmetric wf zero sym steady h⟩

/-- A test that implies `Steady`: keys are confirmed when nobody holds them, and
packets come from the connection registered under its key. -/
def steadyTest (m : TCPServer) : Event → Bool
  | .confirm i _ => ((m.conn i).pubkey.bind fun k => m.conns.lookup k) = none
  | .recv i _ _ => ((m.conn i).pubkey.bind fun k => m.conns.lookup k) = some i
  | _ => true

theorem steady_of_test (m : TCPServer) (e : Event) (h : steadyTest m e = true) : Steady m e := by
  cases e with
  | confirm i plnpkt =>
    intro k oc kb x hkey hreg
    simp [steadyTest, hkey, hreg] at h
  | recv i pkt order =>
    intro _
    obtain ⟨k, -, hk⟩ := Option.bind_eq_some_iff.mp (of_decide_eq_true h)
    exact ⟨k, hk⟩
  | _ => trivial

theorem links_symmetric_bothAsk : LinksSymmetric (after (bothAsk ++ [disconnects 0 16])) :=
  links_symmetric_in_steady_runs (exec_after (by decide +kernel))
    (along_of_check steady_of_test (by decide +kernel))

/-- A linked client connects again: its peer still holds the link, and the new
connection knows nothing of it. -/
theorem links_asymmetric_after_reconnect :
    exec next newTCPServer (bothAsk ++ joins 2 1) = some (after (bothAsk ++ joins 2 1)) ∧
    ¬ LinksSymmetric (after (bothAsk ++ joins 2 1)) := by
  refine ⟨exec_after (by decide +kernel), fun sym => ?_⟩
  obtain ⟨b, y, hb, hy, -⟩ := sym (keyOf 2) 1 (keyOf 1) ⟨keyOf 1, 2, 16, 16⟩ (by decide +kernel)
    (by decide +kernel) rfl
  obtain rfl : 2 = b := Option.some.inj ((by decide +kernel :
    (after (bothAsk ++ joins 2 1)).conns.lookup (keyOf 1) = some 2).symm.trans hb)
  have nothing : pciOf (after (bothAsk ++ joins 2 1)) 2 (keyOf 2) = none := by decide +kernel
  rw [nothing] at hy
  cases hy

end TcpServer
