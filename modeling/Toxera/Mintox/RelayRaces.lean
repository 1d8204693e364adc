import Mathlib.Data.Finset.Card
import Toxera.Lib.Rendezvous
import Toxera.Mintox.RelayTables

/-!
# Routing requests that race

The handler of a routing request works in two parts: it makes its own entry and answers,
then it looks for the entry of its peer.
-/

namespace TcpServer

open CryptoCore Exec Pointwise

inductive Stage where
  | waiting
  | looking (p : Nat)
  | done
  deriving DecidableEq

variable {b p : Nat} {pk : CryptoKey} {q : Nat × Nat} {s' : TCPServer} {st : Stage}

/-- A server with the handlers that are to run, one for a pair of connections at
most, and everything they have put into the control queues. -/
structure Race where
  server : TCPServer
  handler : Nat × Nat → Option Stage
  sent : Nat → List Bytes

inductive RaceAct where
  | begin (i j : Nat) (order : RangeOrder)
  | look (i j : Nat)
  | write (i : Nat)

/-- A handler has taken a step; what the step appended to the queues is recorded. -/
def Race.advance (r : Race) (q : Nat × Nat) (s : TCPServer) (stage : Stage) : Race where
  server := s
  handler := Function.update r.handler q (some stage)
  sent := fun x => r.sent x ++ (s.conn x).cwctrlq.buf.drop (r.server.conn x).cwctrlq.buf.length

def raceStep (key : Nat → CryptoKey) (r : Race) : RaceAct → Option Race
  | .begin i j order =>
    if r.handler (i, j) = some .waiting then
      (beginRouting (r.server.conn i) order.keys (key j)).map fun res =>
        r.advance (i, j) (r.server.setConn i res.1) (match res.2 with
          | none => .done
          | some p => .looking p)
    else none
  | .look i j =>
    match r.handler (i, j) with
    | some (.looking p) =>
      (linkRouting r.server i p (key j)).map fun s => r.advance (i, j) s .done
    | _ => none
  | .write i =>
    (r.server.conn i).cwctrlq.recv.map fun q =>
      { r with server := r.server.setConn i { r.server.conn i with cwctrlq := q.2 } }

def raceStart (s : TCPServer) (asked : Finset (Nat × Nat)) : Race where
  server := s
  handler := fun q => if q ∈ asked then some .waiting else none
  sent := fun _ => []

def freeIds (c : TCPSecureConn) : Finset UInt8 :=
  connidKeys.toFinset.filter fun k => c.tables.connIds k = some false

/-- Registered clients, no two of which have a route for each other, with enough
free ids for the requests they make. -/
structure Clients (key : Nat → CryptoKey) (asked : Finset (Nat × Nat)) (s : TCPServer) :
    Prop where
  registered : ∀ q ∈ asked, s.conns.lookup (key q.1) = some q.1 ∧
    s.conns.lookup (key q.2) = some q.2
  distinct : ∀ q ∈ asked, q.1 ≠ q.2
  apart : ∀ q ∈ asked, pciOf s q.1 (key q.2) = none ∧ pciOf s q.2 (key q.1) = none
  ids : ∀ i, (asked.filter fun q => q.1 = i).card ≤ (freeIds (s.conn i)).card

theorem connidKeys_card : connidKeys.toFinset.card = 240 := by
  have distinct : connidKeys.Nodup := by
    refine List.Nodup.map_on ?_ List.nodup_range
    intro a ha b hb same
    have small : ∀ n ∈ List.range numClientConnections, (UInt8.ofNat n).toNat = n := by
      intro n hn
      rw [numClientConnections, List.mem_range] at hn
      rw [UInt8.toNat_ofNat']
      omega
    rw [← small a ha, ← small b hb, same]
  rw [List.toFinset_card_of_nodup distinct]
  simp [connidKeys, numClientConnections]

theorem freeIds_card {c : TCPSecureConn} (ok : c.tables.Consistent)
    (empty : ∀ k, c.tables.connInfos k = none) : (freeIds c).card = 240 := by
  have all : freeIds c = connidKeys.toFinset := by
    refine Finset.filter_true_of_mem ?_
    intro k hk
    obtain ⟨b, hb⟩ := (ok.keys k).mpr ((mem_connidKeys k).mp (List.mem_toFinset.mp hk))
    cases b with
    | false => exact hb
    | true =>
      rw [← offset_sub k] at hb
      obtain ⟨p, hp⟩ := (ok.used _).mp hb
      have := (ok.info2 _ p hp).1
      rw [empty] at this
      cases this
  rw [all, connidKeys_card]

theorem enough_ids {asked : Finset (Nat × Nat)} {s : TCPServer} (wf : s.WellFormed)
    (fewer : ∀ i, (asked.filter fun q => q.1 = i).card < 240)
    (empty : ∀ q ∈ asked, ∀ k, (s.conn q.1).tables.connInfos k = none) (i : Nat) :
    (asked.filter fun q => q.1 = i).card ≤ (freeIds (s.conn i)).card := by
  rcases (asked.filter fun q => q.1 = i).eq_empty_or_nonempty with none | ⟨q, hq⟩
  · simp [none]
  · obtain ⟨mem, rfl⟩ := Finset.mem_filter.mp hq
    rw [freeIds_card (wf.conn _).tables (empty q mem)]
    exact (fewer _).le

section Invariant
variable (key : Nat → CryptoKey) (asked : Finset (Nat × Nat))

def waitingOf (handler : Nat × Nat → Option Stage) (i : Nat) : Finset (Nat × Nat) :=
  asked.filter fun q => q.1 = i ∧ handler q = some .waiting

/-- An entry is there once its handler has begun; linked entries point at each other. -/
structure RaceOk (s : TCPServer) (handler : Nat × Nat → Option Stage) : Prop where
  wf : s.WellFormed
  registered : ∀ q ∈ asked, s.conns.lookup (key q.1) = some q.1 ∧
    s.conns.lookup (key q.2) = some q.2
  distinct : ∀ q ∈ asked, q.1 ≠ q.2
  handled : ∀ q, handler q ≠ none ↔ q ∈ asked
  waiting : ∀ q, handler q = some .waiting → pciOf s q.1 (key q.2) = none
  looking : ∀ q p, handler q = some (.looking p) →
    (s.conn q.1).tables.connInfos (key q.2) = some p
  done : ∀ q, handler q = some .done → pciOf s q.1 (key q.2) ≠ none
  silent : ∀ q ∈ asked, q.swap ∉ asked → pciOf s q.2 (key q.1) = none
  ids : ∀ i, (waitingOf asked handler i).card ≤ (freeIds (s.conn i)).card
  linked : ∀ q ∈ asked, ∀ x, pciOf s q.1 (key q.2) = some x → x.status = 2 →
    ∃ y, pciOf s q.2 (key q.1) = some y ∧ y.status = 2 ∧
      x.otherid = y.connid ∧ y.otherid = x.connid

end Invariant

variable {key : Nat → CryptoKey} {asked : Finset (Nat × Nat)}

theorem raceStart_ok {s : TCPServer} (wf : s.WellFormed) (clients : Clients key asked s) :
    RaceOk key asked s (raceStart s asked).handler := by
  have stage : ∀ q st, (raceStart s asked).handler q = some st → q ∈ asked ∧ st = .waiting := by
    grind [raceStart]
  refine ⟨wf, clients.registered, clients.distinct, ?_, ?_, ?_, ?_, ?_, ?_, ?_⟩
  · intro q
    simp [raceStart]
  · intro q h
    exact (clients.apart q (stage q _ h).1).1
  · intro q p h
    cases (stage q _ h).2
  · intro q h
    cases (stage q _ h).2
  · intro q hq _
    exact (clients.apart q hq).2
  · intro i
    refine le_trans (Finset.card_le_card ?_) (clients.ids i)
    intro q hq
    simp only [waitingOf, Finset.mem_filter] at hq ⊢
    exact ⟨hq.1, hq.2.1⟩
  · intro q hq x hx
    rw [(clients.apart q hq).1] at hx
    cases hx

section Step
variable {s : TCPServer} {handler : Nat × Nat → Option Stage}

theorem RaceOk.of_same (ok : RaceOk key asked s handler) (same : s.SameButQueues s') :
    RaceOk key asked s' handler := by
  have pci := same.pciOf
  refine ⟨ok.wf.of_same same, ?_, ok.distinct, ok.handled, ?_, ?_, ?_, ?_, ?_, ?_⟩
  · rw [same.conns]; exact ok.registered
  · simpa only [pci] using ok.waiting
  · intro q p h
    rw [(same.conn q.1).tables]
    exact ok.looking q p h
  · simpa only [pci] using ok.done
  · simpa only [pci] using ok.silent
  · intro i
    rw [freeIds, (same.conn i).tables]
    exact ok.ids i
  · simpa only [pci] using ok.linked

theorem client_inj {a : Nat} (ha : s.conns.lookup (key a) = some a)
    (hb : s.conns.lookup (key b) = some b) (same : key a = key b) : a = b := by
  rw [same, hb] at ha
  exact (Option.some.inj ha).symm

theorem RaceOk.asked_of_stage (ok : RaceOk key asked s handler) (h : handler q = some st) :
    q ∈ asked :=
  (ok.handled q).mp (by rw [h]; simp)

theorem RaceOk.pair (ok : RaceOk key asked s handler) {i j : Nat} (mem : (i, j) ∈ asked) :
    s.conns.lookup (key i) = some i ∧ s.conns.lookup (key j) = some j :=
  ok.registered _ mem

theorem waitingOf_update (q : Nat × Nat) (started : st ≠ .waiting) (i : Nat) :
    waitingOf asked (Function.update handler q (some st)) i =
      (waitingOf asked handler i).erase q := by
  ext q'
  by_cases hq : q' = q
  · subst q'; simp [waitingOf, started]
  · simp [waitingOf, hq]

theorem freeIds_enterPeer (i : Nat) (pk : CryptoKey) (k : UInt8) :
    freeIds ((s.enterPeer i pk k).conn i) = (freeIds (s.conn i)).erase k := by
  ext k'
  by_cases hk : k' = k
  · subst k'
    simp [freeIds, TCPServer.enterPeer]
  · simp [freeIds, TCPServer.enterPeer, hk]

section Enter
variable {i j : Nat} {own : CryptoKey} {k : UInt8}

theorem RaceOk.pciOf_enter (ok : RaceOk key asked s handler) (mem : (i, j) ∈ asked) {a : Nat}
    (hb : s.conns.lookup (key b) = some b) (hne : (a, b) ≠ (i, j)) :
    pciOf (s.enterPeer i (key j) k) a (key b) = pciOf s a (key b) := by
  rw [pciOf_enterPeer (ok.wf.conn i).tables, if_neg]
  rintro ⟨rfl, same⟩
  exact hne (by rw [client_inj hb (ok.pair mem).2 same])

theorem RaceOk.connInfos_enter (ok : RaceOk key asked s handler) (mem : (i, j) ∈ asked)
    (hq : q ∈ asked) (hne : q ≠ (i, j)) :
    ((s.enterPeer i (key j) k).conn q.1).tables.connInfos (key q.2) =
      (s.conn q.1).tables.connInfos (key q.2) := by
  by_cases hq1 : q.1 = i
  · have other : key q.2 ≠ key j := by
      intro same
      exact hne (Prod.ext hq1 (client_inj (ok.registered q hq).2 (ok.pair mem).2 same))
    rw [hq1]
    simp [TCPServer.enterPeer, Function.update_of_ne other]
  · rw [TCPServer.enterPeer, setConn_ne _ _ hq1]

theorem RaceOk.ids_enter (ok : RaceOk key asked s handler) (waits : handler (i, j) = some .waiting)
    (fresh : Fresh s i own (key j) k) (x : Nat) :
    ((waitingOf asked handler x).erase (i, j)).card ≤
      (freeIds ((s.enterPeer i (key j) k).conn x)).card := by
  by_cases hx : x = i
  · subst x
    have waiting : (i, j) ∈ waitingOf asked handler i := by
      simp [waitingOf, ok.asked_of_stage waits, waits]
    have free : k ∈ freeIds (s.conn i) := by
      simpa [freeIds, fresh.free, mem_connidKeys] using
        ((ok.wf.conn i).tables.keys k).mp ⟨_, fresh.free⟩
    rw [freeIds_enterPeer, Finset.card_erase_of_mem waiting, Finset.card_erase_of_mem free]
    exact Nat.sub_le_sub_right (ok.ids i) 1
  · rw [TCPServer.enterPeer, setConn_ne _ _ hx]
    exact Finset.card_erase_le.trans (ok.ids x)

theorem RaceOk.linked_enter (ok : RaceOk key asked s handler)
    (waits : handler (i, j) = some .waiting) (hq : q ∈ asked) {x : PeerConnInfo}
    (hx : pciOf (s.enterPeer i (key j) k) q.1 (key q.2) = some x) (h2 : x.status = 2) :
    ∃ y, pciOf (s.enterPeer i (key j) k) q.2 (key q.1) = some y ∧ y.status = 2 ∧
      x.otherid = y.connid ∧ y.otherid = x.connid := by
  have mem := ok.asked_of_stage waits
  have hne : q ≠ (i, j) := by
    rintro rfl
    rw [pciOf_enterPeer (ok.wf.conn i).tables, if_pos ⟨rfl, rfl⟩] at hx
    cases hx
    cases h2
  obtain ⟨hq1, hq2⟩ := ok.registered q hq
  rw [ok.pciOf_enter mem hq2 hne] at hx
  obtain ⟨y, hy, rest⟩ := ok.linked q hq x hx h2
  refine ⟨y, ?_, rest⟩
  rw [ok.pciOf_enter mem hq1, hy]
  intro heq
  rw [(Prod.mk.inj heq).1, (Prod.mk.inj heq).2, ok.waiting _ waits] at hy
  cases hy

theorem RaceOk.enter (ok : RaceOk key asked s handler) (waits : handler (i, j) = some .waiting)
    (fresh : Fresh s i own (key j) k) :
    RaceOk key asked (s.enterPeer i (key j) k)
      (Function.update handler (i, j) (some (.looking (s.conn i).tables.npci))) := by
  have mem := ok.asked_of_stage waits
  obtain ⟨lt, -, hst, -⟩ := ok.wf.registered _ _ (ok.pair mem).1
  have elsewhere : ∀ {q st}, handler q = some st → q ≠ (i, j) →
      pciOf (s.enterPeer i (key j) k) q.1 (key q.2) = pciOf s q.1 (key q.2) :=
    fun h hq => ok.pciOf_enter mem (ok.registered _ (ok.asked_of_stage h)).2 hq
  refine ⟨ok.wf.enterPeer lt hst fresh, ok.registered, ok.distinct, update_defined ok.handled mem _,
    ?_, ?_, ?_, ?_, ?_, fun q hq x hx h2 => ok.linked_enter waits hq hx h2⟩
  · intro q h
    rcases update_some h with ⟨-, hst⟩ | ⟨hq, h⟩
    · cases hst
    · rw [elsewhere h hq]
      exact ok.waiting q h
  · intro q p h
    rcases update_some h with ⟨rfl, hst⟩ | ⟨hq, h⟩
    · obtain rfl := Stage.looking.inj hst
      simp [TCPServer.enterPeer]
    · rw [ok.connInfos_enter mem (ok.asked_of_stage h) hq]
      exact ok.looking q p h
  · intro q h
    rcases update_some h with ⟨-, hst⟩ | ⟨hq, h⟩
    · cases hst
    · rw [elsewhere h hq]
      exact ok.done q h
  · intro q hq hswap
    have hne : q.swap ≠ (i, j) := fun heq => hswap (heq ▸ mem)
    rw [ok.pciOf_enter mem (ok.registered q hq).1 hne]
    exact ok.silent q hq hswap
  · intro x
    rw [waitingOf_update _ (by simp)]
    exact ok.ids_enter waits fresh x

end Enter

theorem RaceOk.finish (ok : RaceOk key asked s handler) (looks : handler q = some (.looking p)) :
    RaceOk key asked s (Function.update handler q (some .done)) := by
  refine ⟨ok.wf, ok.registered, ok.distinct, update_defined ok.handled (ok.asked_of_stage looks) _,
    ?_, ?_, ?_, ok.silent, ?_, ok.linked⟩
  · intro q' h
    rcases update_some h with ⟨-, hst⟩ | ⟨-, h⟩
    · cases hst
    · exact ok.waiting q' h
  · intro q' p' h
    rcases update_some h with ⟨-, hst⟩ | ⟨-, h⟩
    · cases hst
    · exact ok.looking q' p' h
  · intro q' h
    rcases update_some h with ⟨rfl, -⟩ | ⟨-, h⟩
    · simp [pciOf, ok.looking _ _ looks]
    · exact ok.done q' h
  · intro x
    rw [waitingOf_update _ (by simp)]
    exact Finset.card_erase_le.trans (ok.ids x)

theorem linkPair_tables (i p j q x : Nat) :
    ((s.linkPair i p j q).conn x).tables.connInfos = (s.conn x).tables.connInfos ∧
    ((s.linkPair i p j q).conn x).tables.connIds = (s.conn x).tables.connIds := by
  have one : ∀ (t : TCPServer) y r f,
      ((t.modifyPci y r f).conn x).tables.connInfos = (t.conn x).tables.connInfos ∧
      ((t.modifyPci y r f).conn x).tables.connIds = (t.conn x).tables.connIds := by
    intro t y r f
    by_cases hx : x = y
    · subst x; simp [RoutingTables.modifyPci]
    · simp [modifyPci_conn_ne t r f hx]
  unfold TCPServer.linkPair
  exact ⟨(one _ _ _ _).1.trans (one _ _ _ _).1, (one _ _ _ _).2.trans (one _ _ _ _).2⟩

theorem RaceOk.link (ok : RaceOk key asked s handler) {i j q : Nat} (mem : (i, j) ∈ asked)
    (hp : (s.conn i).tables.connInfos (key j) = some p)
    (hq : (s.conn j).tables.connInfos (key i) = some q) :
    RaceOk key asked (s.linkPair i p j q) handler := by
  obtain ⟨hi, hj⟩ := ok.pair mem
  have lti := (ok.wf.registered _ _ hi).1
  have ltj := (ok.wf.registered _ _ hj).1
  have hne : j ≠ i := (ok.distinct _ mem).symm
  have pci := pciOf_linkPair (ok.wf.conn i).tables (ok.wf.conn j).tables hne hp hq
  have ati : pciOf (s.linkPair i p j q) i (key j) = some { (s.conn i).tables.pcis p with
      status := 2, otherid := ((s.conn j).tables.pcis q).connid } := by
    rw [pci, if_neg (fun h => hne h.1.symm), if_pos ⟨rfl, rfl⟩]
  have atj : pciOf (s.linkPair i p j q) j (key i) = some { (s.conn j).tables.pcis q with
      status := 2, otherid := ((s.conn i).tables.pcis p).connid } := by
    rw [pci, if_pos ⟨rfl, rfl⟩]
  have infos := fun x => (linkPair_tables (s := s) i p j q x).1
  have none_iff : ∀ x k, pciOf (s.linkPair i p j q) x k = none ↔ pciOf s x k = none := by
    intro x k
    rw [pciOf_eq_none_iff, pciOf_eq_none_iff, infos]
  refine ⟨ok.wf.linkPair lti ltj p q, ok.registered, ok.distinct, ok.handled, ?_, ?_, ?_, ?_, ?_,
    ?_⟩
  · intro q' h
    exact (none_iff _ _).mpr (ok.waiting q' h)
  · intro q' p' h
    rw [infos]
    exact ok.looking q' p' h
  · intro q' h
    exact fun hnone => ok.done q' h ((none_iff _ _).mp hnone)
  · intro q' hq' hswap
    exact (none_iff _ _).mpr (ok.silent q' hq' hswap)
  · intro x
    rw [freeIds, (linkPair_tables i p j q x).2]
    exact ok.ids x
  · rintro ⟨a, b⟩ hab x hx h2
    obtain ⟨ha, hb⟩ := ok.pair hab
    rw [pci] at hx
    simp only at hx ⊢
    by_cases back : a = j ∧ key b = key i
    · grind
    · rw [if_neg back] at hx
      by_cases forth : a = i ∧ key b = key j
      · grind
      · rw [if_neg forth] at hx
        obtain ⟨y, hy, rest⟩ := ok.linked _ hab x hx h2
        refine ⟨y, ?_, rest⟩
        rw [pci, if_neg, if_neg]
        · exact hy
        · grind
        · grind

end Step

def appended (q : Chan Bytes) (data : Bytes) : List Bytes :=
  if q.buf.length < q.cap then [data] else []

theorem drop_queued (q : Chan Bytes) (data : Bytes) :
    (queued q data).drop q.buf.length = appended q data := by
  unfold queued appended
  split_ifs <;> simp

/-- Everything a step does to the entries, the handlers and the record of what
was sent. -/
inductive RaceEffect (key : Nat → CryptoKey) (r r' : Race) : RaceAct → Prop
  | entered {i j : Nat} {order : RangeOrder} {own : CryptoKey} {k : UInt8}
      (waits : r.handler (i, j) = some .waiting) (fresh : Fresh r.server i own (key j) k)
      (same : (r.server.enterPeer i (key j) k).SameButQueues r'.server)
      (handler : r'.handler = Function.update r.handler (i, j)
        (some (.looking (r.server.conn i).tables.npci)))
      (sent : ∀ x, r'.sent x = r.sent x ++ if x = i then
        appended (r.server.conn i).cwctrlq (routingResponse (k + numReservedPorts) (key j))
        else []) :
      RaceEffect key r r' (.begin i j order)
  | missed {i j p : Nat} (looks : r.handler (i, j) = some (.looking p))
      (alone : pciOf r.server j (key i) = none) (server : r'.server = r.server)
      (handler : r'.handler = Function.update r.handler (i, j) (some .done))
      (sent : r'.sent = r.sent) :
      RaceEffect key r r' (.look i j)
  | met {i j p q : Nat} (looks : r.handler (i, j) = some (.looking p))
      (found : (r.server.conn j).tables.connInfos (key i) = some q)
      (same : (r.server.linkPair i p j q).SameButQueues r'.server)
      (handler : r'.handler = Function.update r.handler (i, j) (some .done))
      (sent : ∀ x, r'.sent x = r.sent x ++ if x = i then
        appended (r.server.conn i).cwctrlq
          (connectNotification ((r.server.conn i).tables.pcis p).connid)
        else if x = j then appended (r.server.conn j).cwctrlq
          (connectNotification ((r.server.conn j).tables.pcis q).connid)
        else []) :
      RaceEffect key r r' (.look i j)
  | wrote {i : Nat} (same : r.server.SameButQueues r'.server) (handler : r'.handler = r.handler)
      (sent : r'.sent = r.sent) :
      RaceEffect key r r' (.write i)

section Effect
variable {r r' : Race}

theorem begin_effect (ok : RaceOk key asked r.server r.handler) {i j : Nat} {order : RangeOrder}
    (waits : r.handler (i, j) = some .waiting) {res : TCPSecureConn × Option Nat}
    (h : beginRouting (r.server.conn i) order.keys (key j) = some res) :
    ∃ own k, Fresh r.server i own (key j) k ∧ res.2 = some (r.server.conn i).tables.npci ∧
      sendRoutingResponse { r.server.conn i with
        tables := (r.server.conn i).tables.grant (key j) k } (k + numReservedPorts) (key j) =
          some res.1 := by
  have mem := ok.asked_of_stage waits
  obtain ⟨hi, hj⟩ := ok.pair mem
  have new := pciOf_eq_none_iff.mp (ok.waiting _ waits)
  have hown := (ok.wf.registered _ _ hi).2.1
  have other : key j ≠ key i := by
    intro same
    exact ok.distinct _ mem (client_inj hi hj same.symm)
  obtain ⟨own, hown', cases⟩ := beginRouting_cases (ok.wf.conn i).tables h
  obtain rfl := Option.some.inj (hown'.symm.trans hown)
  rcases cases with ⟨-, -, -, ⟨same, -⟩ | ⟨p, hp, -⟩⟩ | ⟨-, -, -, taken, -⟩ |
    ⟨hne, hnew, hsome, k, -, hfree, hsend⟩
  · exact absurd same other
  · rw [new] at hp
    cases hp
  · -- a waiting handler has an id left for it
    exfalso
    have none_free : freeIds (r.server.conn i) = ∅ := by
      ext k
      simp only [freeIds, Finset.mem_filter, List.mem_toFinset, Finset.notMem_empty, iff_false]
      rintro ⟨hk, free⟩
      rw [taken k ((mem_connidKeys k).mp hk)] at free
      cases free
    have ids := ok.ids i
    rw [none_free, Finset.card_empty] at ids
    have : (i, j) ∈ waitingOf asked r.handler i := by simp [waitingOf, mem, waits]
    exact absurd (Finset.card_pos.mpr ⟨_, this⟩) (by omega)
  · exact ⟨_, k, ⟨hown, hne, hnew, hfree⟩, hsome, hsend⟩

theorem raceStep_effect (ok : RaceOk key asked r.server r.handler) {a : RaceAct}
    (h : raceStep key r a = some r') : RaceEffect key r r' a := by
  cases a with
  | «begin» i j order =>
    simp only [raceStep] at h
    split_ifs at h with waits
    obtain ⟨res, hres, rfl⟩ := Option.map_eq_some_iff.mp h
    obtain ⟨own, k, fresh, hsome, hsend⟩ := begin_effect ok waits hres
    have lt := (ok.wf.registered _ _ (ok.registered _ (ok.asked_of_stage waits)).1).1
    refine .entered waits fresh (granted_same lt hsend) ?_ ?_
    · simp [Race.advance, hsome]
    · intro x
      have hbuf := sendCtrlPacket_buf (by rw [routingResponse_length]; omega) hsend
      simp only [Race.advance]
      congr 1
      by_cases hx : x = i
      · subst x
        rw [setConn_self, hbuf, if_pos rfl, drop_queued]
      · rw [setConn_ne _ _ hx, if_neg hx, List.drop_length]
  | look i j =>
    simp only [raceStep] at h
    split at h
    case h_2 => cases h
    case h_1 p looks =>
      obtain ⟨s', hs', rfl⟩ := Option.map_eq_some_iff.mp h
      have mem := ok.asked_of_stage looks
      obtain ⟨hi, hj⟩ := ok.pair mem
      obtain ⟨lt, hown, -⟩ := ok.wf.registered _ _ hi
      rcases linkRouting_cases ok.wf lt hs' with ⟨rfl, alone⟩ | ⟨j', own, q, hj', hown', hq, same⟩
      · refine .missed looks (pciOf_eq_none_iff.mpr (alone j _ hj hown)) rfl rfl ?_
        funext x
        simp [Race.advance]
      · obtain rfl := Option.some.inj (hj'.symm.trans hj)
        obtain rfl := Option.some.inj (hown'.symm.trans hown)
        refine .met looks hq same rfl ?_
        intro x
        have hbuf := linkRouting_queues hj hown hq (ok.distinct _ mem).symm hs' x
        simp only [Race.advance]
        congr 1
        rw [hbuf]
        split_ifs with hxi hxj
        · subst x; exact drop_queued _ _
        · subst x; exact drop_queued _ _
        · exact List.drop_length
  | write i =>
    simp only [raceStep] at h
    obtain ⟨q, hq, rfl⟩ := Option.map_eq_some_iff.mp h
    obtain ⟨hbuf, hclosed, -⟩ := Chan.recv_spec (show _ = some (q.1, q.2) from hq)
    -- only an accepted connection has anything queued
    have lt : i < r.server.accepted := by
      by_contra beyond
      rw [ok.wf.beyond i (by omega)] at hbuf
      cases hbuf
    exact .wrote (.setConn lt ⟨rfl, rfl, rfl, hclosed, rfl, rfl, rfl, rfl, rfl⟩) rfl rfl

theorem RaceEffect.ok {a : RaceAct} (ok : RaceOk key asked r.server r.handler)
    (e : RaceEffect key r r' a) : RaceOk key asked r'.server r'.handler := by
  cases e with
  | entered waits fresh same handler _ =>
    rw [handler]
    exact (ok.enter waits fresh).of_same same
  | missed looks _ server handler _ =>
    rw [server, handler]
    exact ok.finish looks
  | met looks found same handler _ =>
    rw [handler]
    exact ((ok.finish looks).link (ok.asked_of_stage looks) (ok.looking _ _ looks) found).of_same
      same
  | wrote same handler _ =>
    rw [handler]
    exact ok.of_same same

end Effect

def LinkedAs (s : TCPServer) (z : Nat) (k : CryptoKey) (c : UInt8) : Prop :=
  ∃ x, pciOf s z k = some x ∧ x.status = 2 ∧ x.connid = c

theorem linkedAs_same {s : TCPServer} (same : s.SameButQueues s') (z : Nat) (k : CryptoKey)
    (c : UInt8) : LinkedAs s' z k c ↔ LinkedAs s z k c := by
  rw [LinkedAs, same.pciOf, LinkedAs]

theorem linkedAs_enterPeer {s : TCPServer} {i : Nat} (ok : (s.conn i).tables.Consistent)
    (new : pciOf s i pk = none) (k : UInt8) (z : Nat) (k' : CryptoKey) (c : UInt8) :
    LinkedAs (s.enterPeer i pk k) z k' c ↔ LinkedAs s z k' c := by
  unfold LinkedAs
  rw [pciOf_enterPeer ok]
  by_cases h : z = i ∧ k' = pk
  · obtain ⟨rfl, rfl⟩ := h
    simp [new]
  · rw [if_neg h]

theorem linkedAs_linkPair {s : TCPServer} {i j q : Nat} {own : CryptoKey}
    (oki : (s.conn i).tables.Consistent) (okj : (s.conn j).tables.Consistent) (hne : j ≠ i)
    (hp : (s.conn i).tables.connInfos pk = some p) (hq : (s.conn j).tables.connInfos own = some q)
    (z : Nat) (k : CryptoKey) (c : UInt8) :
    LinkedAs (s.linkPair i p j q) z k c ↔
      if z = j ∧ k = own then ((s.conn j).tables.pcis q).connid = c
      else if z = i ∧ k = pk then ((s.conn i).tables.pcis p).connid = c
      else LinkedAs s z k c := by
  unfold LinkedAs
  rw [pciOf_linkPair oki okj hne hp hq]
  split_ifs <;> simp

def Stage.phase : Stage → Rendezvous.Phase
  | .waiting => .waiting
  | .looking _ => .inserted
  | .done => .done

def RaceAct.label : RaceAct → Option (Rendezvous.Act (Nat × Nat))
  | .begin i j _ => some (.insert (i, j))
  | .look i j => some (.check (i, j))
  | .write _ => none

structure Matches (key : Nat → CryptoKey) (asked : Finset (Nat × Nat)) (r : Race)
    (a : Rendezvous.State (Nat × Nat)) : Prop where
  ok : RaceOk key asked r.server r.handler
  phase : ∀ q, a.phase q = (r.handler q).map Stage.phase
  met : ∀ q ∈ asked, a.met q = true ↔ ∃ c, LinkedAs r.server q.1 (key q.2) c

section Match
variable {r r' : Race} {a : Rendezvous.State (Nat × Nat)}

theorem Matches.present_iff (m : Matches key asked r a) (hq : q.swap ∈ asked) :
    a.present q = true ↔ pciOf r.server q.1 (key q.2) ≠ none := by
  rw [Rendezvous.State.present, m.phase q]
  cases h : r.handler q with
  | none =>
    have hnot : q ∉ asked := fun hmem => (m.ok.handled q).mpr hmem h
    simpa using m.ok.silent q.swap hq (by simpa using hnot)
  | some st =>
    cases st with
    | waiting => simpa [Stage.phase] using m.ok.waiting q h
    | looking p => simp [Stage.phase, pciOf, m.ok.looking q p h]
    | done => simpa [Stage.phase] using m.ok.done q h

theorem map_update_phase (handler : Nat × Nat → Option Stage) (q : Nat × Nat) (st : Stage)
    (q' : Nat × Nat) :
    (Function.update handler q (some st) q').map Stage.phase =
      Function.update (fun q => (handler q).map Stage.phase) q (some st.phase) q' := by
  by_cases hq : q' = q
  · subst q'; simp
  · simp [Function.update_of_ne hq]

theorem Matches.hidden {act : RaceAct} (m : Matches key asked r a)
    (h : raceStep key r act = some r') (quiet : act.label = none) : Matches key asked r' a := by
  have e := raceStep_effect m.ok h
  have ok' := e.ok m.ok
  cases e with
  | entered => cases quiet
  | missed => cases quiet
  | met => cases quiet
  | wrote same handler _ =>
    refine ⟨ok', ?_, ?_⟩
    · rw [handler]; exact m.phase
    · simpa only [linkedAs_same same] using m.met

theorem Matches.matched {act : RaceAct} {act' : Rendezvous.Act (Nat × Nat)}
    (m : Matches key asked r a) (h : raceStep key r act = some r')
    (seen : act.label = some act') :
    ∃ a', Rendezvous.step Prod.swap a act' = some a' ∧ Matches key asked r' a' := by
  have e := raceStep_effect m.ok h
  have ok' := e.ok m.ok
  have phases : a.phase = fun q => (r.handler q).map Stage.phase := funext m.phase
  cases e with
  | @entered i j _ _ k waits fresh same handler _ =>
    cases seen
    refine ⟨_, Rendezvous.step_insert (by simp [m.phase, waits, Stage.phase]), ok', ?_, ?_⟩
    · intro q
      rw [handler, map_update_phase, phases]
      rfl
    · intro q hq
      simp only [linkedAs_same same,
        linkedAs_enterPeer (m.ok.wf.conn i).tables (m.ok.waiting _ waits)]
      exact m.met q hq
  | @missed i j p looks alone server handler _ =>
    cases seen
    have absent : a.present (j, i) ≠ true := by
      rw [ne_eq, m.present_iff (q := (j, i)) (m.ok.asked_of_stage looks)]
      simpa using alone
    refine ⟨_, Rendezvous.step_check (by simp [m.phase, looks, Stage.phase]), ok', ?_, ?_⟩
    · intro q
      rw [handler, map_update_phase, phases]
      rfl
    · intro q hq
      simp only [Rendezvous.State.mark, Prod.swap_prod_mk, if_neg absent, server]
      exact m.met q hq
  | @met i j p q looks found same handler _ =>
    cases seen
    have mem := m.ok.asked_of_stage looks
    obtain ⟨hi, hj⟩ := m.ok.pair mem
    have present : a.present (j, i) = true := by
      rw [m.present_iff (q := (j, i)) mem]
      simp [pciOf, found]
    refine ⟨_, Rendezvous.step_check (by simp [m.phase, looks, Stage.phase]), ok', ?_, ?_⟩
    · intro q
      rw [handler, map_update_phase, phases]
      rfl
    · rintro ⟨x, y⟩ hxy
      have hy := (m.ok.pair hxy).2
      simp only [Rendezvous.State.mark, Prod.swap_prod_mk, if_pos present, linkedAs_same same,
        linkedAs_linkPair (m.ok.wf.conn i).tables (m.ok.wf.conn j).tables
          (m.ok.distinct _ mem).symm (m.ok.looking _ _ looks) found]
      by_cases back : x = j ∧ key y = key i
      · obtain rfl := client_inj hy hi back.2
        simp [back]
      · by_cases forth : x = i ∧ key y = key j
        · obtain ⟨rfl, same'⟩ := forth
          obtain rfl := client_inj hy hj same'
          simp [if_neg back]
        · have h1 : (x, y) ≠ (j, i) := fun h => back (by cases h; exact ⟨rfl, rfl⟩)
          have h2 : (x, y) ≠ (i, j) := fun h => forth (by cases h; exact ⟨rfl, rfl⟩)
          simp only [if_neg back, if_neg forth, decide_eq_false h1, decide_eq_false h2,
            Bool.or_false]
          exact m.met _ hxy
  | wrote => cases seen

theorem raceStart_matches {s : TCPServer} (wf : s.WellFormed) (clients : Clients key asked s) :
    Matches key asked (raceStart s asked) (Rendezvous.start fun q => q ∈ asked) := by
  refine ⟨raceStart_ok wf clients, ?_, ?_⟩
  · intro q
    by_cases hq : q ∈ asked <;> simp [raceStart, Rendezvous.start, hq, Stage.phase]
  · intro q hq
    have none := (clients.apart q hq).1
    simp [Rendezvous.start, raceStart, LinkedAs, none]

end Match

theorem linked_iff_both_asked {s : TCPServer} (wf : s.WellFormed) (clients : Clients key asked s)
    {acts : List RaceAct} {r : Race}
    (race : exec (raceStep key) (raceStart s asked) acts = some r)
    (finished : ∀ q ∈ asked, r.handler q = some .done) {i j : Nat} (mem : (i, j) ∈ asked) :
    (∃ c, LinkedAs r.server i (key j) c) ↔ (j, i) ∈ asked := by
  have hidden : ∀ r a e r', Matches key asked r a → raceStep key r e = some r' →
      RaceAct.label e = none → Matches key asked r' a := fun _ _ _ _ m h quiet => m.hidden h quiet
  have matched : ∀ r a e e' r', Matches key asked r a → raceStep key r e = some r' →
      RaceAct.label e = some e' → ∃ a', Rendezvous.step Prod.swap a e' = some a' ∧
        Matches key asked r' a' := fun _ _ _ _ _ m h seen => m.matched h seen
  obtain ⟨a, run, m⟩ := exec_simulation hidden matched (raceStart_matches wf clients) race
  have done : ∀ q : Nat × Nat, decide (q ∈ asked) = true → a.phase q = some .done := by
    intro q hq
    rw [m.phase, finished q (of_decide_eq_true hq)]
    rfl
  have met := Rendezvous.met_iff_asked Prod.swap_swap run done (q := (i, j)) (by simpa using mem)
  rw [← m.met (i, j) mem, met]
  simp

theorem connectNotification_ne (c c' : UInt8) (pk : CryptoKey) :
    connectNotification c ≠ routingResponse c' pk := by
  simp [connectNotification, routingResponse]

theorem connectNotification_inj {c c' : UInt8} :
    connectNotification c = connectNotification c' ↔ c = c' := by
  simp [connectNotification]

def Room (r : Race) : RaceAct → Prop
  | .look i j => (r.server.conn i).cwctrlq.len < (r.server.conn i).cwctrlq.cap ∧
      (r.server.conn j).cwctrlq.len < (r.server.conn j).cwctrlq.cap
  | _ => True

instance (r : Race) (a : RaceAct) : Decidable (Room r a) :=
  match a with
  | .begin _ _ _ => isTrue trivial
  | .look _ _ => instDecidableAnd
  | .write _ => isTrue trivial

theorem eq_of_mem_appended {q : Chan Bytes} {d data : Bytes} (h : d ∈ appended q data) :
    d = data := by
  unfold appended at h
  split_ifs at h
  · simpa using h
  · cases h

theorem mem_appended {q : Chan Bytes} (room : q.len < q.cap) (data : Bytes) :
    data ∈ appended q data := by
  have room' : q.buf.length < q.cap := room
  rw [appended, if_pos room']
  exact List.mem_singleton_self data

def OnlyLinked (r : Race) : Prop :=
  ∀ z c, connectNotification c ∈ r.sent z → ∃ k, LinkedAs r.server z k c

def AllTold (key : Nat → CryptoKey) (asked : Finset (Nat × Nat)) (r : Race) : Prop :=
  ∀ i j, (i, j) ∈ asked → ∀ c, LinkedAs r.server i (key j) c → connectNotification c ∈ r.sent i

section Notified
variable {r r' : Race} {act : RaceAct}

theorem RaceEffect.onlyLinked (ok : RaceOk key asked r.server r.handler)
    (e : RaceEffect key r r' act) (only : OnlyLinked r) : OnlyLinked r' := by
  intro z c hmem
  cases e with
  | @entered i j _ _ k waits fresh same _ sent =>
    rw [sent, List.mem_append] at hmem
    have old : connectNotification c ∈ r.sent z := by
      refine hmem.resolve_right fun h => ?_
      split_ifs at h
      · exact connectNotification_ne _ _ _ (eq_of_mem_appended h)
      · cases h
    obtain ⟨k', hk'⟩ := only z c old
    exact ⟨k', (linkedAs_same same z k' c).mpr
      ((linkedAs_enterPeer (ok.wf.conn i).tables (ok.waiting _ waits) k z k' c).mpr hk')⟩
  | missed _ _ server _ sent =>
    rw [sent] at hmem
    rw [server]
    exact only z c hmem
  | @met i j p q looks found same _ sent =>
    have hne := (ok.distinct _ (ok.asked_of_stage looks)).symm
    have now := linkedAs_linkPair (ok.wf.conn i).tables (ok.wf.conn j).tables hne
      (ok.looking _ _ looks) found
    simp only [linkedAs_same same, now]
    rw [sent, List.mem_append] at hmem
    rcases hmem with old | new
    · obtain ⟨k, x, hx, h2, hc⟩ := only z c old
      refine ⟨k, ?_⟩
      split_ifs with back forth
      · grind [pciOf]
      · obtain ⟨rfl, rfl⟩ := forth
        simp [pciOf, ok.looking _ _ looks] at hx
        rw [hx, hc]
      · exact ⟨x, hx, h2, hc⟩
    · split_ifs at new with hzi hzj
      · subst z
        refine ⟨key j, ?_⟩
        rw [if_neg fun h => hne h.1.symm, if_pos ⟨rfl, rfl⟩]
        exact (connectNotification_inj.mp (eq_of_mem_appended new)).symm
      · subst z
        refine ⟨key i, ?_⟩
        rw [if_pos ⟨rfl, rfl⟩]
        exact (connectNotification_inj.mp (eq_of_mem_appended new)).symm
      · cases new
  | wrote same _ sent =>
    rw [sent] at hmem
    obtain ⟨k, hk⟩ := only z c hmem
    exact ⟨k, (linkedAs_same same z k c).mpr hk⟩

theorem RaceEffect.allTold (ok : RaceOk key asked r.server r.handler)
    (e : RaceEffect key r r' act) (room : Room r act) (told : AllTold key asked r) :
    AllTold key asked r' := by
  intro a b hab c hl
  cases e with
  | @entered i j _ _ k waits fresh same _ sent =>
    rw [linkedAs_same same, linkedAs_enterPeer (ok.wf.conn i).tables (ok.waiting _ waits)] at hl
    rw [sent]
    exact List.mem_append_left _ (told a b hab c hl)
  | missed _ _ server _ sent =>
    rw [server] at hl
    rw [sent]
    exact told a b hab c hl
  | @met i j p q looks found same _ sent =>
    have hne : j ≠ i := (ok.distinct _ (ok.asked_of_stage looks)).symm
    rw [linkedAs_same same, linkedAs_linkPair (ok.wf.conn i).tables (ok.wf.conn j).tables hne
      (ok.looking _ _ looks) found] at hl
    rw [sent, List.mem_append]
    split_ifs at hl with back forth
    · obtain ⟨rfl, -⟩ := back
      subst hl
      rw [if_neg hne, if_pos rfl]
      exact Or.inr (mem_appended room.2 _)
    · obtain ⟨rfl, -⟩ := forth
      subst hl
      rw [if_pos rfl]
      exact Or.inr (mem_appended room.1 _)
    · exact Or.inl (told a b hab c hl)
  | wrote same _ sent =>
    rw [linkedAs_same same] at hl
    rw [sent]
    exact told a b hab c hl

end Notified

section Race
variable {s : TCPServer} {acts : List RaceAct} {r : Race}

theorem race_ok (wf : s.WellFormed) (clients : Clients key asked s)
    (race : exec (raceStep key) (raceStart s asked) acts = some r) :
    RaceOk key asked r.server r.handler ∧ OnlyLinked r := by
  refine exec_invariant (P := fun r => RaceOk key asked r.server r.handler ∧ OnlyLinked r) ?_ ?_
    race
  · rintro r a r' ⟨ok, only⟩ h
    have e := raceStep_effect ok h
    exact ⟨e.ok ok, e.onlyLinked ok only⟩
  · refine ⟨raceStart_ok wf clients, ?_⟩
    intro z c hmem
    cases hmem

theorem race_told (wf : s.WellFormed) (clients : Clients key asked s)
    (race : exec (raceStep key) (raceStart s asked) acts = some r)
    (room : Along (raceStep key) Room (raceStart s asked) acts) : AllTold key asked r := by
  refine (exec_invariant_along (P := fun r => RaceOk key asked r.server r.handler ∧
    AllTold key asked r) ?_ ?_ room race).2
  · rintro r a r' ⟨ok, told⟩ hroom h
    have e := raceStep_effect ok h
    exact ⟨e.ok ok, e.allTold ok hroom told⟩
  · refine ⟨raceStart_ok wf clients, ?_⟩
    rintro i j hij c ⟨x, hx, -⟩
    rw [show pciOf (raceStart s asked).server i (key j) = none from (clients.apart _ hij).1] at hx
    cases hx

theorem handler_proceeds (ok : RaceOk key asked r.server r.handler) (i j : Nat) :
    (r.handler (i, j) = some .waiting →
      ∀ order, ∃ r', raceStep key r (.begin i j order) = some r') ∧
    ∀ p, r.handler (i, j) = some (.looking p) → ∃ r', raceStep key r (.look i j) = some r' := by
  refine ⟨?_, ?_⟩
  · intro waits order
    obtain ⟨-, hown, -, live⟩ := ok.wf.registered _ _ (ok.pair (ok.asked_of_stage waits)).1
    obtain ⟨res, hres⟩ := beginRouting_isSome hown (Or.inl ((ok.wf.conn i).opened live).1)
      order.keys (key j)
    exact ⟨_, by simp only [raceStep]; rw [if_pos waits, hres]; rfl⟩
  · intro p looks
    have mem := ok.asked_of_stage looks
    obtain ⟨hi, hj⟩ := ok.pair mem
    obtain ⟨lt, hown, -, live⟩ := ok.wf.registered _ _ hi
    obtain ⟨s', hs'⟩ := linkRouting_isSome (p := p) ok.wf lt hown
      (fun same => ok.distinct _ mem (client_inj hi hj same.symm))
      (Or.inl ((ok.wf.conn i).opened live).1)
    exact ⟨_, by simp only [raceStep, looks, hs']; rfl⟩

end Race

/-- However the handlers interleave, none fails, and when all are done the pairs
that asked for each other are linked and both sides told, and a request without
its counterpart has made an entry that waits, of which nobody is told. -/
theorem no_link_is_lost {es : List Event} {s : TCPServer}
    (run : exec next newTCPServer es = some s) {key : Nat → CryptoKey}
    {asked : Finset (Nat × Nat)} (clients : Clients key asked s) {acts : List RaceAct} {r : Race}
    (race : exec (raceStep key) (raceStart s asked) acts = some r)
    (room : Along (raceStep key) Room (raceStart s asked) acts) :
    (∀ i j, (r.handler (i, j) = some .waiting →
        ∀ order, ∃ r', raceStep key r (.begin i j order) = some r') ∧
      ∀ p, r.handler (i, j) = some (.looking p) →
        ∃ r', raceStep key r (.look i j) = some r') ∧
    ((∀ q ∈ asked, r.handler q = some .done) → ∀ i j, (i, j) ∈ asked →
      ((j, i) ∈ asked → ∃ x y, pciOf r.server i (key j) = some x ∧
        pciOf r.server j (key i) = some y ∧ x.status = 2 ∧ y.status = 2 ∧
        x.otherid = y.connid ∧ y.otherid = x.connid ∧
        connectNotification x.connid ∈ r.sent i ∧ connectNotification y.connid ∈ r.sent j) ∧
      ((j, i) ∉ asked → pciOf r.server j (key i) = none ∧
        ∃ x, pciOf r.server i (key j) = some x ∧ x.status = 1 ∧
          connectNotification x.connid ∉ r.sent i)) := by
  have wf := reachable_wellFormed run
  obtain ⟨ok, only⟩ := race_ok wf clients race
  refine ⟨handler_proceeds ok, ?_⟩
  intro finished i j mem
  have linked := linked_iff_both_asked wf clients race finished mem
  refine ⟨?_, ?_⟩
  · intro back
    have told := race_told wf clients race room
    obtain ⟨c, x, hx, h2, -⟩ := linked.mpr back
    obtain ⟨y, hy, hy2, cross, cross'⟩ := ok.linked _ mem x hx h2
    exact ⟨x, y, hx, hy, h2, hy2, cross, cross', told i j mem _ ⟨x, hx, h2, rfl⟩,
      told j i back _ ⟨y, hy, hy2, rfl⟩⟩
  · intro alone
    refine ⟨ok.silent _ mem alone, ?_⟩
    obtain ⟨x, hx⟩ := Option.ne_none_iff_exists'.mp (ok.done _ (finished _ mem))
    have single : x.status ≠ 2 := fun h2 => alone (linked.mp ⟨_, x, hx, h2, rfl⟩)
    obtain ⟨p, hp, rfl⟩ := pciOf_eq_some_iff.mp hx
    have okt := (ok.wf.conn i).tables
    refine ⟨_, hx, (okt.active _ _ hp).resolve_right single, ?_⟩
    intro hmem
    obtain ⟨k, y, hy, h2, hc⟩ := only _ _ hmem
    obtain ⟨q, hq, rfl⟩ := pciOf_eq_some_iff.mp hy
    obtain rfl := okt.connid_inj hq hp hc
    rw [Option.some.inj (hq.symm.trans hp)] at h2
    exact single h2

def threeClients : List Event := joins 0 1 ++ joins 1 2 ++ joins 2 3

def racers : Finset (Nat × Nat) := {(0, 1), (1, 0), (0, 2)}

def clientKey (i : Nat) : CryptoKey := keyOf (UInt8.ofNat (i + 1))

def interleaved : List RaceAct :=
  [.begin 0 1 natural, .begin 1 0 natural, .look 1 0, .begin 0 2 natural, .write 0, .look 0 1,
    .look 0 2]

theorem racers_clients : Clients clientKey racers (after threeClients) where
  registered := by decide +kernel
  distinct := by decide +kernel
  apart := by decide +kernel
  ids := by
    have run : exec next newTCPServer threeClients = some (after threeClients) :=
      exec_after (by decide +kernel)
    refine enough_ids (reachable_wellFormed run) ?_ ?_
    · intro i
      exact lt_of_le_of_lt (Finset.card_filter_le _ _) (by decide)
    · intro q hq k
      simp only [racers, Finset.mem_insert, Finset.mem_singleton] at hq
      rcases hq with rfl | rfl | rfl <;> rfl

def raceEnd : Race :=
  (exec (raceStep clientKey) (raceStart (after threeClients) racers) interleaved).getD
    (raceStart newTCPServer ∅)

/-- The first two are linked and told, and the request for the third waits. -/
theorem no_link_is_lost_interleaved :
    (∃ x y, pciOf raceEnd.server 0 (clientKey 1) = some x ∧
      pciOf raceEnd.server 1 (clientKey 0) = some y ∧ x.status = 2 ∧ y.status = 2 ∧
      x.otherid = y.connid ∧ y.otherid = x.connid ∧
      connectNotification x.connid ∈ raceEnd.sent 0 ∧
      connectNotification y.connid ∈ raceEnd.sent 1) ∧
    pciOf raceEnd.server 2 (clientKey 0) = none ∧
    ∃ x, pciOf raceEnd.server 0 (clientKey 2) = some x ∧ x.status = 1 ∧
      connectNotification x.connid ∉ raceEnd.sent 0 := by
  have run : exec next newTCPServer threeClients = some (after threeClients) :=
    exec_after (by decide +kernel)
  have race : exec (raceStep clientKey) (raceStart (after threeClients) racers) interleaved =
      some raceEnd := by
    have h : (exec (raceStep clientKey) (raceStart (after threeClients) racers)
      interleaved).isSome = true := by decide +kernel
    obtain ⟨r, hr⟩ := Option.isSome_iff_exists.mp h
    simp [raceEnd, hr]
  have room : Along (raceStep clientKey) Room (raceStart (after threeClients) racers)
      interleaved :=
    along_of_decide (by decide +kernel)
  obtain ⟨-, final⟩ := no_link_is_lost run racers_clients race room
  have finished : ∀ q ∈ racers, raceEnd.handler q = some .done := by decide +kernel
  exact ⟨(final finished 0 1 (by decide)).1 (by decide),
    (final finished 0 2 (by decide)).2 (by decide)⟩

end TcpServer
