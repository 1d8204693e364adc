import Toxera.Mintox.PacketSafety
import Toxera.Mintox.RelayRaces

/-!
# How many peers a connection can route to

No handler takes an entry out of the tables of a connection or marks an id as free again.
-/

namespace TcpServer

open CryptoCore Exec

variable {c : TCPSecureConn} {e : Event} {es : List Event} {i : Nat} {order : RangeOrder}
  {own pk : CryptoKey} {pkt : Bytes} {s s' : TCPServer}

/-- The peers that connection `i` routes to: from the routing request on, until either side
sends a disconnect notification or the connection of the peer closes. -/
def routedStep (i : Nat) (s : TCPServer) (e : Event) (peers : Finset CryptoKey) :
    Finset CryptoKey :=
  let without (key : Option CryptoKey) := match key with
    | none => peers
    | some k => peers.erase k
  match e with
  | .recv j pkt _ =>
    if pkt.head? = some 0 then
      match requestKey pkt with
      | none => peers
      | some pk => if j = i ∧ (s.conn i).pubkey ≠ some pk then insert pk peers else peers
    else if pkt.head? = some 3 then
      match pkt[1]?.bind (pciById s j) with
      | none => peers
      | some x =>
        if j = i then peers.erase x.pubkey
        else if (s.conn i).pubkey = some x.pubkey then without (s.conn j).pubkey
        else peers
    else peers
  | .readEnd j => without (s.conn j).pubkey
  | .loopEnd j => without (s.conn j).pubkey
  | .confirm j _ =>
    -- a connection that takes over the key closes the one that had it
    match (s.conn j).pubkey with
    | none => peers
    | some k => if (s.conns.lookup k).isSome then peers.erase k else peers
  | _ => peers

def routed (i : Nat) (es : List Event) : Finset CryptoKey :=
  tally next (routedStep i) newTCPServer es ∅

/-- The other peers that connection `i` has asked for, each where it was asked for first. -/
def askedStep (i : Nat) (s : TCPServer) (e : Event) (peers : List CryptoKey) : List CryptoKey :=
  match e with
  | .recv j pkt _ =>
    if j = i ∧ pkt.head? = some 0 then
      match requestKey pkt with
      | none => peers
      | some pk =>
        if (s.conn i).pubkey = some pk ∨ pk ∈ peers then peers else peers ++ [pk]
    else peers
  | _ => peers

def asked (i : Nat) (es : List Event) : List CryptoKey :=
  tally next (askedStep i) newTCPServer es []

def answeredId (c : TCPSecureConn) (order : List UInt8) (pk : CryptoKey) : UInt8 :=
  if c.pubkey = some pk then 0
  else
    match c.tables.connInfos pk with
    | some p =>
      if (c.tables.pcis p).status > 0 then (c.tables.pcis p).connid
      else (nextConnid c.tables.connIds order).2
    | none => (nextConnid c.tables.connIds order).2

theorem beginRouting_answers {order : List UInt8} {r : TCPSecureConn × Option Nat}
    (h : beginRouting c order pk = some r) :
    ∃ c₀, c₀.cwctrlq = c.cwctrlq ∧
      sendRoutingResponse c₀ (answeredId c order pk) pk = some r.1 := by
  have sent : ∀ (c₀ : TCPSecureConn) {connid : UInt8} {o : Option Nat},
      c₀.cwctrlq = c.cwctrlq → connid = answeredId c order pk →
      ((sendRoutingResponse c₀ connid pk).map fun c' => (c', o)) = some r →
      ∃ c₀, c₀.cwctrlq = c.cwctrlq ∧
        sendRoutingResponse c₀ (answeredId c order pk) pk = some r.1 := by
    rintro c₀ _ o same rfl h
    obtain ⟨c', sent, rfl⟩ := Option.map_eq_some_iff.mp h
    exact ⟨c₀, same, sent⟩
  unfold beginRouting at h
  unfold answeredId at sent ⊢
  cases hkey : c.pubkey with
  | none =>
    rw [hkey] at h
    cases h
  | some self =>
    simp only [hkey] at h sent ⊢
    by_cases hself : pk = self
    · rw [if_pos hself] at h
      rw [if_pos (congrArg some hself.symm)] at sent ⊢
      exact sent _ (by rfl) rfl h
    · have other : ¬ some self = some pk := fun h' => hself (Option.some.inj h').symm
      rw [if_neg hself] at h
      rw [if_neg other] at sent ⊢
      cases hp : c.tables.connInfos pk with
      | none =>
        simp only [hp] at h sent ⊢
        split_ifs at h with zero
        · exact sent _ (by rfl) zero.symm h
        · exact sent _ (by rfl) rfl h
      | some p =>
        simp only [hp] at h sent ⊢
        split_ifs at h with active zero
        · rw [if_pos active] at sent ⊢
          exact sent _ (by rfl) rfl h
        · rw [if_neg active] at sent ⊢
          exact sent _ (by rfl) zero.symm h
        · rw [if_neg active] at sent ⊢
          exact sent _ (by rfl) rfl h

theorem sendCtrlPacket_grows {c' : TCPSecureConn} {data : Bytes}
    (h : sendCtrlPacket c data = some c') : c.cwctrlq.buf <+: c'.cwctrlq.buf := by
  obtain ⟨q, rfl, -, -, buf⟩ := sendCtrlPacket_spec h
  simp only [buf]
  split_ifs
  · exact List.prefix_append _ _
  · exact List.prefix_refl _

theorem appends_steps : ConnSteps fun c c' => c.cwctrlq.buf <+: c'.cwctrlq.buf where
  refl := fun _ => List.prefix_refl _
  trans := List.IsPrefix.trans
  modify := fun _ _ _ _ => List.prefix_refl _
  ctrl := sendCtrlPacket_grows
  data := fun _ h => by
    obtain ⟨q, rfl, -⟩ := sendDataPacket_spec h
    exact List.prefix_refl _

theorem request_answered (head : pkt.head? = some 0) (request : requestKey pkt = some pk)
    (h : next s (.recv i pkt order) = some s') :
    Answered (s.conn i) (s'.conn i) (answeredId (s.conn i) order.keys pk) pk := by
  have handled := (request_of_recv head h).2.2
  unfold handleRoutingRequest at handled
  split_ifs at handled
  obtain ⟨pk', hpk', handled⟩ := Option.bind_eq_some_iff.mp handled
  obtain rfl := Option.some.inj (hpk'.symm.trans request)
  obtain ⟨r, hr, handled⟩ := Option.bind_eq_some_iff.mp handled
  obtain ⟨c₀, same, sent⟩ := beginRouting_answers hr
  have buf := sendCtrlPacket_buf (by rw [routingResponse_length]; omega) sent
  rw [same] at buf
  rw [Answered, ← buf]
  split at handled
  · cases handled
    rw [setConn_self]
  · have grows := (appends_steps.linkRouting handled).conn i
    rwa [setConn_self] at grows

theorem RoutingTables.Consistent.full_iff_card {t : RoutingTables} (ok : t.Consistent)
    {peers : Finset CryptoKey} (listed : ∀ k, t.connInfos k ≠ none ↔ k ∈ peers) :
    t.Full ↔ peers.card = 240 := by
  have count : peers.card = (connidKeys.toFinset.filter fun k => t.connIds k = some true).card := by
    refine Finset.card_bij' (fun k _ => ((t.connInfos k).elim 0 fun p => (t.pcis p).connid) -
      numReservedPorts) (fun c _ => ((t.connInfos2 (c + numReservedPorts)).elim zeroPci t.pcis).pubkey)
      ?_ ?_ ?_ ?_
    · intro k hk
      obtain ⟨p, hp⟩ := Option.ne_none_iff_exists'.mp ((listed k).mpr hk)
      have used := (ok.used _).mpr ⟨p, (ok.info k p hp).2⟩
      simp only [hp, Option.elim_some, Finset.mem_filter, List.mem_toFinset, mem_connidKeys]
      exact ⟨(ok.keys _).mp ⟨_, used⟩, used⟩
    · intro c hc
      obtain ⟨-, used⟩ := Finset.mem_filter.mp hc
      rw [← offset_sub c] at used
      obtain ⟨p, hp⟩ := (ok.used _).mp used
      simp only [hp, Option.elim_some]
      rw [← listed, (ok.info2 _ p hp).1]
      exact Option.some_ne_none p
    · intro k hk
      obtain ⟨p, hp⟩ := Option.ne_none_iff_exists'.mp ((listed k).mpr hk)
      simp only [hp, Option.elim_some, sub_offset, (ok.info k p hp).2]
      exact (ok.info k p hp).1
    · intro c hc
      obtain ⟨-, used⟩ := Finset.mem_filter.mp hc
      rw [← offset_sub c] at used
      obtain ⟨p, hp⟩ := (ok.used _).mp used
      simp only [hp, Option.elim_some, (ok.info2 _ p hp).1, (ok.info2 _ p hp).2, offset_sub]
  have all : (connidKeys.toFinset.filter fun k => t.connIds k = some true).card = 240 ↔
      ∀ k ∈ connidKeys.toFinset, t.connIds k = some true := by
    rw [← connidKeys_card]
    exact Finset.card_filter_eq_iff
  rw [ok.full_iff, count, all]
  refine forall_congr' fun k => ?_
  rw [List.mem_toFinset, mem_connidKeys]

/-- A step enters a peer exactly when it is an answered request for a new one that finds a
free id. -/
def Enters (s : TCPServer) (x : Nat) (k : CryptoKey) (e : Event) : Prop :=
  ∃ pkt order, e = .recv x pkt order ∧ pkt.head? = some 0 ∧ requestKey pkt = some k ∧
    (s.conn x).pubkey ≠ some k ∧ ¬ (s.conn x).tables.Full

theorem Fresh.enters_iff {c : UInt8} (fresh : Fresh s i own pk c)
    (ok : (s.conn i).tables.Consistent) (head : pkt.head? = some 0)
    (request : requestKey pkt = some pk) (x : Nat) (k : CryptoKey) :
    Enters s x k (.recv i pkt order) ↔ x = i ∧ k = pk := by
  constructor
  · rintro ⟨pkt', order', he, -, request', -⟩
    obtain ⟨rfl, rfl, -⟩ := Event.recv.inj he
    exact ⟨rfl, Option.some.inj (request'.symm.trans request)⟩
  · rintro ⟨rfl, rfl⟩
    refine ⟨pkt, order, rfl, head, request, ?_, ?_⟩
    · rw [fresh.key]
      exact fun h => fresh.other (Option.some.inj h).symm
    · rw [ok.full_iff]
      exact ok.not_all_taken ⟨c, fresh.free⟩

theorem next_listed (wf : s.WellFormed) (h : next s e = some s') (x : Nat) (k : CryptoKey) :
    pciOf s' x k ≠ none ↔ pciOf s x k ≠ none ∨ Enters s x k e := by
  have effect := (next_effect wf h).2
  cases effect with
  | quiet e idle reg pci =>
    rw [pci]
    refine ⟨Or.inl, ?_⟩
    rintro (listed | ⟨pkt, order, rfl, head, request, other, free⟩)
    · exact listed
    · obtain ⟨pk, own, hpk, hown, why⟩ := idle.1 head
      obtain rfl := Option.some.inj (hpk.symm.trans request)
      rcases why with rfl | listed | taken
      · exact absurd hown other
      · exact listed
      · exact absurd ((wf.conn x).tables.full_iff.mpr taken) free
  | register i plnpkt k' live status key reg pci =>
    rw [pci]
    exact ⟨Or.inl, fun h => h.resolve_right (by rintro ⟨pkt, order, he, -⟩; cases he)⟩
  | drop i e k' closes live key reg pci =>
    have kept : pciOf s' x k ≠ none ↔ pciOf s x k ≠ none := by
      rcases pci x k with ⟨-, -, reset⟩ | ⟨-, same⟩
      · rw [reset, ne_eq, Option.map_eq_none_iff]
      · rw [same]
    rw [kept]
    refine ⟨Or.inl, fun h => h.resolve_right ?_⟩
    rintro ⟨pkt, order, rfl, -⟩
    rcases closes with he | he <;> cases he
  | enter i pkt order own pk c head request fresh alone reg pci =>
    rw [fresh.enters_iff (wf.conn i).tables head request, pci]
    by_cases new : x = i ∧ k = pk
    · simp [new]
    · simp [new]
  | link i pkt order own pk c j y head request fresh peer apart listed reg pci =>
    rw [fresh.enters_iff (wf.conn i).tables head request, pci]
    by_cases theirs : x = j ∧ k = own
    · obtain ⟨rfl, rfl⟩ := theirs
      simp [listed]
    · by_cases new : x = i ∧ k = pk
      · rw [if_neg theirs, if_pos new]
        simp [new]
      · rw [if_neg theirs, if_neg new, or_iff_left new]
  | unlink i pkt order y z j head connid mine peer apart theirs crossed reg pci =>
    have kept : pciOf s' x k ≠ none ↔ pciOf s x k ≠ none := by
      rw [pci]
      by_cases other : x = j ∧ k = z.pubkey
      · obtain ⟨rfl, rfl⟩ := other
        simp [theirs]
      · by_cases own : x = i ∧ k = y.pubkey
        · grind
        · rw [if_neg other, if_neg own]
    rw [kept]
    refine ⟨Or.inl, fun h => h.resolve_right ?_⟩
    rintro ⟨pkt', order', he, head', -⟩
    obtain ⟨-, rfl, -⟩ := Event.recv.inj he
    rw [head] at head'
    cases head'

structure Firsts (es : List Event) (s : TCPServer) (i : Nat) : Prop where
  distinct : (asked i es).Nodup
  listed : ∀ k, pciOf s i k ≠ none ↔ k ∈ (asked i es).take 240

theorem Firsts.full_iff (h : Firsts es s i) (ok : (s.conn i).tables.Consistent) :
    (s.conn i).tables.Full ↔ 240 ≤ (asked i es).length := by
  have listed : ∀ k, (s.conn i).tables.connInfos k ≠ none ↔ k ∈ ((asked i es).take 240).toFinset := by
    intro k
    rw [List.mem_toFinset, ← h.listed, ne_eq, ne_eq, pciOf_eq_none_iff]
  rw [ok.full_iff_card listed,
    List.toFinset_card_of_nodup (h.distinct.sublist (List.take_sublist _ _)), List.length_take]
  omega

def Asks (i : Nat) (s : TCPServer) (e : Event) (k : CryptoKey) : Prop :=
  ∃ pkt order, e = .recv i pkt order ∧ pkt.head? = some 0 ∧ requestKey pkt = some k ∧
    (s.conn i).pubkey ≠ some k

theorem askedStep_cases (i : Nat) (s : TCPServer) (e : Event) (peers : List CryptoKey) :
    (askedStep i s e peers = peers ∧ ∀ k, Asks i s e k → k ∈ peers) ∨
    ∃ k, k ∉ peers ∧ askedStep i s e peers = peers ++ [k] ∧ ∀ k', Asks i s e k' ↔ k' = k := by
  by_cases asks : ∃ k, Asks i s e k
  · obtain ⟨k, pkt, order, rfl, head, request, other⟩ := asks
    have only : ∀ k', Asks i s (.recv i pkt order) k' ↔ k' = k := by
      intro k'
      constructor
      · rintro ⟨pkt', order', he, -, request', -⟩
        obtain ⟨-, rfl, -⟩ := Event.recv.inj he
        exact Option.some.inj (request'.symm.trans request)
      · rintro rfl
        exact ⟨pkt, order, rfl, head, request, other⟩
    by_cases known : k ∈ peers
    · grind [askedStep]
    · grind [askedStep]
  · refine Or.inl ⟨?_, fun k h => absurd ⟨k, h⟩ asks⟩
    unfold askedStep
    split
    · rename_i j pkt order
      split_ifs with mine
      · obtain ⟨rfl, head⟩ := mine
        cases request : requestKey pkt with
        | none => rfl
        | some k =>
          simp only
          rw [if_pos]
          by_contra other
          exact asks ⟨k, pkt, order, rfl, head, request, fun h => other (Or.inl h)⟩
      · rfl
    · rfl

theorem firsts_step (wf : s.WellFormed) (run : exec next newTCPServer es = some s)
    (h : Firsts es s i) (last : next s e = some s') : Firsts (es ++ [e]) s' i := by
  have more : asked i (es ++ [e]) = askedStep i s e (asked i es) := tally_snoc run last []
  have full := h.full_iff (wf.conn i).tables
  have enters : ∀ k, Enters s i k e ↔ Asks i s e k ∧ (asked i es).length < 240 := by
    intro k
    rw [← not_le, ← full]
    constructor
    · rintro ⟨pkt, order, he, head, request, other, free⟩
      exact ⟨⟨pkt, order, he, head, request, other⟩, free⟩
    · rintro ⟨⟨pkt, order, he, head, request, other⟩, free⟩
      exact ⟨pkt, order, he, head, request, other, free⟩
  rcases askedStep_cases i s e (asked i es) with ⟨same, known⟩ | ⟨k, new, added, asks⟩
  · rw [same] at more
    refine ⟨more ▸ h.distinct, fun k => ?_⟩
    rw [more, next_listed wf last, h.listed, or_iff_left_of_imp]
    intro entered
    obtain ⟨asks, few⟩ := (enters k).mp entered
    rw [List.take_of_length_le few.le]
    exact known k asks
  · rw [added] at more
    refine ⟨?_, fun k' => ?_⟩
    · rw [more]
      exact List.Nodup.append h.distinct (List.nodup_singleton k) (by simpa using new)
    · rw [more, next_listed wf last, h.listed, enters, asks]
      by_cases few : (asked i es).length < 240
      · have all : (asked i es ++ [k]).length ≤ 240 := by
          rw [List.length_append, List.length_singleton]
          omega
        rw [List.take_of_length_le all, List.take_of_length_le few.le, List.mem_append,
          List.mem_singleton, and_iff_left few]
      · grind

theorem reachable_firsts (run : exec next newTCPServer es = some s) (i : Nat) : Firsts es s i := by
  refine exec_history (P := fun es s => Firsts es s i) ?_ ?_ run
  · refine ⟨List.nodup_nil, fun k => ?_⟩
    simp [asked, tally, pciOf, newTCPServer, newTCPSecureConn, RoutingTables.empty]
  · intro es s e s' before h last
    exact firsts_step (reachable_wellFormed before) before h last

theorem answeredId_ne_zero_iff (wf : s.WellFormed) (i : Nat) (order : RangeOrder) (pk : CryptoKey) :
    answeredId (s.conn i) order.keys pk ≠ 0 ↔
      (s.conn i).pubkey ≠ some pk ∧ (pciOf s i pk ≠ none ∨ ¬ (s.conn i).tables.Full) := by
  have ok := (wf.conn i).tables
  unfold answeredId
  by_cases own : (s.conn i).pubkey = some pk
  · simp [own]
  · rw [if_neg own, and_iff_right own]
    cases hp : (s.conn i).tables.connInfos pk with
    | some p =>
      have active : ((s.conn i).tables.pcis p).status > 0 := by
        rcases ok.active pk p hp with h | h <;> rw [h] <;> decide
      have range := ok.range _ p (ok.info pk p hp).2
      have nonzero : ((s.conn i).tables.pcis p).connid ≠ 0 := by
        intro zero
        rw [zero] at range
        exact absurd range (by decide)
      simp [pciOf, hp, active, nonzero]
    | none =>
      have unlisted : pciOf s i pk = none := pciOf_eq_none_iff.mpr hp
      simp only [unlisted, ne_eq, not_true_eq_false, false_or, ok.full_iff]
      rcases nextConnid_cases (s.conn i).tables.connIds order.keys with
        ⟨k, hk, free, eq⟩ | ⟨taken, eq⟩
      · have small : k.toNat < 240 := (mem_connidKeys k).mp (order.perm.mem_iff.mp hk)
        rw [eq]
        exact iff_of_true (offset_ne_zero small) (ok.not_all_taken ⟨k, free⟩)
      · rw [eq]
        refine iff_of_false (fun h => h rfl) (not_not.mpr fun k small => ?_)
        obtain ⟨b, hb⟩ := (ok.keys k).mpr small
        cases b with
        | true => exact hb
        | false =>
          exact absurd hb (taken k (order.perm.mem_iff.mpr ((mem_connidKeys k).mpr small)))

theorem reachable_answeredId (run : exec next newTCPServer es = some s)
    (hown : (s.conn i).pubkey = some own) (order : RangeOrder) (pk : CryptoKey) :
    answeredId (s.conn i) order.keys pk ≠ 0 ↔
      pk ≠ own ∧ (pk ∈ (asked i es).take 240 ∨ (asked i es).length < 240) := by
  have wf := reachable_wellFormed run
  have firsts := reachable_firsts run i
  rw [answeredId_ne_zero_iff wf, firsts.listed, firsts.full_iff (wf.conn i).tables, hown, not_le]
  exact and_congr_left' (by rw [ne_eq, ne_eq, Option.some.injEq, eq_comm])

/-- A request is granted an id exactly when the peer is among the first 240 that the
connection has asked for, however few of them are still routed. -/
theorem request_granted_iff {es : List Event} {s s' : TCPServer}
    (run : exec next newTCPServer es = some s) {i : Nat} {pkt : Bytes} {order : RangeOrder}
    {own pk : CryptoKey} (hown : (s.conn i).pubkey = some own) (head : pkt.head? = some 0)
    (request : requestKey pkt = some pk) (h : next s (.recv i pkt order) = some s') :
    Answered (s.conn i) (s'.conn i) (answeredId (s.conn i) order.keys pk) pk ∧
    (answeredId (s.conn i) order.keys pk ≠ 0 ↔
      pk ≠ own ∧ (pk ∈ (asked i es).take 240 ∨ (asked i es).length < 240)) :=
  ⟨request_answered head request h, reachable_answeredId run hown order pk⟩

theorem first_request_granted :
    answeredId ((after (joins 0 1)).conn 0) natural.keys (keyOf 2) ≠ 0 := by
  have run : exec next newTCPServer (joins 0 1) = some (after (joins 0 1)) :=
    exec_after (by decide +kernel)
  have hown : ((after (joins 0 1)).conn 0).pubkey = some (keyOf 1) := by decide +kernel
  have request : requestKey (0 :: (keyOf 2).val) = some (keyOf 2) := by decide +kernel
  obtain ⟨s', h⟩ : ∃ s', next (after (joins 0 1)) (requests 0 2) = some s' :=
    request_processed (reachable_wellFormed run) (by decide +kernel) (by decide +kernel) rfl request
  exact (request_granted_iff run hown rfl request h).2.mpr
    ⟨by decide +kernel, Or.inr (by decide +kernel)⟩

structure Asking (s : TCPServer) (i : Nat) (own : CryptoKey) : Prop where
  reading : (s.conn i).reading = true
  status : (s.conn i).status = .confirmed
  live : (s.conn i).onClosed = true
  key : (s.conn i).pubkey = some own

theorem Asking.enabled (h : Asking s i own) (wf : s.WellFormed) (pkt : Bytes) (order : RangeOrder) :
    Enabled s (.recv i pkt order) := by
  refine ⟨?_, h.reading, h.status⟩
  by_contra beyond
  have status := h.status
  rw [wf.beyond i (not_lt.mp beyond)] at status
  cases status

theorem Asking.step (h : Asking s i own) (wf : s.WellFormed)
    (last : next s (.recv i pkt order) = some s') : Asking s' i own := by
  cases next_life wf last i with
  | same _ _ _ same =>
    exact ⟨same.reading.trans h.reading, same.status.trans h.status, same.onClosed.trans h.live,
      same.pubkey.trans h.key⟩
  | replaced _ newer =>
    obtain ⟨j, plnpkt, k, he, -⟩ := newer
    cases he
  | closed _ closes =>
    rcases closes with he | he <;> cases he

theorem requestKey_of_key (k : CryptoKey) : requestKey (0 :: k.val) = some k := by
  have whole : k.val.take publicKeySize = k.val := List.take_of_length_le k.property.le
  simp [requestKey, whole]

theorem ask_and_leave (run : exec next newTCPServer es = some s) {k : CryptoKey}
    (asking : Asking s i own) (other : k ≠ own) (new : k ∉ asked i es)
    (few : (asked i es).length < 240) (idle : routed i es = ∅) :
    ∃ es' s', exec next newTCPServer es' = some s' ∧ Asking s' i own ∧
      asked i es' = asked i es ++ [k] ∧ routed i es' = ∅ := by
  have wf := reachable_wellFormed run
  have request := requestKey_of_key k
  have notOwn : (s.conn i).pubkey ≠ some k := by
    rw [asking.key]
    exact fun h => other (Option.some.inj h).symm
  obtain ⟨s₁, h₁⟩ := request_processed wf (asking.enabled wf (0 :: k.val) natural) asking.live rfl
    request
  have run₁ := exec_snoc_iff.mpr ⟨s, run, h₁⟩
  have wf₁ := reachable_wellFormed run₁
  have asking₁ := asking.step wf h₁
  have asked₁ : asked i (es ++ [.recv i (0 :: k.val) natural]) = asked i es ++ [k] := by
    refine (tally_snoc run h₁ []).trans ?_
    change askedStep i s _ (asked i es) = _
    simp [askedStep, request, notOwn, new]
  have routed₁ : routed i (es ++ [.recv i (0 :: k.val) natural]) = {k} := by
    refine (tally_snoc run h₁ ∅).trans ?_
    change routedStep i s _ (routed i es) = _
    simp [routedStep, request, notOwn, idle]
  -- the new entry has an id, and the client sends it back
  obtain ⟨x, hx⟩ : ∃ x, pciOf s₁ i k = some x := by
    refine Option.ne_none_iff_exists'.mp (((reachable_firsts run₁ i).listed k).mpr ?_)
    rw [asked₁, List.take_of_length_le (by rw [List.length_append, List.length_singleton]; omega)]
    simp
  obtain ⟨p, hp, rfl⟩ := pciOf_eq_some_iff.mp hx
  obtain ⟨key, id⟩ := (wf₁.conn i).tables.info k p hp
  have bound : pciById s₁ i ((s₁.conn i).tables.pcis p).connid = some ((s₁.conn i).tables.pcis p) :=
    pciById_eq_some_iff.mpr ⟨p, id, rfl⟩
  obtain ⟨s₂, h₂⟩ : ∃ s₂, next s₁ (disconnects i ((s₁.conn i).tables.pcis p).connid) =
      some s₂ := by
    have enabled := asking₁.enabled wf₁ [3, ((s₁.conn i).tables.pcis p).connid] natural
    obtain ⟨s₂, h₂⟩ := (dispatch_isSome_iff wf₁ (reachable_keyed run₁) enabled.1 asking₁.status
      natural _).mpr ⟨3, [((s₁.conn i).tables.pcis p).connid], rfl, fun h => absurd h (by decide),
        fun _ => ⟨_, _, rfl, bound⟩, fun h => absurd h (by decide)⟩
    exact ⟨s₂, next_eq_some_iff.mpr ⟨enabled, h₂⟩⟩
  refine ⟨_, s₂, exec_snoc_iff.mpr ⟨s₁, run₁, h₂⟩, asking₁.step wf₁ h₂, ?_, ?_⟩
  · grind [tally_snoc, askedStep, asked, disconnects]
  · grind [tally_snoc, routedStep, routed, disconnects]

theorem keyOf_inj {a b : UInt8} (h : keyOf a = keyOf b) : a = b := by
  have heads := congrArg (fun k : CryptoKey => k.val.head?) h
  exact Option.some.inj heads

theorem asked_and_left (n : Nat) (few : n ≤ 240) :
    ∃ es s, exec next newTCPServer es = some s ∧ Asking s 0 (keyOf 255) ∧
      asked 0 es = (List.range n).map (fun b => keyOf (UInt8.ofNat b)) ∧ routed 0 es = ∅ := by
  induction n with
  | zero =>
    refine ⟨joins 0 255, after (joins 0 255), exec_after (by decide +kernel), ?_, ?_, ?_⟩
    · exact ⟨by decide +kernel, by decide +kernel, by decide +kernel, by decide +kernel⟩
    · decide +kernel
    · decide +kernel
  | succ n ih =>
    obtain ⟨es, s, run, asking, peers, idle⟩ := ih (by omega)
    have small : ∀ m, m ≤ 240 → (UInt8.ofNat m).toNat = m := by
      intro m hm
      rw [UInt8.toNat_ofNat']
      omega
    have other : keyOf (UInt8.ofNat n) ≠ keyOf 255 := by
      intro h
      have := congrArg UInt8.toNat (keyOf_inj h)
      rw [small n (by omega)] at this
      change n = 255 at this
      omega
    have new : keyOf (UInt8.ofNat n) ∉ asked 0 es := by
      rw [peers, List.mem_map]
      rintro ⟨m, hm, h⟩
      have := congrArg UInt8.toNat (keyOf_inj h)
      rw [List.mem_range] at hm
      rw [small n (by omega), small m (by omega)] at this
      omega
    obtain ⟨es', s', run', asking', peers', idle'⟩ := ask_and_leave run asking other new
      (by rw [peers, List.length_map, List.length_range]; omega) idle
    refine ⟨es', s', run', asking', ?_, idle'⟩
    rw [peers', peers, List.range_succ, List.map_append, List.map_singleton]

/-- A client that has left 240 peers routes to none, and its next request is answered zero. -/
theorem ids_run_out : ∃ es s s', exec next newTCPServer es = some s ∧
    (s.conn 0).pubkey = some (keyOf 255) ∧ routed 0 es = ∅ ∧
    next s (requests 0 240) = some s' ∧
    Answered (s.conn 0) (s'.conn 0) 0 (keyOf 240) ∧
    answeredId (s.conn 0) natural.keys (keyOf 240) = 0 := by
  obtain ⟨es, s, run, asking, peers, idle⟩ := asked_and_left 240 le_rfl
  have wf := reachable_wellFormed run
  have request := requestKey_of_key (keyOf 240)
  obtain ⟨s', h⟩ := request_processed wf (asking.enabled wf (0 :: (keyOf 240).val) natural)
    asking.live rfl request
  have full : (asked 0 es).length = 240 := by
    rw [peers, List.length_map, List.length_range]
  have zero : answeredId (s.conn 0) natural.keys (keyOf 240) = 0 := by
    by_contra granted
    obtain ⟨-, known | few⟩ := (reachable_answeredId run asking.key natural (keyOf 240)).mp granted
    · rw [List.take_of_length_le full.le, peers, List.mem_map] at known
      obtain ⟨m, hm, same⟩ := known
      have := congrArg UInt8.toNat (keyOf_inj same)
      rw [List.mem_range] at hm
      rw [UInt8.toNat_ofNat'] at this
      change m % 256 = 240 at this
      omega
    · omega
  have answered := request_answered rfl request h
  rw [zero] at answered
  exact ⟨es, s, s', run, asking.key, idle, h, answered, zero⟩

end TcpServer
