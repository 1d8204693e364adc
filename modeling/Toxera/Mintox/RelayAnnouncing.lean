import Toxera.Mintox.RelayTables

/-!
# Announcing a connection id

A routing response and the data for its id reach the client through two queues that the
write loop selects from.
-/

namespace TcpServer

open CryptoCore Exec

variable {c c' : TCPSecureConn} {i : Nat} {order : RangeOrder} {pkt : Bytes} {s s' : TCPServer}

/-- The first part of a routing request, up to the routing response: the connection with
its new entry, the id that will be answered, and the new object. -/
def enterRouting (c : TCPSecureConn) (order : List UInt8) (peerpk : CryptoKey) :
    Option (TCPSecureConn × UInt8 × Option Nat) :=
  let fresh : TCPSecureConn × UInt8 × Option Nat :=
    let (ids, connid) := nextConnid c.tables.connIds order
    if connid = 0 then (c, 0, none)
    else
      let tables := { c.tables with connIds := ids }
      let tables := tables.enter ⟨peerpk, 1, 0, connid⟩
      ({ c with tables := tables }, connid, some c.tables.npci)
  match c.pubkey with
  | none => none
  | some self =>
    if peerpk = self then some (c, 0, none)
    else match c.tables.connInfos peerpk with
      | some p =>
        if (c.tables.pcis p).status > 0 then some (c, (c.tables.pcis p).connid, none)
        else some fresh
      | none => some fresh

inductive Handler where
  | idle
  | answering (connid : UInt8) (pk : CryptoKey) (p : Option Nat)
  | looking (p : Nat) (pk : CryptoKey)
  deriving DecidableEq

/-- After the response a handler with a new object goes on to look for the peer. -/
def Handler.answered (p : Option Nat) (pk : CryptoKey) : Handler :=
  match p with
  | none => .idle
  | some p => .looking p pk

def Handler.answers : Handler → Option UInt8
  | .answering connid _ _ => some connid
  | _ => none

inductive Written where
  | ctrl (pkt : Bytes)
  | data (pkt : Bytes)
  deriving DecidableEq

structure Relay where
  server : TCPServer
  handler : Nat → Handler
  /-- the write loop has written a data packet and empties the control queue -/
  flushing : Nat → Bool
  written : Nat → List Written

variable {r r' : Relay} {w : Written}

inductive RelayAct where
  | other (e : Event)
  | enter (i : Nat) (pkt : Bytes) (order : RangeOrder)
  | answer (i : Nat)
  | look (i : Nat)
  | selectCtrl (i : Nat)
  | selectData (i : Nat)
  | flush (i : Nat)
  | flushed (i : Nat)

/-- The events that are taken apart here: routing requests and the write loops. -/
def Event.split : Event → Bool
  | .recv _ pkt _ => pkt.head? = some 0
  | .takeCtrl _ => true
  | .takeData _ => true
  | _ => false

def Event.reader : Event → Option Nat
  | .handshake i _ => some i
  | .confirm i _ => some i
  | .recv i _ _ => some i
  | .readEnd i => some i
  | _ => none

def Relay.setHandler (r : Relay) (i : Nat) (s : TCPServer) (h : Handler) : Relay :=
  { r with server := s, handler := Function.update r.handler i h }

/-- The write loop of `i` puts the next packet of the control queue on the socket. -/
def Relay.writeCtrl (r : Relay) (i : Nat) : Option Relay :=
  ((r.server.conn i).cwctrlq.recv).map fun q =>
    { r with
      server := r.server.setConn i { r.server.conn i with cwctrlq := q.2 }
      written := Function.update r.written i (r.written i ++ [.ctrl q.1]) }

def Relay.writeData (r : Relay) (i : Nat) : Option Relay :=
  ((r.server.conn i).cwdataq.recv).map fun q =>
    { r with
      server := r.server.setConn i { r.server.conn i with cwdataq := q.2 }
      flushing := Function.update r.flushing i true
      written := Function.update r.written i (r.written i ++ [.data q.1]) }

def relayStep (r : Relay) : RelayAct → Option Relay
  | .other e =>
    if e.split = false ∧ (e.reader.all fun i => r.handler i = .idle) = true then
      (next r.server e).map fun s => { r with server := s }
    else none
  | .enter i pkt order =>
    if Enabled r.server (.recv i pkt order) ∧ r.handler i = .idle ∧ pkt.head? = some 0 ∧
        1 + publicKeySize ≤ pkt.length then
      (requestKey pkt).bind fun pk =>
        (enterRouting (r.server.conn i) order.keys pk).map fun e =>
          r.setHandler i (r.server.setConn i e.1) (.answering e.2.1 pk e.2.2)
    else none
  | .answer i =>
    match r.handler i with
    | .answering connid pk p =>
      if i < r.server.accepted then
        (sendRoutingResponse (r.server.conn i) connid pk).map fun c =>
          r.setHandler i (r.server.setConn i c) (.answered p pk)
      else none
    | _ => none
  | .look i =>
    match r.handler i with
    | .looking p pk =>
      if i < r.server.accepted then
        (linkRouting r.server i p pk).map fun s => r.setHandler i s .idle
      else none
    | _ => none
  | .selectCtrl i =>
    if i < r.server.accepted ∧ r.flushing i = false then r.writeCtrl i else none
  | .selectData i =>
    if i < r.server.accepted ∧ r.flushing i = false then r.writeData i else none
  | .flush i =>
    if i < r.server.accepted ∧ r.flushing i = true then r.writeCtrl i else none
  | .flushed i =>
    if r.flushing i = true ∧ (r.server.conn i).cwctrlq.buf = [] then
      some { r with flushing := Function.update r.flushing i false }
    else none

def relayStart : Relay where
  server := newTCPServer
  handler := fun _ => .idle
  flushing := fun _ => false
  written := fun _ => []

theorem enterRouting_cases (ok : c.tables.Consistent) {pk : CryptoKey}
    {r : TCPSecureConn × UInt8 × Option Nat} (h : enterRouting c order.keys pk = some r) :
    r.1 = c ∨ ∃ self k, c.pubkey = some self ∧ pk ≠ self ∧ c.tables.connInfos pk = none ∧
      c.tables.connIds k = some false ∧
      r.1 = { c with tables := c.tables.grant pk k } ∧ r.2.1 = k + numReservedPorts := by
  unfold enterRouting at h
  cases hkey : c.pubkey with
  | none => simp [hkey] at h
  | some self =>
    simp only [hkey] at h
    by_cases hself : pk = self
    · grind
    · rw [if_neg hself] at h
      cases hp : c.tables.connInfos pk with
      | some p =>
        have hact : (c.tables.pcis p).status > 0 := by
          rcases ok.active pk p hp with h1 | h1 <;> rw [h1] <;> decide
        simp only [hp, if_pos hact] at h
        cases h
        exact Or.inl rfl
      | none =>
        simp only [hp] at h
        rcases nextConnid_cases c.tables.connIds order.keys with ⟨k, -, hfree, heq⟩ | ⟨-, heq⟩
        · simp only [heq] at h
          split_ifs at h
          · cases h
            exact Or.inl rfl
          · cases h
            exact Or.inr ⟨self, k, rfl, hself, rfl, hfree, rfl, rfl⟩
        · grind

@[simp] theorem setHandler_server (r : Relay) (i : Nat) (s : TCPServer) (h : Handler) :
    (r.setHandler i s h).server = s := rfl

@[simp] theorem setHandler_self (r : Relay) (i : Nat) (s : TCPServer) (h : Handler) :
    (r.setHandler i s h).handler i = h := by
  simp [Relay.setHandler]

/-- No entry is made, no control packet is lost, and the new data packets are for entries. -/
structure TCPSecureConn.Follows (c c' : TCPSecureConn) : Prop where
  entries : ∀ k p, c'.tables.connInfos k = some p →
    c.tables.connInfos k = some p ∧ (c'.tables.pcis p).connid = (c.tables.pcis p).connid
  ctrl : ∀ pkt ∈ c.cwctrlq.buf, pkt ∈ c'.cwctrlq.buf
  data : ∀ pkt ∈ c'.cwdataq.buf, pkt ∈ c.cwdataq.buf ∨
    ∃ k p rest, c.tables.connInfos k = some p ∧ pkt = (c.tables.pcis p).connid :: rest

theorem TCPSecureConn.Follows.of_same (tables : c'.tables = c.tables)
    (ctrl : c'.cwctrlq.buf = c.cwctrlq.buf) (data : c'.cwdataq.buf = c.cwdataq.buf) :
    c.Follows c' := by
  refine ⟨fun k p h => ?_, fun pkt h => ctrl ▸ h, fun pkt h => Or.inl (data ▸ h)⟩
  rw [tables] at h ⊢
  exact ⟨h, rfl⟩

theorem TCPSecureConn.Follows.trans {a b : TCPSecureConn} (h : a.Follows b) (h' : b.Follows c) :
    a.Follows c := by
  refine ⟨fun k p hp => ?_, fun pkt hp => h'.ctrl pkt (h.ctrl pkt hp), fun pkt hp => ?_⟩
  · obtain ⟨before, same'⟩ := h'.entries k p hp
    obtain ⟨entry, same⟩ := h.entries k p before
    exact ⟨entry, same'.trans same⟩
  · rcases h'.data pkt hp with before | ⟨k, p, rest, entry', rfl⟩
    · exact h.data pkt before
    · obtain ⟨entry, same⟩ := h.entries k p entry'
      exact Or.inr ⟨k, p, rest, entry, by rw [same]⟩

theorem sendCtrlPacket_follows {data : Bytes} (h : sendCtrlPacket c data = some c') :
    c.Follows c' := by
  obtain ⟨q, rfl, -, -, buf⟩ := sendCtrlPacket_spec h
  refine ⟨fun k p hp => ⟨hp, rfl⟩, fun pkt hp => ?_, fun pkt hp => Or.inl hp⟩
  rw [buf]
  split_ifs
  · exact List.mem_append_left _ hp
  · exact hp

theorem follows_steps : ConnSteps TCPSecureConn.Follows where
  refl := fun _ => .of_same rfl rfl rfl
  trans := .trans
  modify := fun c p f kept => by
    refine ⟨fun k q hq => ⟨hq, ?_⟩, fun pkt hp => hp, fun pkt hp => Or.inl hp⟩
    by_cases same : q = p
    · subst q
      simp [RoutingTables.modifyPci, kept]
    · simp [RoutingTables.modifyPci, same]
  ctrl := sendCtrlPacket_follows
  data := fun {c c' k p data} entry h => by
    obtain ⟨q, rfl, -, -, buf⟩ := sendDataPacket_spec h
    refine ⟨fun k p hp => ⟨hp, rfl⟩, fun pkt hp => hp, fun pkt hp => ?_⟩
    rw [buf] at hp
    split_ifs at hp
    · rcases List.mem_append.mp hp with before | new
      · exact Or.inl before
      · grind
    · exact Or.inl hp

theorem finishClose_follows (c : TCPSecureConn) : c.Follows (finishClose c) := by
  have closed : ∀ {q q' : Chan Bytes}, q.close = some q' → q'.buf = q.buf := by
    intro q q' h
    unfold Chan.close at h
    split_ifs at h
    cases h
    rfl
  unfold finishClose
  simp only
  split
  · exact .of_same rfl rfl rfl
  · rename_i ctrl
    split
    · exact .of_same rfl (closed ctrl) rfl
    · rename_i data
      split
      · exact .of_same rfl (closed ctrl) (closed data)
      · exact .of_same rfl (closed ctrl) (closed data)

theorem setConn_follows (h : (s.conn i).Follows c) (x : Nat) :
    (s.conn x).Follows ((s.setConn i c).conn x) :=
  (follows_steps.setConn h).conn x

theorem setConn_follows_of_same (tables : c.tables = (s.conn i).tables)
    (ctrl : c.cwctrlq.buf = (s.conn i).cwctrlq.buf) (data : c.cwdataq.buf = (s.conn i).cwdataq.buf)
    (x : Nat) : (s.conn x).Follows ((s.setConn i c).conn x) :=
  setConn_follows (.of_same tables ctrl data) x

theorem doClose_follows (s : TCPServer) (i x : Nat) :
    (s.conn x).Follows ((doClose s i).conn x) := by
  have closing : ∀ x, (s.conn x).Follows
      ((s.setConn i { s.conn i with status := .noStatus }).conn x) :=
    setConn_follows_of_same (by rfl) (by rfl) (by rfl)
  have called := follows_steps.onConnClosed (s.setConn i { s.conn i with status := .noStatus }) i x
  unfold doClose
  simp only
  split_ifs
  · cases call : onConnClosed (s.setConn i { s.conn i with status := .noStatus }) i with
    | error t =>
      rw [call] at called
      exact (closing x).trans called
    | ok t =>
      rw [call] at called
      exact ((closing x).trans called).trans (setConn_follows (finishClose_follows _) x)
  · exact (closing x).trans (setConn_follows (finishClose_follows _) x)

theorem onConnConfirmed_follows (h : onConnConfirmed s i = some s') (x : Nat) :
    (s.conn x).Follows (s'.conn x) := by
  unfold onConnConfirmed at h
  simp only at h
  split at h
  · cases h
  · rename_i binpk _
    cases h
    simp only
    split
    · exact .of_same rfl rfl rfl
    · rename_i oc _
      -- the connection that had the key loses its callback and is closed
      have quiet : (s.conn oc).Follows { s.conn oc with onClosed := false } :=
        .of_same rfl rfl rfl
      have kept := setConn_follows (s := { s with
        hsConns := s.hsConns.erase i, conns := s.conns.erase binpk }) quiet x
      exact kept.trans (doClose_follows _ oc x)

theorem confirmStep_follows {plnpkt : Bytes} (h : confirmStep s i plnpkt = some s') (x : Nat) :
    (s.conn x).Follows (s'.conn x) := by
  unfold confirmStep at h
  split at h
  · cases h
  · obtain ⟨c, pong, h⟩ := Option.bind_eq_some_iff.mp h
    obtain ⟨s₂, called, rfl⟩ := Option.map_eq_some_iff.mp h
    have confirmed : c.Follows { c with status := .confirmed } := .of_same rfl rfl rfl
    have answered : (s.conn x).Follows ((s.setConn i { c with status := .confirmed }).conn x) :=
      setConn_follows ((sendCtrlPacket_follows pong).trans confirmed) x
    have callback : ((s.setConn i { c with status := .confirmed }).conn x).Follows (s₂.conn x) := by
      split_ifs at called
      · exact onConnConfirmed_follows called x
      · cases called
        exact .of_same rfl rfl rfl
    exact (answered.trans callback).trans (setConn_follows_of_same (by rfl) (by rfl) (by rfl) x)

theorem next_follows (wf : s.WellFormed) {e : Event} (whole : e.split = false)
    (h : next s e = some s') (x : Nat) : (s.conn x).Follows (s'.conn x) := by
  obtain ⟨-, h⟩ := next_eq_some_iff.mp h
  cases e with
  | accept =>
    cases h
    rw [startHandshake_conn wf]
    exact .of_same rfl rfl rfl
  | handshake i pk =>
    cases h
    exact setConn_follows_of_same (by rfl) (by rfl) (by rfl) x
  | confirm i plnpkt => exact confirmStep_follows h x
  | recv i pkt order =>
    have other : pkt.head? ≠ some 0 := of_decide_eq_false whole
    exact (follows_steps.dispatch other h).conn x
  | readEnd i =>
    cases h
    exact (doClose_follows s i x).trans (setConn_follows_of_same (by rfl) (by rfl) (by rfl) x)
  | loopEnd i =>
    cases h
    exact doClose_follows s i x
  | takeCtrl i => cases whole
  | takeData i => cases whole

/-- The response for the id is on the socket, in the control queue, or about to be sent. -/
def Announced (r : Relay) (i : Nat) (c : UInt8) : Prop :=
  ∃ pk, Written.ctrl (routingResponse c pk) ∈ r.written i ∨
    routingResponse c pk ∈ (r.server.conn i).cwctrlq.buf ∨ ∃ p, r.handler i = .answering c pk p

theorem Announced.mono {c : UInt8} (h : Announced r i c)
    (written : ∀ w ∈ r.written i, w ∈ r'.written i)
    (queued : ∀ pkt ∈ (r.server.conn i).cwctrlq.buf,
      pkt ∈ (r'.server.conn i).cwctrlq.buf ∨ .ctrl pkt ∈ r'.written i)
    (handled : ∀ connid pk p, r.handler i = .answering connid pk p →
      r'.handler i = .answering connid pk p ∨
      routingResponse connid pk ∈ (r'.server.conn i).cwctrlq.buf) : Announced r' i c := by
  obtain ⟨pk, sent | waits | ⟨p, busy⟩⟩ := h
  · exact ⟨pk, Or.inl (written _ sent)⟩
  · rcases queued _ waits with still | sent
    · exact ⟨pk, Or.inr (Or.inl still)⟩
    · exact ⟨pk, Or.inl sent⟩
  · rcases handled _ _ _ busy with still | waits
    · exact ⟨pk, Or.inr (Or.inr ⟨p, still⟩)⟩
    · exact ⟨pk, Or.inr (Or.inl waits)⟩

def AnnouncedFirst (l : List Written) : Prop :=
  ∀ pre pkt post, l = pre ++ .data pkt :: post →
    ∃ c rest pk, pkt = c :: rest ∧ Written.ctrl (routingResponse c pk) ∈ pre

theorem AnnouncedFirst.snoc {l : List Written} (h : AnnouncedFirst l)
    (last : ∀ pkt, w = .data pkt →
      ∃ c rest pk, pkt = c :: rest ∧ Written.ctrl (routingResponse c pk) ∈ l) :
    AnnouncedFirst (l ++ [w]) := by
  intro pre pkt post split
  rcases List.eq_nil_or_concat post with rfl | ⟨post, w', rfl⟩
  · obtain ⟨rfl, same⟩ := List.append_inj' split rfl
    exact last pkt (List.head_eq_of_cons_eq same)
  · rw [List.concat_eq_append, ← List.cons_append, ← List.append_assoc] at split
    obtain ⟨rfl, -⟩ := List.append_inj' split rfl
    exact h pre pkt post rfl

structure Announcing (r : Relay) : Prop where
  wf : r.server.WellFormed
  entries : ∀ i k p, (r.server.conn i).tables.connInfos k = some p →
    Announced r i ((r.server.conn i).tables.pcis p).connid
  data : ∀ i, ∀ pkt ∈ (r.server.conn i).cwdataq.buf, ∃ c rest, pkt = c :: rest ∧ Announced r i c
  ordered : ∀ i, AnnouncedFirst (r.written i)

theorem relayStart_announcing : Announcing relayStart where
  wf := newTCPServer_wellFormed
  entries := fun _ _ _ h => by cases h
  data := fun _ _ h => by cases h
  ordered := fun _ pre _ _ h => by
    cases pre <;> cases h

theorem Announcing.step (h : Announcing r) (wf : r'.server.WellFormed)
    (entries : ∀ i k p, (r'.server.conn i).tables.connInfos k = some p →
      Announced r' i ((r'.server.conn i).tables.pcis p).connid ∨
      (r.server.conn i).tables.connInfos k = some p ∧
      ((r'.server.conn i).tables.pcis p).connid = ((r.server.conn i).tables.pcis p).connid)
    (data : ∀ i, ∀ pkt ∈ (r'.server.conn i).cwdataq.buf, pkt ∈ (r.server.conn i).cwdataq.buf ∨
      ∃ k p rest, (r.server.conn i).tables.connInfos k = some p ∧
      pkt = ((r.server.conn i).tables.pcis p).connid :: rest)
    (kept : ∀ i c, Announced r i c → Announced r' i c)
    (ordered : ∀ i, AnnouncedFirst (r'.written i)) : Announcing r' := by
  refine ⟨wf, fun i k p hp => ?_, fun i pkt hp => ?_, ordered⟩
  · rcases entries i k p hp with told | ⟨before, same⟩
    · exact told
    · rw [same]
      exact kept i _ (h.entries i k p before)
  · rcases data i pkt hp with before | ⟨k, p, rest, entry, rfl⟩
    · obtain ⟨c, rest, rfl, told⟩ := h.data i pkt before
      exact ⟨c, rest, rfl, kept i c told⟩
    · exact ⟨_, rest, rfl, kept i _ (h.entries i k p entry)⟩

theorem Announcing.follow (h : Announcing r) {handler : Nat → Handler} (wf : s.WellFormed)
    (follows : ∀ i, (r.server.conn i).Follows (s.conn i))
    (handled : ∀ i connid pk p, r.handler i = .answering connid pk p →
      handler i = .answering connid pk p ∨ routingResponse connid pk ∈ (s.conn i).cwctrlq.buf) :
    Announcing { r with server := s, handler := handler } := by
  refine h.step wf (fun i k p hp => Or.inr ((follows i).entries k p hp))
    (fun i => (follows i).data) ?_ h.ordered
  intro i c told
  exact told.mono (fun _ hw => hw) (fun pkt hp => Or.inl ((follows i).ctrl pkt hp)) (handled i)

def HasRoom (r : Relay) : RelayAct → Prop
  | .answer i => (r.server.conn i).cwctrlq.buf.length < (r.server.conn i).cwctrlq.cap
  | _ => True

/-- The select takes a data packet only when no response for its id is in the control queue
and the handler is not about to send one. -/
def CtrlFirst (r : Relay) : RelayAct → Prop
  | .selectData i =>
    ∀ c ∈ (r.server.conn i).cwdataq.buf.head?.bind List.head?,
      (∀ pkt ∈ (r.server.conn i).cwctrlq.buf, pkt.take 2 ≠ [1, c]) ∧ (r.handler i).answers ≠ some c
  | _ => True

instance (r : Relay) : (a : RelayAct) → Decidable (HasRoom r a)
  | .answer _ => inferInstanceAs (Decidable (_ < _))
  | .other _ | .enter _ _ _ | .look _ | .selectCtrl _ | .selectData _ | .flush _ | .flushed _ =>
    inferInstanceAs (Decidable True)

instance (r : Relay) : (a : RelayAct) → Decidable (CtrlFirst r a)
  | .selectData _ => inferInstanceAs (Decidable (∀ c ∈ _, _ ∧ _))
  | .other _ | .enter _ _ _ | .answer _ | .look _ | .selectCtrl _ | .flush _ | .flushed _ =>
    inferInstanceAs (Decidable True)

theorem Announcing.enter (h : Announcing r) (step : relayStep r (.enter i pkt order) = some r') :
    Announcing r' := by
  simp only [relayStep] at step
  split_ifs at step with ready
  obtain ⟨⟨hi, -, confirmed⟩, idle, -⟩ := ready
  obtain ⟨pk, -, step⟩ := Option.bind_eq_some_iff.mp step
  obtain ⟨⟨c, connid, p⟩, entered, rfl⟩ := Option.map_eq_some_iff.mp step
  have handled : ∀ j connid' pk' p', r.handler j = .answering connid' pk' p' →
      Function.update r.handler i (.answering connid pk p) j = .answering connid' pk' p' := by
    intro j connid' pk' p' busy
    have hj : j ≠ i := by grind
    rw [Function.update_of_ne hj, busy]
  rcases enterRouting_cases (h.wf.conn i).tables entered with
    same | ⟨self, k, key, other, new, free, same, id⟩
  · obtain rfl : c = r.server.conn i := same
    have unchanged : r.server.setConn i (r.server.conn i) = r.server := by
      simp [TCPServer.setConn]
    rw [unchanged]
    exact h.follow h.wf (fun j => .of_same rfl rfl rfl)
      fun j connid' pk' p' busy => Or.inl (handled j connid' pk' p' busy)
  · obtain rfl : c = { r.server.conn i with tables := (r.server.conn i).tables.grant pk k } := same
    obtain rfl : connid = k + numReservedPorts := id
    have told : Announced (r.setHandler i (r.server.enterPeer i pk k)
        (.answering (k + numReservedPorts) pk p)) i (k + numReservedPorts) :=
      ⟨pk, Or.inr (Or.inr ⟨p, setHandler_self _ _ _ _⟩)⟩
    refine h.step (h.wf.enterPeer hi confirmed ⟨key, other, new, free⟩) ?_ ?_ ?_ h.ordered
    · intro j k' q hq
      by_cases hj : j = i
      · subst j
        simp only [setHandler_server, setConn_self, RoutingTables.grant_connInfos,
          RoutingTables.grant_pcis] at hq ⊢
        by_cases hnew : q = (r.server.conn i).tables.npci
        · rw [hnew, Function.update_self]
          exact Or.inl told
        · rw [Function.update_of_ne hnew]
          rcases Pointwise.update_some hq with ⟨-, rfl⟩ | ⟨-, before⟩
          · exact absurd rfl hnew
          · exact Or.inr ⟨before, rfl⟩
      · rw [setHandler_server, setConn_ne _ _ hj] at hq ⊢
        exact Or.inr ⟨hq, rfl⟩
    · intro j pkt' hp
      refine Or.inl ?_
      by_cases hj : j = i
      · subst j
        rwa [setHandler_server, setConn_self] at hp
      · rwa [setHandler_server, setConn_ne _ _ hj] at hp
    · intro j c before
      refine before.mono (fun _ hw => hw) (fun pkt' hp => Or.inl ?_) fun connid' pk' p' busy =>
        Or.inl (handled j connid' pk' p' busy)
      by_cases hj : j = i
      · subst j
        rwa [setHandler_server, setConn_self]
      · rwa [setHandler_server, setConn_ne _ _ hj]

theorem Announcing.answer (h : Announcing r) (room : HasRoom r (.answer i))
    (step : relayStep r (.answer i) = some r') : Announcing r' := by
  simp only [relayStep] at step
  split at step
  · rename_i connid pk p busy
    split_ifs at step with hi
    obtain ⟨c, sent, rfl⟩ := Option.map_eq_some_iff.mp step
    have queued : routingResponse connid pk ∈ c.cwctrlq.buf := by
      have fits : (r.server.conn i).cwctrlq.buf.length < (r.server.conn i).cwctrlq.cap := room
      rw [sendCtrlPacket_buf (by rw [routingResponse_length]; omega) sent, queued, if_pos fits]
      exact List.mem_append_right _ (List.mem_singleton_self _)
    refine h.follow (h.wf.of_same (.setConn hi (sendCtrlPacket_same sent)))
      (setConn_follows (sendCtrlPacket_follows sent)) ?_
    intro j connid' pk' p' busy'
    by_cases hj : j = i
    · grind [setConn_self, queued]
    · rw [Function.update_of_ne hj]
      exact Or.inl busy'
  · cases step

theorem Announcing.look (h : Announcing r) (step : relayStep r (.look i) = some r') :
    Announcing r' := by
  simp only [relayStep] at step
  split at step
  · rename_i p pk busy
    split_ifs at step with hi
    obtain ⟨s, linked, rfl⟩ := Option.map_eq_some_iff.mp step
    have wf : s.WellFormed := by
      rcases linkRouting_cases h.wf hi linked with ⟨rfl, -⟩ | ⟨j, self, q, reg, -, -, same⟩
      · exact h.wf
      · exact (h.wf.linkPair hi (h.wf.registered pk j reg).1 p q).of_same same
    refine h.follow wf (follows_steps.linkRouting linked).conn ?_
    intro j connid' pk' p' busy'
    have hj : j ≠ i := by grind
    rw [Function.update_of_ne hj]
    exact Or.inl busy'
  · cases step

structure Writes (r r' : Relay) (i : Nat) (w : Written) : Prop where
  same : r.server.SameButQueues r'.server
  handler : r'.handler = r.handler
  written : r'.written = Function.update r.written i (r.written i ++ [w])
  ctrl : ∀ j, ∀ pkt ∈ (r.server.conn j).cwctrlq.buf,
    pkt ∈ (r'.server.conn j).cwctrlq.buf ∨ j = i ∧ w = .ctrl pkt
  data : ∀ j, ∀ pkt ∈ (r'.server.conn j).cwdataq.buf, pkt ∈ (r.server.conn j).cwdataq.buf

theorem writeCtrl_writes (hi : i < r.server.accepted) (h : r.writeCtrl i = some r') :
    ∃ pkt, Writes r r' i (.ctrl pkt) := by
  obtain ⟨⟨pkt, q⟩, taken, rfl⟩ := Option.map_eq_some_iff.mp h
  obtain ⟨buf, closed, -⟩ := Chan.recv_spec taken
  refine ⟨pkt, .setConn hi ⟨rfl, rfl, rfl, closed, rfl, rfl, rfl, rfl, rfl⟩, rfl, rfl, ?_, ?_⟩
  · intro j pkt' hp
    by_cases hj : j = i
    · subst j
      rw [buf] at hp
      simp only [setConn_self]
      rcases List.mem_cons.mp hp with rfl | later
      · exact Or.inr ⟨trivial, rfl⟩
      · exact Or.inl later
    · simp only [setConn_ne _ _ hj]
      exact Or.inl hp
  · intro j pkt' hp
    by_cases hj : j = i
    · subst j
      simpa only [setConn_self] using hp
    · simpa only [setConn_ne _ _ hj] using hp

theorem writeData_writes (hi : i < r.server.accepted) (h : r.writeData i = some r') :
    ∃ pkt rest, (r.server.conn i).cwdataq.buf = pkt :: rest ∧ Writes r r' i (.data pkt) := by
  obtain ⟨⟨pkt, q⟩, taken, rfl⟩ := Option.map_eq_some_iff.mp h
  obtain ⟨buf, closed, -⟩ := Chan.recv_spec taken
  refine ⟨pkt, q.buf, buf, .setConn hi ⟨rfl, rfl, rfl, rfl, closed, rfl, rfl, rfl, rfl⟩, rfl, rfl,
    ?_, ?_⟩
  · intro j pkt' hp
    refine Or.inl ?_
    by_cases hj : j = i
    · subst j
      simpa only [setConn_self] using hp
    · simpa only [setConn_ne _ _ hj] using hp
  · intro j pkt' hp
    by_cases hj : j = i
    · grind [setConn_self]
    · simpa only [setConn_ne _ _ hj] using hp

theorem Writes.keeps (h : Writes r r' i w) {j : Nat} {c : UInt8} (told : Announced r j c) :
    Announced r' j c := by
  refine told.mono (fun w' hw => ?_) (fun pkt hp => ?_) fun _ _ _ busy =>
    Or.inl (by rw [h.handler, busy])
  · rw [h.written]
    by_cases hj : j = i
    · grind
    · rwa [Function.update_of_ne hj]
  · rcases h.ctrl j pkt hp with still | ⟨rfl, rfl⟩
    · exact Or.inl still
    · refine Or.inr ?_
      rw [h.written, Function.update_self]
      exact List.mem_append_right _ (List.mem_singleton_self _)

theorem Announcing.writes (h : Announcing r) (writes : Writes r r' i w)
    (last : ∀ pkt, w = .data pkt →
      ∃ c rest pk, pkt = c :: rest ∧ Written.ctrl (routingResponse c pk) ∈ r.written i) :
    Announcing r' := by
  refine h.step (h.wf.of_same writes.same) ?_ (fun j pkt hp => Or.inl (writes.data j pkt hp))
    (fun j c told => writes.keeps told) ?_
  · intro j k p hp
    rw [(writes.same.conn j).tables] at hp ⊢
    exact Or.inr ⟨hp, rfl⟩
  · intro j
    rw [writes.written]
    by_cases hj : j = i
    · subst j
      rw [Function.update_self]
      exact (h.ordered i).snoc last
    · rw [Function.update_of_ne hj]
      exact h.ordered j

theorem Announcing.writeCtrl (h : Announcing r) (hi : i < r.server.accepted)
    (step : r.writeCtrl i = some r') : Announcing r' := by
  obtain ⟨pkt, writes⟩ := writeCtrl_writes hi step
  exact h.writes writes fun _ same => by cases same

theorem Announcing.writeData (h : Announcing r) (hi : i < r.server.accepted)
    (first : CtrlFirst r (.selectData i)) (step : r.writeData i = some r') : Announcing r' := by
  obtain ⟨pkt, rest, buf, writes⟩ := writeData_writes hi step
  refine h.writes writes fun pkt' same => ?_
  obtain rfl := Written.data.inj same
  obtain ⟨c, body, rfl, pk, sent | waits | ⟨p, busy⟩⟩ :=
    h.data i pkt (buf ▸ List.mem_cons_self)
  · exact ⟨c, body, pk, rfl, sent⟩
  · exact absurd rfl ((first c (by rw [buf]; rfl)).1 _ waits)
  · have idle := (first c (by rw [buf]; rfl)).2
    rw [busy] at idle
    exact absurd rfl idle

theorem relayStep_announcing {a : RelayAct} (h : Announcing r) (care : HasRoom r a ∧ CtrlFirst r a)
    (step : relayStep r a = some r') : Announcing r' := by
  cases a with
  | other e =>
    simp only [relayStep] at step
    split_ifs at step with ready
    obtain ⟨s, hs, rfl⟩ := Option.map_eq_some_iff.mp step
    exact h.follow (next_effect h.wf hs).1 (next_follows h.wf ready.1 hs)
      fun _ _ _ _ busy => Or.inl busy
  | enter i pkt order => exact h.enter step
  | answer i => exact h.answer care.1 step
  | look i => exact h.look step
  | selectCtrl i =>
    simp only [relayStep] at step
    split_ifs at step with ready
    exact h.writeCtrl ready.1 step
  | selectData i =>
    simp only [relayStep] at step
    split_ifs at step with ready
    exact h.writeData ready.1 care.2 step
  | flush i =>
    simp only [relayStep] at step
    split_ifs at step with ready
    exact h.writeCtrl ready.1 step
  | flushed i =>
    simp only [relayStep] at step
    split_ifs at step
    cases step
    exact ⟨h.wf, h.entries, h.data, h.ordered⟩

/-- While the queues have room and the select leaves unannounced data for later, every data
packet on a socket comes after the routing response for its id. -/
theorem announced_before_data {acts : List RelayAct} {r : Relay}
    (run : exec relayStep relayStart acts = some r)
    (care : Along relayStep (fun r a => HasRoom r a ∧ CtrlFirst r a) relayStart acts) (i : Nat) :
    AnnouncedFirst (r.written i) :=
  (exec_invariant_along (fun _ _ _ h care step => relayStep_announcing h care step)
    relayStart_announcing care run).ordered i

/-- Two clients that have asked for each other; the second then sends data to the first. -/
def dataForFirst : List RelayAct :=
  (joins 0 1 ++ joins 1 2).map .other ++
    [.enter 1 (0 :: (keyOf 1).val) natural, .answer 1, .look 1,
      .enter 0 (0 :: (keyOf 2).val) natural, .answer 0, .look 0, .other (sends 1 16 [42])]

def ctrlWrittenFirst : List RelayAct :=
  dataForFirst ++ [.selectCtrl 0, .selectCtrl 0, .selectData 0, .flush 0, .flushed 0]

theorem ctrl_written_first :
    ∃ r, exec relayStep relayStart ctrlWrittenFirst = some r ∧
      .data [16, 42] ∈ r.written 0 ∧ AnnouncedFirst (r.written 0) := by
  have written : (exec relayStep relayStart ctrlWrittenFirst).map (fun r => r.written 0) =
      some [.ctrl [5, 1], .ctrl (routingResponse 16 (keyOf 2)), .data [16, 42],
        .ctrl (connectNotification 16)] := by decide +kernel
  obtain ⟨r, run, written⟩ := Option.map_eq_some_iff.mp written
  refine ⟨r, run, ?_, announced_before_data run (along_of_decide (by decide +kernel)) 0⟩
  rw [written]
  decide

/-- The select takes the data while the response is still in the control queue. -/
theorem data_before_announcement :
    Along relayStep HasRoom relayStart (dataForFirst ++ [.selectData 0]) ∧
    ∃ r, exec relayStep relayStart (dataForFirst ++ [.selectData 0]) = some r ∧
      r.written 0 = [.data [16, 42]] ∧ ¬ AnnouncedFirst (r.written 0) := by
  refine ⟨along_of_decide (by decide +kernel), ?_⟩
  have written : (exec relayStep relayStart (dataForFirst ++ [.selectData 0])).map
      (fun r => r.written 0) = some [.data [16, 42]] := by decide +kernel
  obtain ⟨r, run, written⟩ := Option.map_eq_some_iff.mp written
  refine ⟨r, run, written, fun first => ?_⟩
  obtain ⟨c, rest, pk, -, told⟩ := first [] [16, 42] [] written
  cases told

end TcpServer
