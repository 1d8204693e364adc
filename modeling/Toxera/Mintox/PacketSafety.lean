import Toxera.Mintox.ClientRouting
import Toxera.Mintox.RelayDisconnect

/-!
# Packets that end the process

Neither endpoint recovers from a panic in its read loop, so a packet on which a handler
panics takes the whole process down.
-/

namespace TcpServer

open CryptoCore Exec

variable {i : Nat} {s s' : TCPServer}

def Keyed (s : TCPServer) : Prop :=
  ∀ i, (s.conn i).status ≠ .noStatus → ∃ k, (s.conn i).pubkey = some k

theorem Keyed.of_life (keyed : Keyed s)
    (h : ∀ i, (s.conn i).SameLife (s'.conn i) ∨ (s'.conn i).status = .noStatus ∨
      ∃ k, (s'.conn i).pubkey = some k) : Keyed s' := by
  intro i hst
  rcases h i with same | reset | known
  · rw [same.pubkey]
    exact keyed i (by rw [← same.status]; exact hst)
  · exact absurd reset hst
  · exact known

theorem next_keyed (wf : s.WellFormed) (keyed : Keyed s) {e : Event} (h : next s e = some s') :
    Keyed s' := by
  refine keyed.of_life fun x => ?_
  have life := next_life wf h x
  obtain ⟨enabled, h⟩ := next_eq_some_iff.mp h
  cases life with
  | same _ _ _ same => exact Or.inl same
  | greeted pk =>
    cases h
    exact Or.inr (Or.inr ⟨pk, by simp⟩)
  | confirmed plnpkt start _ key =>
    obtain ⟨k, hk⟩ := keyed x (by rw [start]; decide)
    exact Or.inr (Or.inr ⟨k, key.trans hk⟩)
  | replaced _ newer =>
    obtain ⟨i, plnpkt, k, rfl, other, live, key, registered⟩ := newer
    obtain ⟨k', c, known, -, -, -, -, others⟩ := confirmStep_live wf live enabled.2.2 h
    obtain rfl := Option.some.inj (known.symm.trans key)
    rw [others x other.symm, if_pos registered]
    exact Or.inr (Or.inl (closedConn_fields (s.conn x)).2.1)
  | closed _ _ status => exact Or.inr (Or.inl status)

theorem reachable_keyed {es : List Event} (run : exec next newTCPServer es = some s) : Keyed s := by
  refine (exec_invariant (P := fun s => s.WellFormed ∧ Keyed s) ?_ ⟨newTCPServer_wellFormed, ?_⟩
    run).2
  · rintro s e s' ⟨wf, keyed⟩ h
    exact ⟨(next_effect wf h).1, next_keyed wf keyed h⟩
  · intro i hst
    exact absurd rfl hst

theorem beginRouting_takes {c : TCPSecureConn} (ok : c.tables.Consistent) {order : RangeOrder}
    {pk : CryptoKey} {r : TCPSecureConn × Option Nat}
    (h : beginRouting c order.keys pk = some r) : c.Takes := by
  -- each way through answers with a packet that is not too long
  have answered : ∀ (c' c'' : TCPSecureConn) connid, c'.cwctrlq = c.cwctrlq →
      sendRoutingResponse c' connid pk = some c'' → c.Takes := by
    intro c' c'' connid same sent
    rcases (sendCtrlPacket_isSome_iff _ _).mp ⟨c'', sent⟩ with long | takes
    · rw [routingResponse_length] at long
      omega
    · rw [TCPSecureConn.Takes, same] at takes
      exact takes
  obtain ⟨-, -, ⟨-, connid, sent, -⟩ | ⟨-, -, -, -, sent⟩ | ⟨-, -, -, k, -, -, sent⟩⟩ :=
    beginRouting_cases ok h
  · exact answered _ _ _ rfl sent
  · exact answered _ _ _ rfl sent
  · refine answered _ _ _ ?_ sent
    rfl

theorem handleRoutingRequest_isSome_iff (wf : s.WellFormed) (keyed : Keyed s) (hi : i < s.accepted)
    (hst : (s.conn i).status = .confirmed) (order : RangeOrder) (rest : Bytes) :
    (∃ s', handleRoutingRequest s i order.keys (0 :: rest) = some s') ↔
      publicKeySize ≤ rest.length ∧ (s.conn i).Takes := by
  constructor
  · rintro ⟨s', h⟩
    unfold handleRoutingRequest at h
    split_ifs at h with short
    obtain ⟨pk, -, h⟩ := Option.bind_eq_some_iff.mp h
    obtain ⟨r, hr, -⟩ := Option.bind_eq_some_iff.mp h
    refine ⟨?_, beginRouting_takes (wf.conn i).tables hr⟩
    rw [List.length_cons] at short
    omega
  · rintro ⟨long, takes⟩
    obtain ⟨own, hown⟩ := keyed i (by rw [hst]; decide)
    have full : (rest.take publicKeySize).length = publicKeySize := by
      rw [List.length_take]
      omega
    have request : requestKey (0 :: rest) = some ⟨rest.take publicKeySize, full⟩ := by
      simp [requestKey, newCryptoKey, full]
    exact handleRoutingRequest_isSome wf order hi hst hown takes request

theorem handleRoutingData_isSome (wf : s.WellFormed) (keyed : Keyed s)
    (hst : (s.conn i).status = .confirmed) (connid : UInt8) (data : Bytes) :
    ∃ s', handleRoutingData s i (connid :: data) = some s' := by
  obtain ⟨own, hown⟩ := keyed i (by rw [hst]; decide)
  unfold handleRoutingData
  simp only [hown]
  cases hp : (s.conn i).tables.connInfos2 connid with
  | none => exact ⟨s, rfl⟩
  | some p =>
    simp only
    cases hj : s.conns.lookup ((s.conn i).tables.pcis p).pubkey with
    | none => exact ⟨s, rfl⟩
    | some j =>
      cases hq : (s.conn j).tables.connInfos own with
      | none => exact ⟨s, by simp only [hq]⟩
      | some q =>
        simp only [hq]
        have open_ := ((wf.conn j).opened (wf.registered _ j hj).2.2.2).2
        obtain ⟨c, hc⟩ := sendDataPacket_isSome open_ ((s.conn j).tables.pcis q).connid data
        exact ⟨_, Option.map_eq_some_iff.mpr ⟨c, hc, rfl⟩⟩

theorem handleDisconnectNotification_isSome_iff (wf : s.WellFormed) (i : Nat) (rest : Bytes) :
    (∃ s', handleDisconnectNotification s i (3 :: rest) = some s') ↔
      ∃ connid x, rest.head? = some connid ∧ pciById s i connid = some x := by
  have second : (3 :: rest)[1]? = rest.head? := by
    cases rest <;> rfl
  constructor
  · rintro ⟨s', h⟩
    obtain ⟨connid, p, hid, hp, -⟩ := handleDisconnectNotification_cases h
    exact ⟨connid, _, second.symm.trans hid, pciById_eq_some_iff.mpr ⟨p, hp, rfl⟩⟩
  · grind [pciById_eq_some_iff, handleDisconnectNotification_isSome]

def Harmless (s : TCPServer) (i : Nat) (plnpkt : Bytes) : Prop :=
  ∃ ptype rest, plnpkt = ptype :: rest ∧
    (ptype = 0 → publicKeySize ≤ rest.length ∧ (s.conn i).Takes) ∧
    (ptype = 3 → ∃ connid x, rest.head? = some connid ∧ pciById s i connid = some x) ∧
    (ptype = 4 → 2048 < 1 + rest.length ∨ (s.conn i).Takes)

theorem dispatch_isSome_iff (wf : s.WellFormed) (keyed : Keyed s) (hi : i < s.accepted)
    (hst : (s.conn i).status = .confirmed) (order : RangeOrder) (plnpkt : Bytes) :
    (∃ s', dispatch s i order.keys plnpkt = some s') ↔ Harmless s i plnpkt := by
  cases plnpkt with
  | nil => simp [dispatch, Harmless]
  | cons ptype rest =>
    have harmless : Harmless s i (ptype :: rest) ↔
        (ptype = 0 → publicKeySize ≤ rest.length ∧ (s.conn i).Takes) ∧
        (ptype = 3 → ∃ connid x, rest.head? = some connid ∧ pciById s i connid = some x) ∧
        (ptype = 4 → 2048 < 1 + rest.length ∨ (s.conn i).Takes) := by
      constructor
      · rintro ⟨p, r, heq, h⟩
        obtain ⟨rfl, rfl⟩ := List.cons.inj heq
        exact h
      · intro h
        exact ⟨ptype, rest, rfl, h⟩
    have others : ptype ≠ 0 → ptype ≠ 3 → ptype ≠ 4 → Harmless s i (ptype :: rest) :=
      fun h0 h3 h4 => harmless.mpr ⟨fun h => absurd h h0, fun h => absurd h h3,
        fun h => absurd h h4⟩
    rw [dispatch]
    by_cases ping : ptype = 4
    · rw [if_pos ping]
      subst ping
      have sent := sendCtrlPacket_isSome_iff (s.conn i) (5 :: rest)
      rw [List.length_cons, Nat.add_comm] at sent
      simp only [handlePingRequest, Option.map_eq_some_iff, List.drop_succ_cons, List.drop_zero,
        exists_comm (α := TCPServer), exists_and_left, exists_eq', and_true]
      rw [sent, harmless]
      simp
    by_cases pong : ptype = 5
    · rw [if_neg ping, if_pos pong]
      subst pong
      exact iff_of_true ⟨s, rfl⟩ (others (by decide) (by decide) (by decide))
    by_cases request : ptype = 0
    · rw [if_neg ping, if_neg pong, if_pos request]
      subst request
      rw [harmless, handleRoutingRequest_isSome_iff wf keyed hi hst]
      simp
    by_cases answer : ptype = 1 ∨ ptype = 2
    · rw [if_neg ping, if_neg pong, if_neg request, if_pos answer]
      refine iff_of_true ⟨s, rfl⟩ (others request ?_ ping)
      rcases answer with rfl | rfl <;> decide
    by_cases disconnect : ptype = 3
    · rw [if_neg ping, if_neg pong, if_neg request, if_neg answer, if_pos disconnect]
      subst disconnect
      rw [harmless, handleDisconnectNotification_isSome_iff wf]
      simp
    rw [if_neg ping, if_neg pong, if_neg request, if_neg answer, if_neg disconnect]
    split_ifs with todo data reserved
    · grind
    · exact iff_of_true (handleRoutingData_isSome wf keyed hst ptype rest)
        (others request disconnect ping)
    · grind
    · grind

/-- The number of control packets that a step has queued. -/
def ctrlQueued (s s' : TCPServer) : Nat :=
  ((List.range s.accepted).map fun j =>
    (s'.conn j).cwctrlq.buf.length - (s.conn j).cwctrlq.buf.length).sum

/-- The dispatch with a clock: `took n` is how many milliseconds the queueing of its control
packet `n` takes. `SendCtrlPacket` ends the process with `log.Fatalln` above five. -/
def timedDispatch (took : Nat → Nat) (s : TCPServer) (i : Nat) (order : List UInt8)
    (plnpkt : Bytes) : Option TCPServer :=
  (dispatch s i order plnpkt).bind fun s' =>
    if ∀ n < ctrlQueued s s', took n ≤ 5 then some s' else none

/-- No control packet that the handler queues takes too long. -/
def Prompt (took : Nat → Nat) (s : TCPServer) (i : Nat) (order : RangeOrder) (plnpkt : Bytes) :
    Prop :=
  ∀ s', dispatch s i order.keys plnpkt = some s' → ∀ n < ctrlQueued s s', took n ≤ 5

theorem ctrlQueued_eq_zero (same : ∀ j, (s'.conn j).cwctrlq = (s.conn j).cwctrlq) :
    ctrlQueued s s' = 0 := by
  simp [ctrlQueued, same]

theorem handleRoutingData_ctrlq {rpkt : Bytes} (h : handleRoutingData s i rpkt = some s')
    (j : Nat) :
    (s'.conn j).cwctrlq = (s.conn j).cwctrlq := by
  obtain ⟨_, _, -, ⟨rfl, -⟩ | ⟨_, k, _, _, c, -, -, -, -, sent, rfl⟩⟩ := handleRoutingData_cases h
  · rfl
  · obtain ⟨q, rfl, -⟩ := sendDataPacket_spec sent
    by_cases same : j = k
    · rw [same, setConn_self]
    · rw [setConn_ne _ _ same]

/-- Only requests, disconnect notifications and pings are answered with control packets. -/
theorem prompt_of_quiet {ptype : UInt8} (request : ptype ≠ 0) (disconnect : ptype ≠ 3)
    (ping : ptype ≠ 4) (took : Nat → Nat) (order : RangeOrder) (rest : Bytes) :
    Prompt took s i order (ptype :: rest) := by
  intro s' h
  have same : ∀ j, (s'.conn j).cwctrlq = (s.conn j).cwctrlq := by
    intro j
    rw [dispatch, if_neg ping, if_neg request, if_neg disconnect] at h
    split_ifs at h
    · cases h; rfl
    · cases h; rfl
    · cases h; rfl
    · exact handleRoutingData_ctrlq h j
    · cases h; rfl
  rw [ctrlQueued_eq_zero same]
  exact fun n none => absurd none (Nat.not_lt_zero n)

def confirmedClient : TcpClient.RoutingClient where
  toTCPClient := { TcpClient.newTCPClient plainBox (keyOf 1) (keyOf 2) (keyOf 3) with
    status := .confirmed }
  pingRequestId := 0
  conns := .new UInt8 CryptoKey
  sendq := ⟨[], false⟩
  callbacks := ⟨false, false, false, false⟩
  writable := rfl

end TcpServer
