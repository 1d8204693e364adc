import Toxera.Mintox.RelayRegistry

/-!
# What a close releases

`doClose` calls back into the server before it closes the socket and the channels, under a
`recover` that skips the rest when the callback panics.
-/

namespace TcpServer

open CryptoCore Exec

structure TCPSecureConn.Shut (c : TCPSecureConn) : Prop where
  sock : c.sockClosed = true
  ctrl : c.cwctrlq.closed = true
  data : c.cwdataq.closed = true
  stop : c.stopC.closed = true

variable {c c' : TCPSecureConn} {data plnpkt : Bytes} {i x : Nat} {k : CryptoKey} {s s' : TCPServer}

structure Released (s : TCPServer) (i : Nat) : Prop where
  shut : (s.conn i).Shut
  shaking : i ∉ s.hsConns
  registered : ∀ k, s.conns.lookup k ≠ some i

structure TCPSecureConn.InOrder (c : TCPSecureConn) : Prop where
  ctrl : c.cwctrlq.closed = true → c.cwdataq.closed = true
  data : c.cwdataq.closed = true → c.stopC.closed = true

theorem TCPSecureConn.Shut.inOrder (h : c.Shut) : c.InOrder :=
  ⟨fun _ => h.data, fun _ => h.stop⟩

structure TCPSecureConn.SameEnds (c c' : TCPSecureConn) : Prop where
  sock : c'.sockClosed = c.sockClosed
  ctrl : c'.cwctrlq.closed = c.cwctrlq.closed
  data : c'.cwdataq.closed = c.cwdataq.closed
  stop : c'.stopC.closed = c.stopC.closed

theorem TCPSecureConn.SameEnds.refl (c : TCPSecureConn) : c.SameEnds c := ⟨rfl, rfl, rfl, rfl⟩

theorem TCPSecureConn.SameEnds.trans {a b : TCPSecureConn} (h : a.SameEnds b) (h' : b.SameEnds c) :
    a.SameEnds c :=
  ⟨h'.sock.trans h.sock, h'.ctrl.trans h.ctrl, h'.data.trans h.data, h'.stop.trans h.stop⟩

theorem TCPSecureConn.SameEnds.shut_iff (h : c.SameEnds c') : c'.Shut ↔ c.Shut := by
  constructor
  · intro ⟨sock, ctrl, data, stop⟩
    exact ⟨h.sock.symm.trans sock, h.ctrl.symm.trans ctrl, h.data.symm.trans data,
      h.stop.symm.trans stop⟩
  · intro ⟨sock, ctrl, data, stop⟩
    exact ⟨h.sock.trans sock, h.ctrl.trans ctrl, h.data.trans data, h.stop.trans stop⟩

theorem TCPSecureConn.SameEnds.inOrder_iff (h : c.SameEnds c') : c'.InOrder ↔ c.InOrder := by
  constructor
  · intro ⟨ctrl, data⟩
    rw [h.ctrl, h.data] at ctrl
    rw [h.data, h.stop] at data
    exact ⟨ctrl, data⟩
  · intro ⟨ctrl, data⟩
    refine ⟨?_, ?_⟩
    · rw [h.ctrl, h.data]
      exact ctrl
    · rw [h.data, h.stop]
      exact data

theorem sendCtrlPacket_ends (h : sendCtrlPacket c data = some c') : c.SameEnds c' := by
  obtain ⟨q, rfl, closed, -, -⟩ := sendCtrlPacket_spec h
  exact ⟨rfl, closed, rfl, rfl⟩

theorem sendDataPacket_ends {connid : UInt8} (h : sendDataPacket c connid data = some c') :
    c.SameEnds c' := by
  obtain ⟨q, rfl, closed, -, -⟩ := sendDataPacket_spec h
  exact ⟨rfl, rfl, closed, rfl⟩

theorem sameEnds_steps : ConnSteps TCPSecureConn.SameEnds where
  refl := .refl
  trans := .trans
  modify := fun _ _ _ _ => ⟨rfl, rfl, rfl, rfl⟩
  ctrl := sendCtrlPacket_ends
  data := fun _ h => sendDataPacket_ends h

theorem dispatch_ends (wf : s.WellFormed) {order : RangeOrder} {pkt : Bytes}
    (h : dispatch s i order.keys pkt = some s') : s.Stepped TCPSecureConn.SameEnds s' := by
  by_cases request : pkt.head? = some 0
  · obtain ⟨pk, own, -, -, ⟨connid, c, sent, rfl, -⟩ | ⟨k, c, -, -, sent, h⟩⟩ :=
      handleRoutingRequest_split (wf.conn i).tables ((dispatch_request s i order.keys request).symm.trans h)
    · exact sameEnds_steps.setConn (sendCtrlPacket_ends sent)
    · obtain ⟨sock, ctrl, data, stop⟩ := sendCtrlPacket_ends sent
      exact sameEnds_steps.comp (sameEnds_steps.setConn ⟨sock, ctrl, data, stop⟩)
        (sameEnds_steps.linkRouting h)
  · exact sameEnds_steps.dispatch request h

theorem foldl_resetLink_kept (k : CryptoKey) (l : List Nat) (s : TCPServer) (x : Nat) :
    ((l.foldl (resetLink k) s).conn x).tables.connInfos = (s.conn x).tables.connInfos ∧
    ((l.foldl (resetLink k) s).conn x).cwctrlq = (s.conn x).cwctrlq := by
  induction l generalizing s with
  | nil => exact ⟨rfl, rfl⟩
  | cons j rest ih =>
    rw [List.foldl_cons, (ih _).1, (ih _).2]
    by_cases hx : x = j
    · subst x
      rw [resetLink_conn]
      split <;> exact ⟨rfl, rfl⟩
    · rw [resetLink_conn_ne k s hx]
      exact ⟨rfl, rfl⟩

def Notifiable (k : CryptoKey) (c : TCPSecureConn) : Prop :=
  c.tables.connInfos k ≠ none → c.Takes

theorem notifyClosed_ok_iff (k : CryptoKey) (s : TCPServer) (j : Nat) :
    (∃ t, notifyClosed k s j = .ok t) ↔ Notifiable k (s.conn j) := by
  unfold notifyClosed Notifiable
  cases entry : (s.conn j).tables.connInfos k with
  | none => exact ⟨fun _ h => absurd rfl h, fun _ => ⟨s, rfl⟩⟩
  | some p =>
    have short : ¬ 2048 < (disconnectNotification ((s.conn j).tables.pcis p).connid).length := by
      simp [disconnectNotification]
    have sends := sendCtrlPacket_isSome_iff (s.conn j)
      (disconnectNotification ((s.conn j).tables.pcis p).connid)
    simp only [ne_eq, reduceCtorEq, not_false_eq_true, true_imp_iff]
    rw [or_iff_right short] at sends
    rw [← sends, sendDisconnectNotification]
    cases sendCtrlPacket (s.conn j)
      (disconnectNotification ((s.conn j).tables.pcis p).connid) with
    | none => simp
    | some c => simp

theorem notifyClosed_ok_ne {t : TCPServer} {j : Nat} (h : notifyClosed k s j = .ok t) (hx : x ≠ j) :
    t.conn x = s.conn x := by
  unfold notifyClosed at h
  split at h
  · obtain rfl := Except.ok.inj h
    rfl
  · split at h
    · cases h
    · rename_i sent
      obtain rfl := Except.ok.inj h
      obtain ⟨c, -, rfl⟩ := Option.map_eq_some_iff.mp sent
      exact setConn_ne s c hx

theorem killAccepted_ok_iff (s : TCPServer) (k : CryptoKey) :
    (∃ t, killAccepted s k = .ok t) ↔
      ∀ k' x, s.conns.lookup k' = some x → Notifiable k (s.conn x) := by
  have kept := foldl_resetLink_kept k s.registered s
  have loop := Pointwise.foldlM_ok_iff (fun s i => s.conn i) (notifyClosed k) (Notifiable k)
    (notifyClosed_ok_iff k) (fun s j t i h hi => notifyClosed_ok_ne h hi)
    (List.nodup_dedup s.registered) (s.registered.foldl (resetLink k) s)
  refine loop.trans ⟨fun all k' x hx => ?_, fun all x hx => ?_⟩
  · have := all x (List.mem_dedup.mpr (mem_registered.mpr ⟨k', hx⟩))
    rwa [Notifiable, TCPSecureConn.Takes, (kept x).1, (kept x).2] at this
  · obtain ⟨k', hk'⟩ := mem_registered.mp (List.mem_dedup.mp hx)
    rw [Notifiable, TCPSecureConn.Takes, (kept x).1, (kept x).2]
    exact all k' x hk'

/-- The callback panics without a key, and when a connection it has to notify refuses. -/
def CallbackReturns (s : TCPServer) (i : Nat) : Prop :=
  ∃ k, (s.conn i).pubkey = some k ∧
    ∀ k' x, k' ≠ k → s.conns.lookup k' = some x → Notifiable k (s.conn x)

def closing (s : TCPServer) (i : Nat) : TCPServer :=
  s.setConn i { s.conn i with status := .noStatus }

theorem closing_pubkey (s : TCPServer) (i : Nat) :
    ((closing s i).conn i).pubkey = (s.conn i).pubkey := by
  rw [closing, setConn_self]

theorem closing_notifiable (s : TCPServer) (i : Nat) (k : CryptoKey) (x : Nat) :
    Notifiable k ((closing s i).conn x) ↔ Notifiable k (s.conn x) := by
  by_cases hx : x = i
  · subst x
    rw [closing, setConn_self]
    rfl
  · rw [closing, setConn_ne s _ hx]

theorem lookup_erase_iff {conns : AList (fun _ : CryptoKey => Nat)} {k' : CryptoKey} :
    (conns.erase k).lookup k' = some x ↔ k' ≠ k ∧ conns.lookup k' = some x := by
  by_cases hk : k' = k
  · subst k'
    simp
  · simp [AList.lookup_erase_ne hk, hk]

theorem onConnClosed_ok_iff (s : TCPServer) (i : Nat) :
    (∃ t, onConnClosed (closing s i) i = .ok t) ↔ CallbackReturns s i := by
  have key := closing_pubkey s i
  unfold onConnClosed CallbackReturns
  cases hkey : (s.conn i).pubkey with
  | none => grind
  | some k =>
    rw [hkey] at key
    simp only [key, killAccepted_ok_iff]
    constructor
    · intro all
      refine ⟨k, rfl, fun k' x hne hx => ?_⟩
      exact (closing_notifiable s i k x).mp (all k' x (lookup_erase_iff.mpr ⟨hne, hx⟩))
    · rintro ⟨k₁, hk₁, all⟩ k' x hx
      cases hk₁
      obtain ⟨hne, hx⟩ := lookup_erase_iff.mp hx
      exact (closing_notifiable s i k x).mpr (all k' x hne hx)

theorem closing_ends (s : TCPServer) (i x : Nat) :
    (s.conn x).SameEnds ((closing s i).conn x) := by
  have same : (s.conn i).SameEnds { s.conn i with status := .noStatus } := ⟨rfl, rfl, rfl, rfl⟩
  exact (sameEnds_steps.setConn same).conn x

theorem onConnClosed_reached (s : TCPServer) (i : Nat) :
    (∀ x, (s.conn x).SameEnds ((reached (onConnClosed (closing s i) i)).conn x)) ∧
    (reached (onConnClosed (closing s i) i)).hsConns = s.hsConns.erase i ∧
    ∀ k x, (reached (onConnClosed (closing s i) i)).conns.lookup k = some x ↔
      (s.conn i).pubkey ≠ some k ∧ s.conns.lookup k = some x := by
  have key := closing_pubkey s i
  refine ⟨fun x => (closing_ends s i x).trans (sameEnds_steps.onConnClosed _ i x), ?_⟩
  unfold onConnClosed
  cases hkey : (s.conn i).pubkey with
  | none =>
    rw [hkey] at key
    simp only [key]
    exact ⟨rfl, fun k x => by simp [reached, closing]⟩
  | some k =>
    rw [hkey] at key
    simp only [key]
    have killed := sameEnds_steps.killAccepted { closing s i with
      hsConns := (closing s i).hsConns.erase i, conns := (closing s i).conns.erase k } k
    refine ⟨killed.hsConns, fun k' x => ?_⟩
    rw [killed.conns]
    refine lookup_erase_iff.trans (and_congr_left' ?_)
    rw [ne_eq, ne_eq, Option.some.injEq, eq_comm]

theorem finishClose_shut_iff (c : TCPSecureConn) : (finishClose c).Shut ↔ c.InOrder := by
  unfold finishClose Chan.close
  simp only
  constructor
  · rintro ⟨-, ctrl, data, stop⟩
    split_ifs at ctrl data stop <;> constructor <;> simp_all
  · rintro ⟨ctrl, data⟩
    split_ifs <;> constructor <;> simp_all

theorem closedConn_shut_iff (c : TCPSecureConn) :
    (closedConn c).Shut ↔ c.InOrder := by
  rw [closedConn, finishClose_shut_iff]
  exact TCPSecureConn.SameEnds.inOrder_iff ⟨rfl, rfl, rfl, rfl⟩

/-- When a close releases its connection: it was on no list or the callback takes it off, and
everything was closed already or can be closed in order by a close that reaches its end. -/
def Releases (s : TCPServer) (i : Nat) : Prop :=
  (i ∈ s.hsConns → (s.conn i).onClosed = true) ∧
  (∀ k, s.conns.lookup k = some i →
    (s.conn i).onClosed = true ∧ (s.conn i).pubkey = some k) ∧
  ((s.conn i).Shut ∨
    (s.conn i).InOrder ∧ ((s.conn i).onClosed = true → CallbackReturns s i))

theorem doClose_live (live : (s.conn i).onClosed = true) :
    doClose s i = match onConnClosed (closing s i) i with
      | .error t => t
      | .ok t => t.setConn i (finishClose (t.conn i)) := by
  have live' : ((closing s i).conn i).onClosed = true := by
    rw [closing, setConn_self]
    exact live
  exact if_pos live'

theorem doClose_released_iff (s : TCPServer) (i : Nat) :
    Released (doClose s i) i ↔ Releases s i := by
  cases hcl : (s.conn i).onClosed with
  | false =>
    have dead : ¬ (s.conn i).onClosed = true := by
      rw [hcl]
      exact Bool.false_ne_true
    rw [doClose_quiet hcl]
    constructor
    · rintro ⟨shut, off, free⟩
      rw [setConn_self, closedConn_shut_iff] at shut
      exact ⟨fun h => absurd h off, fun k hk => absurd hk (free k),
        Or.inr ⟨shut, fun h => absurd h dead⟩⟩
    · rintro ⟨off, free, why⟩
      refine ⟨?_, fun h => dead (off h), fun k hk => dead (free k hk).1⟩
      rw [setConn_self, closedConn_shut_iff]
      rcases why with shut | ⟨order, -⟩
      · exact shut.inOrder
      · exact order
  | true =>
    obtain ⟨ends, off, conns⟩ := onConnClosed_reached s i
    have returns := onConnClosed_ok_iff s i
    have gone : i ∉ s.hsConns.erase i := Finset.notMem_erase i _
    have free : (∀ k, (reached (onConnClosed (closing s i) i)).conns.lookup k ≠ some i) ↔
        ∀ k, s.conns.lookup k = some i → (s.conn i).onClosed = true ∧
          (s.conn i).pubkey = some k := by
      refine forall_congr' fun k => ?_
      rw [ne_eq, conns k i, not_and, imp_not_comm, not_not, hcl]
      exact ⟨fun h hk => ⟨rfl, h hk⟩, fun h hk => (h hk).2⟩
    rw [doClose_live hcl]
    cases call : onConnClosed (closing s i) i with
    | error t =>
      rw [call] at ends off free returns
      have fails : ¬ CallbackReturns s i := fun h => by
        obtain ⟨t', ht'⟩ := returns.mpr h
        cases ht'
      constructor
      · rintro ⟨shut, -, unlisted⟩
        exact ⟨fun _ => hcl, free.mp unlisted, Or.inl ((ends i).shut_iff.mp shut)⟩
      · rintro ⟨-, listed, shut | ⟨-, h⟩⟩
        · exact ⟨(ends i).shut_iff.mpr shut, off ▸ gone, free.mpr listed⟩
        · exact absurd (h hcl) fails
    | ok t =>
      rw [call] at ends off free returns
      have callback : CallbackReturns s i := returns.mp ⟨t, rfl⟩
      constructor
      · rintro ⟨shut, -, unlisted⟩
        rw [setConn_self, finishClose_shut_iff] at shut
        exact ⟨fun _ => hcl, free.mp unlisted,
          Or.inr ⟨(ends i).inOrder_iff.mp shut, fun _ => callback⟩⟩
      · rintro ⟨-, listed, why⟩
        have order : (s.conn i).InOrder := by
          rcases why with shut | ⟨order, -⟩
          · exact shut.inOrder
          · exact order
        refine ⟨?_, off ▸ gone, free.mpr listed⟩
        rw [setConn_self, finishClose_shut_iff]
        exact (ends i).inOrder_iff.mpr order

/-- A connection without callbacks is closed, and it is off the list of handshakes, as is one
that is confirmed. -/
structure Settled (s : TCPServer) : Prop where
  shut : ∀ i, (s.conn i).onClosed = false → (s.conn i).Shut
  off : ∀ i, (s.conn i).onClosed = false ∨ (s.conn i).status = .confirmed → i ∉ s.hsConns

theorem newTCPServer_settled : Settled newTCPServer :=
  ⟨fun _ dead => (by cases dead), fun _ _ => Finset.notMem_empty _⟩

theorem TCPSecureConn.Ok.inOrder (h : c.Ok) (live : c.onClosed = true) : c.InOrder := by
  obtain ⟨ctrl, data⟩ := h.opened live
  refine ⟨fun closed => ?_, fun closed => ?_⟩
  · rw [ctrl] at closed
    cases closed
  · rw [data] at closed
    cases closed

theorem Settled.inOrder (h : Settled s) (wf : s.WellFormed) (i : Nat) : (s.conn i).InOrder := by
  cases hcl : (s.conn i).onClosed with
  | false => exact (h.shut i hcl).inOrder
  | true => exact (wf.conn i).inOrder hcl

theorem Settled.releases_iff (h : Settled s) (wf : s.WellFormed) (i : Nat) :
    Releases s i ↔ ¬ ((s.conn i).onClosed = true ∧ (s.conn i).pubkey = none) := by
  constructor
  · rintro ⟨-, -, shut | ⟨-, returns⟩⟩ ⟨live, keyless⟩
    · have opened := ((wf.conn i).opened live).1
      rw [shut.ctrl] at opened
      cases opened
    · obtain ⟨k, hk, -⟩ := returns live
      rw [keyless] at hk
      cases hk
  · intro keyed
    refine ⟨fun listed => ?_, fun k hk => ?_, Or.inr ⟨h.inOrder wf i, fun live => ?_⟩⟩
    · by_contra dead
      exact h.off i (Or.inl (Bool.eq_false_of_not_eq_true dead)) listed
    · obtain ⟨-, key, -, live⟩ := wf.registered k i hk
      exact ⟨live, key⟩
    · obtain ⟨k, hk⟩ : ∃ k, (s.conn i).pubkey = some k :=
        Option.ne_none_iff_exists'.mp fun none_ => keyed ⟨live, none_⟩
      refine ⟨k, hk, fun k' x _ hx _ => Or.inl ?_⟩
      exact ((wf.conn x).opened (wf.registered k' x hx).2.2.2).1

/-- What a step may do to one connection: nothing that a close would, or close it. -/
def StaysSettled (s s' : TCPServer) (x : Nat) : Prop :=
  (s.conn x).SameEnds (s'.conn x) ∧ (s'.conn x).onClosed = (s.conn x).onClosed ∧
      ((s'.conn x).status = .confirmed → (s.conn x).status = .confirmed ∨ x ∉ s'.hsConns) ∨
    (s'.conn x).Shut ∧ x ∉ s'.hsConns

theorem Settled.step (h : Settled s) (fewer : s'.hsConns ⊆ s.hsConns)
    (each : ∀ x, StaysSettled s s' x) : Settled s' := by
  refine ⟨fun x dead => ?_, fun x why => ?_⟩
  · rcases each x with ⟨ends, same, -⟩ | ⟨shut, -⟩
    · exact ends.shut_iff.mpr (h.shut x (same.symm.trans dead))
    · exact shut
  · rcases each x with ⟨-, same, status⟩ | ⟨-, off⟩
    · rcases why with dead | confirmed
      · exact fun hx => h.off x (Or.inl (same.symm.trans dead)) (fewer hx)
      · rcases status confirmed with before | off
        · exact fun hx => h.off x (Or.inr before) (fewer hx)
        · exact off
    · exact off

theorem StaysSettled.of_life (ends : (s.conn x).SameEnds (s'.conn x))
    (onClosed : (s'.conn x).onClosed = (s.conn x).onClosed)
    (status : (s'.conn x).status = (s.conn x).status) : StaysSettled s s' x :=
  Or.inl ⟨ends, onClosed, fun confirmed => Or.inl (status.symm.trans confirmed)⟩

theorem Settled.setConn (h : Settled s) (ends : (s.conn i).SameEnds c)
    (onClosed : c.onClosed = (s.conn i).onClosed) (status : c.status = (s.conn i).status) :
    Settled (s.setConn i c) := by
  refine h.step (Finset.Subset.refl _) fun x => ?_
  by_cases hx : x = i
  · subst x
    refine .of_life ?_ ?_ ?_ <;> rw [setConn_self]
    · exact ends
    · exact onClosed
    · exact status
  · refine .of_life ?_ ?_ ?_ <;> rw [setConn_ne s c hx]
    exact .refl _

theorem accept_settled (h : Settled s) (wf : s.WellFormed) : Settled (startHandshake s) := by
  have same := startHandshake_conn wf
  refine ⟨fun x dead => ?_, fun x why listed => ?_⟩
  · rw [same] at dead ⊢
    exact h.shut x dead
  · rw [same] at why
    rcases Finset.mem_insert.mp listed with rfl | before
    · rw [wf.beyond s.accepted (Nat.le_refl _)] at why
      rcases why with dead | confirmed
      · cases dead
      · cases confirmed
    · exact h.off x why before

theorem confirmStep_ends (wf : s.WellFormed) (hst : (s.conn i).status = .unconfirmed)
    (h : confirmStep s i plnpkt = some s') :
    (s.conn i).SameEnds (s'.conn i) ∧
      s'.hsConns = if (s.conn i).onClosed = true then s.hsConns.erase i else s.hsConns := by
  cases plnpkt with
  | nil => cases h
  | cons b rest =>
    obtain ⟨c, hc, h⟩ := Option.bind_eq_some_iff.mp h
    obtain ⟨s₂, h₂, rfl⟩ := Option.map_eq_some_iff.mp h
    obtain ⟨sock, ctrl, data, stop⟩ := sendCtrlPacket_ends hc
    have same := sendCtrlPacket_same hc
    have callbacks : c.onConfirmed = (s.conn i).onClosed :=
      same.onConfirmed.trans (wf.conn i).callbacks
    simp only [setConn_self, callbacks] at h₂ ⊢
    cases hcl : (s.conn i).onClosed with
    | false =>
      rw [hcl, if_neg Bool.false_ne_true] at h₂
      cases h₂
      simp only [setConn_self]
      exact ⟨⟨sock, ctrl, data, stop⟩, rfl⟩
    | true =>
      obtain ⟨k, hk⟩ := (wf.conn i).keyed hcl (by rw [hst]; decide)
      rw [hcl, if_pos rfl] at h₂
      simp only [onConnConfirmed, setConn_self, same.pubkey.trans hk, setConn_conns,
        Option.some.injEq] at h₂
      cases hoc : s.conns.lookup k with
      | none =>
        simp only [hoc] at h₂
        subst h₂
        simp only [setConn_self]
        exact ⟨⟨sock, ctrl, data, stop⟩, rfl⟩
      | some oc =>
        have hne : i ≠ oc := by
          rintro rfl
          have := (wf.registered k i hoc).2.2.1
          rw [hst] at this
          cases this
        simp only [hoc] at h₂
        rw [doClose_quiet (by simp)] at h₂
        subst h₂
        simp only [setConn_ne _ _ hne, setConn_self]
        exact ⟨⟨sock, ctrl, data, stop⟩, rfl⟩

theorem confirm_settled (settled : Settled s) (wf : s.WellFormed)
    (hst : (s.conn i).status = .unconfirmed) (h : confirmStep s i plnpkt = some s') :
    Settled s' := by
  obtain ⟨own, lists⟩ := confirmStep_ends wf hst h
  cases hcl : (s.conn i).onClosed with
  | false =>
    obtain ⟨c, same, rfl⟩ := confirmStep_dead ((wf.conn i).callbacks.trans hcl) h
    rw [hcl, if_neg Bool.false_ne_true] at lists
    refine settled.step (lists ▸ Finset.Subset.refl _) fun x => ?_
    by_cases hx : x = i
    · subst x
      refine Or.inl ⟨own, by rw [setConn_self]; exact same.onClosed, fun _ => Or.inr ?_⟩
      exact settled.off i (Or.inl hcl)
    · refine .of_life ?_ ?_ ?_ <;> rw [setConn_ne s _ hx]
      exact .refl _
  | true =>
    obtain ⟨k, c, -, same, hself, -, -, hother⟩ := confirmStep_live wf hcl hst h
    rw [hcl, if_pos rfl] at lists
    refine settled.step (lists ▸ Finset.erase_subset _ _) fun x => ?_
    by_cases hx : x = i
    · subst x
      refine Or.inl ⟨own, by rw [hself]; exact same.onClosed, fun _ => Or.inr ?_⟩
      rw [lists]
      exact Finset.notMem_erase i _
    · by_cases replaced : s.conns.lookup k = some x
      · obtain ⟨-, -, confirmed, -⟩ := wf.registered k x replaced
        refine Or.inr ⟨?_, fun listed => settled.off x (Or.inr confirmed) ?_⟩
        · rw [hother x hx, if_pos replaced, closedConn_shut_iff]
          exact settled.inOrder wf x
        · grind
      · have kept : s'.conn x = s.conn x := by rw [hother x hx, if_neg replaced]
        refine .of_life ?_ ?_ ?_ <;> rw [kept]
        exact .refl _

theorem doClose_hsConns (s : TCPServer) (i : Nat) : (doClose s i).hsConns ⊆ s.hsConns := by
  cases hcl : (s.conn i).onClosed with
  | false =>
    rw [doClose_quiet hcl]
    exact Finset.Subset.refl _
  | true =>
    have lists := (onConnClosed_reached s i).2.1
    rw [doClose_live hcl]
    cases call : onConnClosed (closing s i) i with
    | error t =>
      rw [call] at lists
      exact lists ▸ Finset.erase_subset _ _
    | ok t =>
      rw [call] at lists
      exact lists ▸ Finset.erase_subset _ _

theorem doClose_settled (settled : Settled s) (wf : s.WellFormed) (i : Nat) :
    Settled (doClose s i) := by
  refine settled.step (doClose_hsConns s i) fun x => ?_
  by_cases hx : x = i
  · subst x
    by_cases keyless : (s.conn i).onClosed = true ∧ (s.conn i).pubkey = none
    · have self : (doClose s i).conn i = { s.conn i with status := .noStatus } := by
        rw [doClose_keyless keyless.1 keyless.2]
        exact setConn_self s i _
      refine Or.inl ?_
      rw [self]
      exact ⟨⟨rfl, rfl, rfl, rfl⟩, rfl, fun confirmed => (by cases confirmed)⟩
    · have released := (doClose_released_iff s i).mpr ((settled.releases_iff wf i).mpr keyless)
      exact Or.inr ⟨released.shut, released.shaking⟩
  · have life := (doClose_life wf i x).1 hx
    exact .of_life (sameEnds_steps.doClose_ne s hx) life.onClosed life.status

theorem next_settled (settled : Settled s) (wf : s.WellFormed) {e : Event} (h : next s e = some s') :
    Settled s' := by
  obtain ⟨enabled, h⟩ := next_eq_some_iff.mp h
  cases e with
  | accept =>
    cases h
    exact accept_settled settled wf
  | handshake i pk =>
    cases h
    refine settled.step (Finset.Subset.refl _) fun x => ?_
    by_cases hx : x = i
    · subst x
      refine Or.inl ?_
      rw [setConn_self]
      exact ⟨⟨rfl, rfl, rfl, rfl⟩, rfl, fun confirmed => (by cases confirmed)⟩
    · refine .of_life ?_ ?_ ?_ <;> rw [setConn_ne s _ hx]
      exact .refl _
  | confirm i plnpkt => exact confirm_settled settled wf enabled.2.2 h
  | recv i plnpkt order =>
    have ends := dispatch_ends wf h
    refine settled.step (ends.hsConns ▸ Finset.Subset.refl _) fun x => ?_
    have life := dispatch_life wf enabled.1 enabled.2.2 h x
    exact .of_life (ends.conn x) life.onClosed life.status
  | readEnd i =>
    cases h
    exact (doClose_settled settled wf i).setConn ⟨rfl, rfl, rfl, rfl⟩ rfl rfl
  | loopEnd i =>
    cases h
    exact doClose_settled settled wf i
  | takeCtrl i =>
    obtain ⟨r, hr, rfl⟩ := Option.map_eq_some_iff.mp h
    exact settled.setConn ⟨rfl, (Chan.recv_spec hr).2.1, rfl, rfl⟩ rfl rfl
  | takeData i =>
    obtain ⟨r, hr, rfl⟩ := Option.map_eq_some_iff.mp h
    exact settled.setConn ⟨rfl, rfl, (Chan.recv_spec hr).2.1, rfl⟩ rfl rfl

theorem reachable_settled {es : List Event} (run : exec next newTCPServer es = some s) :
    Settled s := by
  have both : s.WellFormed ∧ Settled s := by
    refine exec_invariant (P := fun s => s.WellFormed ∧ Settled s) ?_
      ⟨newTCPServer_wellFormed, newTCPServer_settled⟩ run
    rintro s e s' ⟨wf, settled⟩ h
    exact ⟨(next_effect wf h).1, next_settled settled wf h⟩
  exact both.2

/-- A close releases its connection in every state in which its callback returns and its
channels are closed in order; in the states that the server reaches, that is after the
handshake. -/
theorem close_releases_iff (s : TCPServer) (i : Nat) :
    (Released (doClose s i) i ↔ Releases s i) ∧
    ∀ es, exec next newTCPServer es = some s →
      (Released (doClose s i) i ↔
        ¬ ((s.conn i).onClosed = true ∧ (s.conn i).pubkey = none)) := by
  refine ⟨doClose_released_iff s i, fun es run => ?_⟩
  exact (doClose_released_iff s i).trans
    ((reachable_settled run).releases_iff (reachable_wellFormed run) i)

/-- A confirmed client is released. -/
theorem close_confirmed : ∃ s, exec next newTCPServer
      [.accept, .handshake 0 (keyOf 7), .confirm 0 [4, 1]] = some s ∧
    Released (doClose s 0) 0 := by
  obtain ⟨s, run⟩ : ∃ s, exec next newTCPServer
      [.accept, .handshake 0 (keyOf 7), .confirm 0 [4, 1]] = some s := ⟨_, rfl⟩
  refine ⟨s, run, ((close_releases_iff s 0).2 _ run).mpr ?_⟩
  cases run
  rintro ⟨-, keyless⟩
  cases keyless

/-- A client that goes away before its handshake leaves its socket and its channels open. -/
theorem close_before_handshake : ∃ s, exec next newTCPServer [.accept] = some s ∧
    ((doClose s 0).conn 0).sockClosed = false ∧ ((doClose s 0).conn 0).cwctrlq.closed = false ∧
    ((doClose s 0).conn 0).cwdataq.closed = false ∧ ((doClose s 0).conn 0).stopC.closed = false :=
  ⟨_, rfl, rfl, rfl, rfl, rfl⟩

end TcpServer
