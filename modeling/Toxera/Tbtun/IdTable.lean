import Mathlib.Algebra.Ring.Nat
import Toxera.Tbtun.Ownership

/-!
# The entry of a server id

Client ids and server ids are keys of one table.
-/

namespace Tbtun

open Exec

variable {c : Tunnel} {i j n : Nat} {k : UInt64}

namespace Server

variable {s t : Server} {e : Event}

def OddId : Event → Prop
  | .packet _ pkto _ => pkto.type = .conn → pkto.conidc % 2 = 1
  | .dialed .. | .enter .. | .delete => True

instance : (e : Event) → Decidable (OddId e)
  | .packet _ pkto _ => inferInstanceAs (Decidable (pkto.type = .conn → pkto.conidc % 2 = 1))
  | .dialed .. => inferInstanceAs (Decidable True)
  | .enter .. => inferInstanceAs (Decidable True)
  | .delete => inferInstanceAs (Decidable True)

def isDial : Event → Bool
  | .dialed _ ok => ok
  | .packet .. | .enter .. | .delete => false

def dials (events : List Event) : Nat := events.countP isDial

def serverId (n : Nat) : UInt64 := UInt64.ofNat (8 + 2 * (n + 1))

theorem serverId_inj {m : Nat} (hm : m < 2 ^ 63) (hn : n < 2 ^ 63) (same : serverId m = serverId n) :
    m = n := by
  have values := congrArg UInt64.toNat same
  simp only [serverId, UInt64.toNat_ofNat'] at values
  omega

theorem serverId_even (n : Nat) : serverId n % 2 = 0 := by
  apply UInt64.toNat_inj.mp
  rw [serverId, UInt64.toNat_mod, UInt64.toNat_ofNat']
  show (8 + 2 * (n + 1)) % 2 ^ 64 % 2 = 0
  omega

structure Ids (n : Nat) (s : Server) : Prop where
  tabled : Tabled s
  counter : s.connid + 2 = serverId n
  given : ∀ i, HasId (s.tunnels i) → ∃ k < n, (s.tunnels i).sid = serverId k
  distinct : ∀ i j, HasId (s.tunnels i) → HasId (s.tunnels j) →
    (s.tunnels i).sid = (s.tunnels j).sid → i = j
  odd : ∀ i < s.ntunnels, (s.tunnels i).cid % 2 = 1

theorem Ids.new : Ids 0 newSitServer where
  tabled := Tabled.new
  counter := by decide
  given := fun i id => by rcases id with h | h <;> cases h
  distinct := fun i j id => by rcases id with h | h <;> cases h
  odd := fun i hi => absurd hi (Nat.not_lt_zero i)

theorem Ids.apart (h : Ids n s) (hi : i < s.ntunnels) (id : HasId (s.tunnels j)) :
    (s.tunnels i).cid ≠ (s.tunnels j).sid := by
  intro same
  obtain ⟨k, -, given⟩ := h.given j id
  have odd := h.odd i hi
  rw [same, given, serverId_even] at odd
  cases odd

theorem hasId_update (id : HasId (Function.update s.tunnels j c i)) :
    (j = i ∧ HasId c) ∨ HasId (s.tunnels i) := by
  by_cases same : i = j
  · grind
  · grind

theorem Ids.hasId_step (h : Ids n s) (step : Step s e t) (id : HasId (t.tunnels i)) :
    (HasId (s.tunnels i) ∧ (t.tunnels i).sid = (s.tunnels i).sid) ∨
      (isDial e = true ∧ ¬ HasId (s.tunnels i) ∧ (t.tunnels i).sid = serverId n) := by
  by_cases old : HasId (s.tunnels i)
  · exact Or.inl ⟨old, (h.tabled.kept step old).sid⟩
  · refine Or.inr ?_
    cases step with
    | ignored => exact absurd id old
    | found => exact absurd id old
    | wrote => exact absurd id old
    | opened =>
      rcases hasId_update id with ⟨rfl, new⟩ | before
      · rcases new with phase | phase <;> cases phase
      · exact absurd before old
    | failed =>
      rcases hasId_update id with ⟨rfl, new⟩ | before
      · rcases new with phase | phase <;> cases phase
      · exact absurd before old
    | @assigned j =>
      rcases hasId_update id with ⟨rfl, -⟩ | before
      · refine ⟨rfl, old, ?_⟩
        show (Function.update s.tunnels j _ j).sid = _
        rw [Function.update_self, ← h.counter]
      · exact absurd before old
    | entered assigned =>
      rcases hasId_update id with ⟨rfl, -⟩ | before
      · exact absurd (Or.inl assigned) old
      · exact absurd before old
    | deleted found =>
      rcases hasId_update id with ⟨rfl, -⟩ | before
      · exact absurd (Or.inr (h.tabled.closing _ _ _ found).1) old
      · exact absurd before old

theorem Ids.counter_step (h : Ids n s) (step : Step s e t) :
    t.connid + 2 = serverId (n + [e].countP isDial) := by
  cases step with
  | ignored => exact h.counter
  | opened => exact h.counter
  | found => exact h.counter
  | wrote => exact h.counter
  | failed => exact h.counter
  | entered => exact h.counter
  | deleted => exact h.counter
  | assigned =>
    show s.connid + 2 + 2 = serverId (n + 1)
    rw [h.counter, serverId, serverId, show (2 : UInt64) = UInt64.ofNat 2 from rfl,
      ← UInt64.ofNat_add]
    congr 1

theorem odd_update (old : i ≠ j → (s.tunnels i).cid % 2 = 1) (new : c.cid % 2 = 1) :
    (Function.update s.tunnels j c i).cid % 2 = 1 := by
  by_cases same : i = j
  · subst same
    rw [Function.update_self]
    exact new
  · rw [Function.update_of_ne same]
    exact old same

theorem Ids.odd_step (h : Ids n s) (step : Step s e t) (odd : OddId e) (hi : i < t.ntunnels) :
    (t.tunnels i).cid % 2 = 1 := by
  cases step with
  | ignored => exact h.odd i hi
  | found => exact h.odd i hi
  | wrote => exact h.odd i hi
  | opened kind =>
    have bound : i < s.ntunnels + 1 := hi
    exact odd_update (fun other => h.odd i (by omega)) (odd kind)
  | failed dialing =>
    exact odd_update (fun _ => h.odd i hi)
      (h.odd _ (h.tabled.lt_of_phase (by rw [dialing]; decide)))
  | assigned dialing =>
    exact odd_update (fun _ => h.odd i hi)
      (h.odd _ (h.tabled.lt_of_phase (by rw [dialing]; decide)))
  | entered assigned =>
    exact odd_update (fun _ => h.odd i hi) (h.odd _ (h.tabled.lt_of_hasId (Or.inl assigned)))
  | deleted found =>
    exact odd_update (fun _ => h.odd i hi)
      (h.odd _ (h.tabled.lt_of_hasId (Or.inr (h.tabled.closing _ _ _ found).1)))

theorem Ids.fresh_id (h : Ids n s) (few : n < 2 ^ 63) (id : HasId (s.tunnels i)) :
    (s.tunnels i).sid ≠ serverId n := by
  intro same
  obtain ⟨k, hk, given⟩ := h.given i id
  have equal := serverId_inj (by omega) few (given.symm.trans same)
  omega

theorem countP_dial (h : isDial e = true) : [e].countP isDial = 1 := by
  rw [List.countP_singleton, h]
  rfl

theorem Ids.one_dial (h : Ids n s) (step : Step s e t) (hi : HasId (t.tunnels i))
    (hj : HasId (t.tunnels j)) (newi : ¬ HasId (s.tunnels i)) (newj : ¬ HasId (s.tunnels j)) :
    i = j := by
  rcases h.hasId_step step hi with ⟨old, -⟩ | ⟨dial, -, -⟩
  · exact absurd old newi
  cases step with
  | @assigned k =>
    rcases hasId_update hi with ⟨rfl, -⟩ | old
    · rcases hasId_update hj with ⟨rfl, -⟩ | old
      · rfl
      · exact absurd old newj
    · exact absurd old newi
  | _ => cases dial

theorem Ids.step (h : Ids n s) (step : Step s e t) (odd : OddId e)
    (few : n + [e].countP isDial ≤ 2 ^ 63) : Ids (n + [e].countP isDial) t where
  tabled := h.tabled.step step
  counter := h.counter_step step
  given := by
    intro i id
    rcases h.hasId_step step id with ⟨old, same⟩ | ⟨dial, -, sid⟩
    · obtain ⟨k, hk, given⟩ := h.given i old
      exact ⟨k, by omega, same.trans given⟩
    · exact ⟨n, by rw [countP_dial dial]; omega, sid⟩
  distinct := by
    intro i j hi hj same
    rcases h.hasId_step step hi with ⟨oldi, samei⟩ | ⟨dial, newi, sidi⟩
    · rcases h.hasId_step step hj with ⟨oldj, samej⟩ | ⟨dial, -, sidj⟩
      · exact h.distinct i j oldi oldj (samei.symm.trans (same.trans samej))
      · rw [countP_dial dial] at few
        exact absurd (samei.symm.trans (same.trans sidj)) (h.fresh_id (by omega) oldi)
    · rcases h.hasId_step step hj with ⟨oldj, samej⟩ | ⟨-, newj, -⟩
      · rw [countP_dial dial] at few
        exact absurd (samej.symm.trans (same.symm.trans sidi)) (h.fresh_id (by omega) oldj)
      · exact h.one_dial step hi hj newi newj
  odd := fun _ hi => h.odd_step step odd hi

theorem ids_of_run {events : List Event} (run : exec next newSitServer events = some s)
    (odd : ∀ e ∈ events, OddId e) (few : dials events ≤ 2 ^ 63) : Ids (dials events) s := by
  refine exec_history (P := fun es s => (∀ e ∈ es, OddId e) → dials es ≤ 2 ^ 63 →
    Ids (dials es) s) (fun _ _ => Ids.new) ?_ run odd few
  intro es s e t _ ih step odd few
  rw [dials, List.countP_append] at few ⊢
  refine (ih (fun f hf => odd f (by simp [hf])) ?_).step (step_of_next step)
    (odd e (by simp)) few
  exact Nat.le_trans (Nat.le_add_right ..) few

def Closes (k : UInt64) : Event → Prop
  | .packet _ pkto _ => pkto.type = .close ∧ pkto.conids = k
  | .dialed .. | .enter .. | .delete => False

instance (k : UInt64) : (e : Event) → Decidable (Closes k e)
  | .packet _ pkto _ => inferInstanceAs (Decidable (pkto.type = .close ∧ pkto.conids = k))
  | .dialed .. => inferInstanceAs (Decidable False)
  | .enter .. => inferInstanceAs (Decidable False)
  | .delete => inferInstanceAs (Decidable False)

/-- The connection stands in the table under its server id `k`, and no packet that closes
`k` is being handled. -/
structure Stands (s : Server) (i : Nat) (k : UInt64) : Prop where
  registered : (s.tunnels i).phase = .registered
  sid : (s.tunnels i).sid = k
  entry : s.conns k = some i
  closing : ∀ f j, s.closing ≠ some (f, k, j)

theorem Stands.closing_step (h : Stands s i k) (step : Step s e t) (stays : ¬ Closes k e)
    (f : Friend) (j : Nat) : t.closing ≠ some (f, k, j) := by
  cases step with
  | ignored => exact h.closing f j
  | opened => exact h.closing f j
  | wrote => exact h.closing f j
  | failed => exact h.closing f j
  | assigned => exact h.closing f j
  | entered => exact h.closing f j
  | found _ kind =>
    intro same
    simp only [Option.some.injEq, Prod.mk.injEq] at same
    exact stays ⟨kind, same.2.1⟩
  | deleted => exact fun same => by cases same

theorem conns_of_ne {a b : UInt64} {x y : Option Nat} (ha : k ≠ a) (hb : k ≠ b) :
    Function.update (Function.update s.conns a x) b y k = s.conns k := by
  rw [Function.update_of_ne hb, Function.update_of_ne ha]

theorem Stands.entry_step (h : Stands s i k) (ids : Ids n s) (step : Step s e t) :
    t.conns k = some i := by
  have id : HasId (s.tunnels i) := Or.inr h.registered
  cases step with
  | ignored => exact h.entry
  | opened => exact h.entry
  | found => exact h.entry
  | wrote => exact h.entry
  | failed => exact h.entry
  | assigned => exact h.entry
  | @entered j assigned =>
    have other : k ≠ (s.tunnels j).sid := by
      intro same
      obtain rfl := ids.distinct i j id (Or.inl assigned) (h.sid.trans same)
      cases h.registered.symm.trans assigned
    have client : k ≠ (s.tunnels j).cid := by
      have apart := ids.apart (ids.tabled.lt_of_hasId (Or.inl assigned)) id
      rw [h.sid] at apart
      exact apart.symm
    exact (conns_of_ne client other).trans h.entry
  | @deleted f conids j found =>
    have closed : HasId (s.tunnels j) := Or.inr (ids.tabled.closing _ _ _ found).1
    have other : k ≠ conids := by
      rintro rfl
      exact h.closing f j found
    have client : k ≠ (s.tunnels j).cid := by
      have apart := ids.apart (ids.tabled.lt_of_hasId closed) id
      rw [h.sid] at apart
      exact apart.symm
    exact (conns_of_ne other client).trans h.entry

theorem Stands.step (h : Stands s i k) (ids : Ids n s) (step : Step s e t) (stays : ¬ Closes k e) :
    Stands t i k := by
  have kept := ids.tabled.kept step (Or.inr h.registered)
  exact ⟨kept.registered h.registered, kept.sid.trans h.sid, h.entry_step ids step,
    h.closing_step step stays⟩

theorem Ids.entered (h : Ids n s) (step : Step s (.enter i) t) : Stands t i (t.tunnels i).sid := by
  cases step with
  | entered assigned =>
    have sid : (Function.update s.tunnels i
        { s.tunnels i with phase := .registered } i).sid = (s.tunnels i).sid := by
      rw [Function.update_self]
    refine ⟨congrArg Tunnel.phase (Function.update_self i _ s.tunnels), rfl, ?_, ?_⟩
    · refine (congrArg _ sid).trans ?_
      exact Function.update_self ..
    · -- an id that is being closed belongs to a connection that was entered before
      intro f j found
      obtain ⟨registered, name⟩ := h.tabled.closing _ _ _ found
      have id : HasId (s.tunnels j) := Or.inr registered
      rcases name with client | server
      · exact h.apart (h.tabled.lt_of_hasId id) (Or.inl assigned) (client.symm.trans sid)
      · obtain rfl := h.distinct j i id (Or.inl assigned) (server.symm.trans sid)
        cases registered.symm.trans assigned

/-- In every run in which all client ids are odd and at most `2 ^ 63` ids are given out, the
entry of a server id is the connection that was given it, from when it is entered until a packet
closes that id. -/
theorem server_id_stable (before after : List Event) (i : Nat) (s t : Server)
    (entered : exec next newSitServer (before ++ [.enter i]) = some s)
    (run : exec next s after = some t)
    (odd : ∀ e ∈ before ++ [.enter i] ++ after, OddId e)
    (few : dials (before ++ [.enter i] ++ after) ≤ 2 ^ 63)
    (stays : ∀ e ∈ after, ¬ Closes (s.tunnels i).sid e) :
    t.conns (s.tunnels i).sid = some i ∧ (t.tunnels i).sid = (s.tunnels i).sid := by
  -- induction on the events after the entry, with the ids of the whole run so far
  have stands := exec_history (P := fun es t => (∀ e ∈ before ++ [.enter i] ++ es, OddId e) →
    dials (before ++ [.enter i] ++ es) ≤ 2 ^ 63 → (∀ e ∈ es, ¬ Closes (s.tunnels i).sid e) →
    Stands t i (s.tunnels i).sid) ?_ ?_ run odd few stays
  · exact ⟨stands.entry, stands.sid⟩
  · intro odd few _
    obtain ⟨m, front, last⟩ := exec_snoc_iff.mp entered
    have fewer : dials before ≤ 2 ^ 63 := by grind [dials]
    exact (ids_of_run front (fun e he => odd e (by simp [he])) fewer).entered
      (step_of_next last)
  · intro es m e m' so_far ih step odd few stays
    have fewer : dials (before ++ [.enter i] ++ es) ≤ 2 ^ 63 := by grind [dials]
    have odd' : ∀ f ∈ before ++ [.enter i] ++ es, OddId f := fun f hf => by
      refine odd f ?_
      rw [← List.append_assoc]
      exact List.mem_append_left _ hf
    have ids := ids_of_run (exec_append_iff.mpr ⟨s, entered, so_far⟩) odd' fewer
    exact (ih odd' fewer fun f hf => stays f (by simp [hf])).step ids (step_of_next step)
      (stays e (by simp))

theorem entry_taken (s : Server) (f : Friend) (k : UInt64) (pkto : Packet)
    (idle : s.closing = none) (conn : pkto.type = .conn) (cid : pkto.conidc = k)
    (fresh : s.connid + 2 ≠ 0) (other : s.connid + 2 ≠ k) : ∃ t,
    exec next s [.packet f pkto 0, .dialed s.ntunnels true, .enter s.ntunnels] = some t ∧
    t.conns k = some s.ntunnels := by
  have run : exec next s [.packet f pkto 0, .dialed s.ntunnels true, .enter s.ntunnels] =
      some { opened s f pkto with
        connid := s.connid + 2
        conns := Function.update (Function.update s.conns k (some s.ntunnels)) (s.connid + 2)
          (some s.ntunnels)
        tunnels := Function.update s.tunnels s.ntunnels
          ⟨f, pkto.host, pkto.port, k, s.connid + 2, .registered, false⟩ } := by
    simp [exec, next, onFriendLosslessPacket, dialed, enter, opened, idle, conn, cid, fresh]
  exact ⟨_, run, by simp [other.symm]⟩

end Server

/-- Packets of a friend with odd client ids leave the entry of the first connection alone. -/
theorem odd_ids_stable : ∃ s t,
    exec Server.next newSitServer
      ([.packet 1 (connPacket 11) 0, .dialed 0 true] ++ [.enter 0]) = some s ∧
    exec Server.next s [.packet 2 (connPacket 13) 0, .dialed 1 true, .enter 1,
      .packet 2 (closePacket 12) 0, .delete] = some t ∧
    (s.tunnels 0).sid = 10 ∧ t.conns 10 = some 0 := by
  obtain ⟨s, entered, sid⟩ := Option.map_eq_some_iff.mp (show
    (exec Server.next newSitServer ([.packet 1 (connPacket 11) 0, .dialed 0 true] ++
      [.enter 0])).map (fun s => (s.tunnels 0).sid) = some 10 by decide +kernel)
  obtain ⟨t, whole⟩ := Option.isSome_iff_exists.mp (show
    (exec Server.next newSitServer (([.packet 1 (connPacket 11) 0, .dialed 0 true] ++
      [.enter 0]) ++ [.packet 2 (connPacket 13) 0, .dialed 1 true, .enter 1,
      .packet 2 (closePacket 12) 0, .delete])).isSome = true by decide +kernel)
  obtain ⟨m, first, run⟩ := exec_append_iff.mp whole
  obtain rfl := Option.some.inj (first.symm.trans entered)
  have stable := Server.server_id_stable _ _ 0 m t entered run (by decide +kernel)
    (by decide +kernel) (by rw [sid]; decide +kernel)
  rw [sid] at stable
  exact ⟨m, t, entered, run, sid, stable.1⟩

/-- The client id of the second connection is the server id of the first one. -/
theorem server_id_taken : ∃ s t,
    exec Server.next newSitServer
      [.packet 1 (connPacket 11) 0, .dialed 0 true, .enter 0] = some s ∧
    (s.tunnels 0).sid = 10 ∧ s.conns 10 = some 0 ∧
    exec Server.next s [.packet 2 (connPacket 10) 0, .dialed 1 true, .enter 1] = some t ∧
    t.conns 10 = some 1 := by
  obtain ⟨s, entered, values⟩ := Option.map_eq_some_iff.mp (show
    (exec Server.next newSitServer [.packet 1 (connPacket 11) 0, .dialed 0 true,
      .enter 0]).map (fun s => ((s.tunnels 0).sid, s.conns 10, s.ntunnels, s.connid,
        s.closing.isNone)) = some (10, some 0, 1, 10, true) by decide +kernel)
  simp only [Prod.mk.injEq, Option.isNone_iff_eq_none] at values
  obtain ⟨sid, entry, count, connid, idle⟩ := values
  obtain ⟨t, run, taken⟩ := s.entry_taken 2 10 (connPacket 10) idle rfl rfl
    (by rw [connid]; decide) (by rw [connid]; decide)
  rw [count] at run taken
  exact ⟨s, t, entered, sid, entry, run, taken⟩

end Tbtun
