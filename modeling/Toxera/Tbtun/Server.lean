import Toxera.Lib.Exec
import Toxera.Lib.Pointwise

/-!
# The tunnel server

`tbtuns/sitserver.go`: friends send packets that open, feed and close TCP connections.
-/

namespace Tbtun

open Exec

abbrev Bytes := List UInt8

abbrev Friend := UInt32

inductive PacketType where
  | conn | close | ack | data | other
  deriving DecidableEq

structure Packet where
  conidc : UInt64
  conids : UInt64
  type : PacketType
  host : String
  port : Int
  data : Bytes
  deriving DecidableEq

inductive Phase where
  | dialing | failed | assigned | registered
  deriving DecidableEq

structure Tunnel where
  friend : Friend
  host : String
  port : Int
  cid : UInt64
  sid : UInt64
  phase : Phase
  closec : Bool

inductive Action where
  | write (tunnel : Nat) (friend : Friend) (data : Bytes)
  | close (tunnel : Nat) (friend : Friend)
  deriving DecidableEq

def Action.tunnel : Action → Nat
  | .write i _ _ => i
  | .close i _ => i

def Action.friend : Action → Friend
  | .write _ f _ => f
  | .close _ f => f

structure Server where
  connid : UInt64
  conns : UInt64 → Option Nat
  tunnels : Nat → Tunnel
  ntunnels : Nat
  /-- a close packet that is being handled: who sent it, the id in it, what was found -/
  closing : Option (Friend × UInt64 × Nat)
  log : List Action

def noTunnel : Tunnel := ⟨0, "", 0, 0, 0, .failed, false⟩

def newSitServer : Server where
  connid := 8
  conns := fun _ => none
  tunnels := fun _ => noTunnel
  ntunnels := 0
  closing := none
  log := []

inductive Event where
  | packet (friend : Friend) (pkto : Packet) (wn : Nat)
  | dialed (tunnel : Nat) (ok : Bool)
  | enter (tunnel : Nat)
  | delete

namespace Server

def onFriendLosslessPacket (s : Server) (friend : Friend) (pkto : Packet) (wn : Nat) :
    Option Server :=
  if s.closing.isSome then none
  else match pkto.type with
    | .conn =>
      some { s with
        tunnels := Function.update s.tunnels s.ntunnels
          ⟨friend, pkto.host, pkto.port, pkto.conidc, 0, .dialing, false⟩
        ntunnels := s.ntunnels + 1 }
    | .close => match s.conns pkto.conids with
      | none => some s
      | some cs => some { s with closing := some (friend, pkto.conids, cs) }
    | .data => match s.conns pkto.conids with
      | none => some s
      | some cs => some { s with log := s.log ++ [.write cs friend (pkto.data.take wn)] }
    | .ack => some s
    | .other => some s

def dialed (s : Server) (i : Nat) (ok : Bool) : Option Server :=
  if (s.tunnels i).phase ≠ .dialing then none
  else if ok then
    some { s with
      connid := s.connid + 2
      tunnels := Function.update s.tunnels i
        { s.tunnels i with sid := s.connid + 2, phase := .assigned } }
  else some { s with
    tunnels := Function.update s.tunnels i { s.tunnels i with phase := .failed } }

/-- The connection is entered under both ids; then a server id of zero fails the assertion. -/
def enter (s : Server) (i : Nat) : Option Server :=
  if (s.tunnels i).phase ≠ .assigned then none
  else if (s.tunnels i).sid = 0 then none
  else some { s with
    conns := Function.update (Function.update s.conns (s.tunnels i).cid (some i))
      (s.tunnels i).sid (some i)
    tunnels := Function.update s.tunnels i { s.tunnels i with phase := .registered } }

def delete (s : Server) : Option Server :=
  s.closing.map fun (friend, conids, cs) =>
    { s with
      conns := Function.update (Function.update s.conns conids none) (s.tunnels cs).cid none
      tunnels := Function.update s.tunnels cs { s.tunnels cs with closec := true }
      closing := none
      log := s.log ++ [.close cs friend] }

def next (s : Server) : Event → Option Server
  | .packet friend pkto wn => s.onFriendLosslessPacket friend pkto wn
  | .dialed i ok => s.dialed i ok
  | .enter i => s.enter i
  | .delete => s.delete

variable {s t : Server} {e : Event}

def opened (s : Server) (friend : Friend) (pkto : Packet) : Server :=
  { s with
    tunnels := Function.update s.tunnels s.ntunnels
      ⟨friend, pkto.host, pkto.port, pkto.conidc, 0, .dialing, false⟩
    ntunnels := s.ntunnels + 1 }

def setTunnel (s : Server) (i : Nat) (c : Tunnel) : Server :=
  { s with tunnels := Function.update s.tunnels i c }

inductive Step (s : Server) : Event → Server → Prop
  | ignored {f pkto wn} : Step s (.packet f pkto wn) s
  | opened {f pkto wn} : pkto.type = .conn → Step s (.packet f pkto wn) (s.opened f pkto)
  | found {f pkto wn cs} : s.closing = none → pkto.type = .close →
    s.conns pkto.conids = some cs →
    Step s (.packet f pkto wn) { s with closing := some (f, pkto.conids, cs) }
  | wrote {f pkto wn cs} : pkto.type = .data → s.conns pkto.conids = some cs →
    Step s (.packet f pkto wn) { s with log := s.log ++ [.write cs f (pkto.data.take wn)] }
  | failed {i} : (s.tunnels i).phase = .dialing →
    Step s (.dialed i false) (s.setTunnel i { s.tunnels i with phase := .failed })
  | assigned {i} : (s.tunnels i).phase = .dialing →
    Step s (.dialed i true) { s.setTunnel i
      { s.tunnels i with sid := s.connid + 2, phase := .assigned } with connid := s.connid + 2 }
  | entered {i} : (s.tunnels i).phase = .assigned → (s.tunnels i).sid ≠ 0 →
    Step s (.enter i) { s.setTunnel i { s.tunnels i with phase := .registered } with
      conns := Function.update (Function.update s.conns (s.tunnels i).cid (some i))
        (s.tunnels i).sid (some i) }
  | deleted {f conids cs} : s.closing = some (f, conids, cs) →
    Step s .delete { s.setTunnel cs { s.tunnels cs with closec := true } with
      conns := Function.update (Function.update s.conns conids none) (s.tunnels cs).cid none
      closing := none
      log := s.log ++ [.close cs f] }

theorem step_of_packet {f : Friend} {pkto : Packet} {wn : Nat}
    (h : s.onFriendLosslessPacket f pkto wn = some t) : Step s (.packet f pkto wn) t := by
  unfold onFriendLosslessPacket at h
  split_ifs at h with busy
  have free : s.closing = none := by simpa using busy
  cases kind : pkto.type with
  | conn =>
    simp only [kind] at h
    exact Option.some.inj h ▸ .opened kind
  | close =>
    simp only [kind] at h
    cases found : s.conns pkto.conids with
    | none =>
      simp only [found] at h
      exact Option.some.inj h ▸ .ignored
    | some cs =>
      simp only [found] at h
      exact Option.some.inj h ▸ .found free kind found
  | data =>
    simp only [kind] at h
    cases found : s.conns pkto.conids with
    | none =>
      simp only [found] at h
      exact Option.some.inj h ▸ .ignored
    | some cs =>
      simp only [found] at h
      exact Option.some.inj h ▸ .wrote kind found
  | ack =>
    simp only [kind] at h
    exact Option.some.inj h ▸ .ignored
  | other =>
    simp only [kind] at h
    exact Option.some.inj h ▸ .ignored

theorem step_of_dialed {i : Nat} {ok : Bool} (h : s.dialed i ok = some t) :
    Step s (.dialed i ok) t := by
  unfold dialed at h
  split_ifs at h with other good
  · rw [good]
    exact Option.some.inj h ▸ .assigned (not_not.mp other)
  · rw [Bool.eq_false_iff.mpr good]
    exact Option.some.inj h ▸ .failed (not_not.mp other)

theorem step_of_enter {i : Nat} (h : s.enter i = some t) : Step s (.enter i) t := by
  unfold enter at h
  split_ifs at h with other zero
  exact Option.some.inj h ▸ .entered (not_not.mp other) zero

theorem step_of_next (h : s.next e = some t) : Step s e t := by
  cases e with
  | packet f pkto wn => exact step_of_packet h
  | dialed i ok => exact step_of_dialed h
  | enter i => exact step_of_enter h
  | delete =>
    obtain ⟨⟨f, conids, cs⟩, found, rfl⟩ := Option.map_eq_some_iff.mp h
    exact .deleted found

def HasId (c : Tunnel) : Prop := c.phase = .assigned ∨ c.phase = .registered

def Named (c : Tunnel) (k : UInt64) : Prop := c.phase = .registered ∧ (k = c.cid ∨ k = c.sid)

structure Tabled (s : Server) : Prop where
  fresh : ∀ i, s.ntunnels ≤ i → (s.tunnels i).phase = .failed
  listed : ∀ k i, s.conns k = some i → Named (s.tunnels i) k
  closing : ∀ f k i, s.closing = some (f, k, i) → Named (s.tunnels i) k

theorem Tabled.lt_of_phase (h : Tabled s) {i : Nat} (phase : (s.tunnels i).phase ≠ .failed) :
    i < s.ntunnels := by
  by_contra out
  exact phase (h.fresh i (Nat.not_lt.mp out))

theorem Tabled.lt_of_hasId (h : Tabled s) {i : Nat} (id : HasId (s.tunnels i)) :
    i < s.ntunnels := by
  refine h.lt_of_phase fun failed => ?_
  rcases id with phase | phase <;> cases failed.symm.trans phase

/-- Nothing about a connection changes once it has its ids, but that it is entered and
closed. -/
structure Kept (c c' : Tunnel) : Prop where
  friend : c'.friend = c.friend
  cid : c'.cid = c.cid
  sid : c'.sid = c.sid
  hasId : HasId c'
  registered : c.phase = .registered → c'.phase = .registered

theorem Kept.refl {c : Tunnel} (id : HasId c) : Kept c c := ⟨rfl, rfl, rfl, id, fun h => h⟩

theorem kept_update {c : Tunnel} {i j : Nat} (id : HasId (s.tunnels i))
    (here : j = i → Kept (s.tunnels i) c) :
    Kept (s.tunnels i) (Function.update s.tunnels j c i) := by
  by_cases same : i = j
  · grind
  · rw [Function.update_of_ne same]
    exact Kept.refl id

theorem Tabled.kept (h : Tabled s) (step : Step s e t) {i : Nat} (id : HasId (s.tunnels i)) :
    Kept (s.tunnels i) (t.tunnels i) := by
  cases step with
  | ignored => exact Kept.refl id
  | found => exact Kept.refl id
  | wrote => exact Kept.refl id
  | opened =>
    refine kept_update id fun same => ?_
    exact absurd (h.lt_of_hasId id) (by omega)
  | failed dialing =>
    refine kept_update id fun same => ?_
    subst same
    rcases id with phase | phase <;> cases dialing.symm.trans phase
  | assigned dialing =>
    refine kept_update id fun same => ?_
    subst same
    rcases id with phase | phase <;> cases dialing.symm.trans phase
  | entered =>
    refine kept_update id fun same => ?_
    subst same
    exact ⟨rfl, rfl, rfl, Or.inr rfl, fun _ => rfl⟩
  | deleted =>
    refine kept_update id fun same => ?_
    subst same
    exact ⟨rfl, rfl, rfl, id, fun h => h⟩

theorem Named.kept {c c' : Tunnel} {k : UInt64} (h : Named c k) (kept : Kept c c') :
    Named c' k := by
  refine ⟨kept.registered h.1, ?_⟩
  rw [kept.cid, kept.sid]
  exact h.2

theorem Tabled.named (h : Tabled s) (step : Step s e t) {i : Nat} {k : UInt64}
    (name : Named (s.tunnels i) k) : Named (t.tunnels i) k :=
  name.kept (h.kept step (Or.inr name.1))

theorem Tabled.new : Tabled newSitServer where
  fresh := fun _ _ => rfl
  listed := fun _ _ h => by cases h
  closing := fun _ _ _ h => by cases h

theorem Tabled.fresh_update (h : Tabled s) {j : Nat} (phase : (s.tunnels j).phase ≠ .failed)
    (c : Tunnel) {i : Nat} (hi : s.ntunnels ≤ i) :
    (Function.update s.tunnels j c i).phase = .failed := by
  have old := h.lt_of_phase phase
  rw [Function.update_of_ne (by omega)]
  exact h.fresh i hi

theorem Tabled.fresh_step (h : Tabled s) (step : Step s e t) {i : Nat} (hi : t.ntunnels ≤ i) :
    (t.tunnels i).phase = .failed := by
  cases step with
  | ignored => exact h.fresh i hi
  | found => exact h.fresh i hi
  | wrote => exact h.fresh i hi
  | opened =>
    have later : s.ntunnels + 1 ≤ i := hi
    exact (congrArg Tunnel.phase (Function.update_of_ne (by omega) ..)).trans
      (h.fresh i (by omega))
  | failed dialing => exact h.fresh_update (by rw [dialing]; decide) _ hi
  | assigned dialing => exact h.fresh_update (by rw [dialing]; decide) _ hi
  | entered assigned => exact h.fresh_update (by rw [assigned]; decide) _ hi
  | deleted found => exact h.fresh_update (by rw [(h.closing _ _ _ found).1]; decide) _ hi

theorem conns_step (step : Step s e t) {k : UInt64} {i : Nat} (h : t.conns k = some i) :
    s.conns k = some i ∨ Named (t.tunnels i) k := by
  cases step with
  | ignored => exact Or.inl h
  | found => exact Or.inl h
  | wrote => exact Or.inl h
  | opened => exact Or.inl h
  | failed => exact Or.inl h
  | assigned => exact Or.inl h
  | @entered j =>
    have here : (Function.update s.tunnels j { s.tunnels j with phase := .registered }) j =
        { s.tunnels j with phase := .registered } := Function.update_self ..
    simp only [Function.update_apply] at h
    split_ifs at h with server client
    · obtain rfl := Option.some.inj h
      refine Or.inr ?_
      show Named (Function.update s.tunnels j _ j) k
      rw [here]
      exact ⟨rfl, Or.inr server⟩
    · obtain rfl := Option.some.inj h
      refine Or.inr ?_
      show Named (Function.update s.tunnels j _ j) k
      rw [here]
      exact ⟨rfl, Or.inl client⟩
    · exact Or.inl h
  | deleted => grind

theorem closing_step (step : Step s e t) {f : Friend} {k : UInt64} {i : Nat}
    (h : t.closing = some (f, k, i)) : s.closing = some (f, k, i) ∨ s.conns k = some i := by
  cases step with
  | ignored => exact Or.inl h
  | wrote => exact Or.inl h
  | opened => exact Or.inl h
  | failed => exact Or.inl h
  | assigned => exact Or.inl h
  | entered => exact Or.inl h
  | found _ _ found => grind
  | deleted => cases h

theorem Tabled.step (h : Tabled s) (step : Step s e t) : Tabled t where
  fresh := fun _ hi => h.fresh_step step hi
  listed := by
    intro k i entry
    rcases conns_step step entry with old | named
    · exact h.named step (h.listed k i old)
    · exact named
  closing := by
    intro f k i closing
    rcases closing_step step closing with old | found
    · exact h.named step (h.closing f k i old)
    · exact h.named step (h.listed k i found)

/-- In every run an entry of `conns` leads to a tunnel that was entered under that id, and a
close packet in progress has found one. -/
theorem conns_named {events : List Event} (run : exec next newSitServer events = some s) :
    Tabled s :=
  exec_invariant (fun _ _ _ h step => h.step (step_of_next step)) Tabled.new run

theorem conns_named_entered : ∃ s, exec next newSitServer
    [.packet 0 ⟨1, 0, .conn, "h", 80, []⟩ 0, .dialed 0 true, .enter 0] = some s ∧ Tabled s := by
  refine ⟨?s, ?run, conns_named ?run⟩
  case run => exact rfl

end Server

end Tbtun
