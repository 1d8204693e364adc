import Toxera.Tbtun.Server

/-!
# Whose packets reach a connection

The table of the tunnel server does not know which friend opened a connection: a packet of
any friend that names an id in the table is obeyed.
-/

namespace Tbtun

open Exec

variable {f : Friend}

instance (c : Tunnel) : Decidable (Server.HasId c) :=
  inferInstanceAs (Decidable (c.phase = .assigned ∨ c.phase = .registered))

namespace Server

variable {s t : Server} {e : Event}

/-- A packet for a connection names no id of a connection that another friend opened. -/
def NamesOwn (s : Server) : Event → Prop
  | .packet f pkto _ => pkto.type = .data ∨ pkto.type = .close →
    ∀ i < s.ntunnels, HasId (s.tunnels i) →
      pkto.conids = (s.tunnels i).cid ∨ pkto.conids = (s.tunnels i).sid →
      (s.tunnels i).friend = f
  | .dialed .. | .enter .. | .delete => True

instance : (s : Server) → (e : Event) → Decidable (NamesOwn s e)
  | s, .packet f pkto _ => inferInstanceAs (Decidable (pkto.type = .data ∨ pkto.type = .close →
    ∀ i < s.ntunnels, HasId (s.tunnels i) →
      pkto.conids = (s.tunnels i).cid ∨ pkto.conids = (s.tunnels i).sid →
      (s.tunnels i).friend = f))
  | _, .dialed .. => inferInstanceAs (Decidable True)
  | _, .enter .. => inferInstanceAs (Decidable True)
  | _, .delete => inferInstanceAs (Decidable True)

def Owned (s : Server) : Prop := ∀ a ∈ s.log, a.friend = (s.tunnels a.tunnel).friend

structure Owns (s : Server) : Prop where
  tabled : Tabled s
  log : ∀ a ∈ s.log, HasId (s.tunnels a.tunnel) ∧ a.friend = (s.tunnels a.tunnel).friend
  closing : ∀ f k i, s.closing = some (f, k, i) → f = (s.tunnels i).friend

theorem Owns.new : Owns newSitServer where
  tabled := Tabled.new
  log := by simp [newSitServer]
  closing := fun _ _ _ h => by cases h

theorem Owns.found (h : Owns s) {pkto : Packet} {wn cs : Nat} (own : NamesOwn s (.packet f pkto wn))
    (kind : pkto.type = .data ∨ pkto.type = .close) (found : s.conns pkto.conids = some cs) :
    HasId (s.tunnels cs) ∧ f = (s.tunnels cs).friend := by
  have named := h.tabled.listed _ _ found
  have id : HasId (s.tunnels cs) := Or.inr named.1
  exact ⟨id, (own kind cs (h.tabled.lt_of_hasId id) id named.2).symm⟩

theorem Owns.log_step (h : Owns s) (step : Step s e t) (own : NamesOwn s e) {a : Action}
    (ha : a ∈ t.log) : HasId (s.tunnels a.tunnel) ∧ a.friend = (s.tunnels a.tunnel).friend := by
  cases step with
  | ignored => exact h.log a ha
  | opened => exact h.log a ha
  | found => exact h.log a ha
  | failed => exact h.log a ha
  | assigned => exact h.log a ha
  | entered => exact h.log a ha
  | wrote kind found =>
    rcases List.mem_append.mp ha with old | new
    · exact h.log a old
    · obtain rfl := List.mem_singleton.mp new
      exact h.found own (Or.inl kind) found
  | deleted closing =>
    rcases List.mem_append.mp ha with old | new
    · exact h.log a old
    · obtain rfl := List.mem_singleton.mp new
      exact ⟨Or.inr (h.tabled.closing _ _ _ closing).1, h.closing _ _ _ closing⟩

theorem Owns.closing_step (h : Owns s) (step : Step s e t) (own : NamesOwn s e) {k : UInt64}
    {i : Nat} (closing : t.closing = some (f, k, i)) :
    HasId (s.tunnels i) ∧ f = (s.tunnels i).friend := by
  have old : s.closing = some (f, k, i) → HasId (s.tunnels i) ∧ f = (s.tunnels i).friend :=
    fun before => ⟨Or.inr (h.tabled.closing _ _ _ before).1, h.closing _ _ _ before⟩
  cases step with
  | ignored => exact old closing
  | opened => exact old closing
  | failed => exact old closing
  | assigned => exact old closing
  | entered => exact old closing
  | wrote => exact old closing
  | found _ kind found =>
    obtain ⟨rfl, rfl, rfl⟩ : _ ∧ _ ∧ _ := by simpa using closing
    exact h.found own (Or.inr kind) found
  | deleted => cases closing

theorem Owns.step (h : Owns s) (own : NamesOwn s e) (step : Step s e t) : Owns t where
  tabled := h.tabled.step step
  log := by
    intro a ha
    obtain ⟨id, friend⟩ := h.log_step step own ha
    have kept := h.tabled.kept step id
    exact ⟨kept.hasId, friend.trans kept.friend.symm⟩
  closing := by
    intro f k i closing
    obtain ⟨id, friend⟩ := h.closing_step step own closing
    exact friend.trans (h.tabled.kept step id).friend.symm

/-- In every run in which friends name only ids of their own connections, bytes are written
to a connection, and it is closed, only for the friend that opened it. -/
theorem connections_owned (events : List Event) (s : Server)
    (run : exec next newSitServer events = some s)
    (own : Along next NamesOwn newSitServer events) : Owned s := by
  have owns : Owns s := exec_invariant_along
    (fun _ _ _ h own step => h.step own (step_of_next step)) Owns.new own run
  exact fun a ha => (owns.log a ha).2

end Server

def connPacket (cid : UInt64) : Packet := ⟨cid, 0, .conn, "127.0.0.1", 9996, []⟩
def dataPacket (sid : UInt64) (data : Bytes) : Packet := ⟨0, sid, .data, "", 0, data⟩
def closePacket (sid : UInt64) : Packet := ⟨0, sid, .close, "", 0, []⟩

def twoTunnels : List Event :=
  [.packet 1 (connPacket 11) 0, .packet 2 (connPacket 11) 0, .dialed 0 true, .enter 0,
    .dialed 1 true, .enter 1]

theorem own_connections_owned : ∃ s,
    exec Server.next newSitServer (twoTunnels ++ [.packet 1 (dataPacket 10 [7]) 1,
      .packet 2 (dataPacket 12 [8]) 1, .packet 1 (closePacket 10) 0, .delete]) = some s ∧
    s.log = [.write 0 1 [7], .write 1 2 [8], .close 0 1] ∧ s.Owned := by
  obtain ⟨s, run, log⟩ := Option.map_eq_some_iff.mp (show
    (exec Server.next newSitServer (twoTunnels ++ [.packet 1 (dataPacket 10 [7]) 1,
      .packet 2 (dataPacket 12 [8]) 1, .packet 1 (closePacket 10) 0, .delete])).map Server.log =
    some [.write 0 1 [7], .write 1 2 [8], .close 0 1] by decide +kernel)
  exact ⟨s, run, log, Server.connections_owned _ s run (along_of_decide (by decide +kernel))⟩

/-- Friend 2 writes to the connection of friend 1 and closes it. -/
theorem stranger_obeyed : ∃ s,
    exec Server.next newSitServer (twoTunnels ++ [.packet 2 (dataPacket 10 [7]) 1,
      .packet 2 (closePacket 10) 0, .delete]) = some s ∧
    s.log = [.write 0 2 [7], .close 0 2] ∧ (s.tunnels 0).friend = 1 := by
  have run : (exec Server.next newSitServer (twoTunnels ++ [.packet 2 (dataPacket 10 [7]) 1,
      .packet 2 (closePacket 10) 0, .delete])).map (fun s => (s.log, (s.tunnels 0).friend)) =
      some ([.write 0 2 [7], .close 0 2], 1) := by
    decide +kernel
  obtain ⟨s, run, values⟩ := Option.map_eq_some_iff.mp run
  exact ⟨s, run, congrArg Prod.fst values, congrArg Prod.snd values⟩

end Tbtun
