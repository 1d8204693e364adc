import Toxera.Relayhub.Incoming

/-!
# Sockets and their peers

The relay names the peer of every incoming connection, and the dispatch loop hands the
connection to the socket whose id the peer sends.
-/

namespace Relayhub

open Exec

structure Record where
  /-- made by `NewSocket` -/
  own : Bool := false
  /-- the arguments of its calls of `Connect` -/
  connectedTo : List Bytes := []
  /-- the connections put in its channel, with their peers -/
  received : List (Nat × Option Bytes) := []
  /-- the peers of its close signals -/
  signalled : List (Option Bytes) := []
  deriving DecidableEq

namespace Record

def receive (r : Record) (wire : Nat) (peer : Option Bytes) : Record :=
  { r with received := r.received ++ [(wire, peer)] }

def signal (r : Record) (peer : Option Bytes) : Record :=
  { r with signalled := r.signalled ++ [peer] }

end Record

structure Hub where
  client : RelayClient
  record : Bytes → Record
  /-- the sockets that are not in the table any more -/
  past : List Record

inductive HubEvent where
  | incoming (proto : Except String Proto) (stream : Bytes) (sent : Except String Unit)
  | accept
  /-- an id as `generateConnID` returns it, which may be any -/
  | newSocket (id : Bytes)
  /-- a call of the socket that is registered under the id -/
  | call (id : Bytes) (ev : Event)
  /-- `Close` of a socket of this id, the registered one or an earlier one -/
  | close (id : Bytes)

/-- The calls that the owner of a socket makes between its creation and `Close`. -/
def Event.isCall : Event → Bool
  | .connect .. | .write .. | .read _ | .cancel => true
  | .dispatchIncoming _ | .signalClose | .close _ => false

def Route.target : Route → Bytes
  | .data sockID => sockID
  | .close origID => origID

variable {e' : Endpoint} {ev : Event} {failsAfter : Option Nat} {h h' : Hub}
  {id other p stream : Bytes} {proto : Except String Proto} {rt : Route} {s : RelaySocket}
  {sent : Except String Unit}

def newHub (limit : Option UInt64) : Hub := ⟨⟨limit, fun _ => none, []⟩, fun _ => {}, []⟩

namespace Hub

/-- The record of the socket registered under an id, a blank one if there is none. -/
def recordFor (h : Hub) (id : Bytes) : Record :=
  if (h.client.connSockets id).isSome then h.record id else {}

/-- The socket gets what the message asks for: its channel has room for the connection,
or it is registered and has no close signal pending. -/
def Delivered (h : Hub) : Route → Prop
  | .data sockID => (h.client.socketFor sockID).sock.ch.length < RelaySocket.chCap
  | .close origID =>
    (h.client.connSockets origID).isSome ∧ (h.client.socketFor origID).sock.closeSignal = false

instance (h : Hub) (rt : Route) : Decidable (h.Delivered rt) := by
  cases rt <;> unfold Delivered <;> infer_instance

def note (h : Hub) (peer : Option Bytes) (rt : Route) (id : Bytes) : Record :=
  if rt.target = id ∧ h.Delivered rt then
    match rt with
    | .data _ => (h.recordFor id).receive (h.client.socketFor id).sock.wires.length peer
    | .close _ => (h.recordFor id).signal peer
  else h.recordFor id

def incoming (h : Hub) (proto : Except String Proto) (stream : Bytes) (sent : Except String Unit) :
    Option Hub :=
  (dispatchStream h.client proto stream sent).map fun client =>
    { h with
      client := client
      record := match firstRoute proto stream sent with
        | none => h.record
        | some rt => h.note (remotePeer proto stream) rt }

def retire (h : Hub) (id : Bytes) : Hub :=
  { h with past := if (h.client.connSockets id).isSome then h.past ++ [h.record id] else h.past }

def newSocket (h : Hub) (id : Bytes) : Hub :=
  { h.retire id with
    client := h.client.setSocket id (newEndpoint id (some h.client.limit))
    record := Function.update h.record id { own := true } }

def noteCall (r : Record) : Event → Record
  | .connect _ dst _ => { r with connectedTo := r.connectedTo ++ [dst] }
  | _ => r

def call (h : Hub) (id : Bytes) (ev : Event) : Option Hub :=
  match h.client.connSockets id with
  | none => none
  | some e =>
    if ev.isCall then
      (next e ev).map fun e =>
        { h with
          client := h.client.setSocket id e
          record := Function.update h.record id (noteCall (h.record id) ev) }
    else none

def close (h : Hub) (id : Bytes) : Hub :=
  { h.retire id with
    client := { h.client with connSockets := Function.update h.client.connSockets id none } }

def step (h : Hub) : HubEvent → Option Hub
  | .incoming proto stream sent => h.incoming proto stream sent
  | .accept => (receive h.client .accept).map fun client => { h with client := client }
  | .newSocket id => some (h.newSocket id)
  | .call id ev => h.call id ev
  | .close id => some (h.close id)

theorem note_of_missed (peer : Option Bytes) (missed : ¬ (rt.target = id ∧ h.Delivered rt)) :
    h.note peer rt id = h.recordFor id :=
  if_neg missed

theorem note_data (peer : Option Bytes) (delivered : h.Delivered (.data id)) :
    h.note peer (.data id) id =
      (h.recordFor id).receive (h.client.socketFor id).sock.wires.length peer :=
  if_pos ⟨rfl, delivered⟩

theorem note_close (peer : Option Bytes) (delivered : h.Delivered (.close id)) :
    h.note peer (.close id) id = (h.recordFor id).signal peer :=
  if_pos ⟨rfl, delivered⟩

theorem missed_of_unknown (unknown : ¬ (h.client.connSockets id).isSome = true)
    (away : rt ≠ .data id) : ¬ (rt.target = id ∧ h.Delivered rt) := by
  rintro ⟨rfl, delivered⟩
  cases rt with
  | data sockID => exact away rfl
  | close origID => exact unknown delivered.1

theorem recordFor_incoming (ran : h.incoming proto stream sent = some h') (id : Bytes) :
    h'.recordFor id = match firstRoute proto stream sent with
      | none => h.recordFor id
      | some rt => h.note (remotePeer proto stream) rt id := by
  obtain ⟨client, dispatched, rfl⟩ := Option.map_eq_some_iff.mp ran
  have known := isSome_dispatchStream dispatched id
  cases hrt : firstRoute proto stream sent with
  | none => grind [recordFor]
  | some rt =>
    rw [hrt, Option.some.injEq] at known
    by_cases new : (client.connSockets id).isSome = true
    · exact if_pos new
    · -- a socket that is still not registered was not reached, and its record is blank
      obtain ⟨unknown, away⟩ := not_or.mp (mt known.mpr new)
      have blank : h.recordFor id = {} := if_neg unknown
      simp only
      rw [note_of_missed _ (missed_of_unknown unknown away), blank]
      exact if_neg new

theorem recordFor_newSocket_self (h : Hub) (id : Bytes) :
    (h.newSocket id).recordFor id = { own := true } := by
  simp [recordFor, newSocket, RelayClient.setSocket]

theorem recordFor_newSocket_of_ne (h : Hub) (ne : other ≠ id) :
    (h.newSocket id).recordFor other = h.recordFor other := by
  simp [recordFor, newSocket, RelayClient.setSocket, Function.update_of_ne ne]

theorem recordFor_close_self (h : Hub) (id : Bytes) : (h.close id).recordFor id = {} := by
  simp [recordFor, close]

theorem recordFor_close_of_ne (h : Hub) (ne : other ≠ id) :
    (h.close id).recordFor other = h.recordFor other := by
  simp [recordFor, close, retire, Function.update_of_ne ne]

theorem call_cases (ran : h.call id ev = some h') :
    ∃ e e', h.client.connSockets id = some e ∧ ev.isCall = true ∧ next e ev = some e' ∧
      h'.client = h.client.setSocket id e' ∧ h'.past = h.past ∧
      h'.recordFor id = noteCall (h.recordFor id) ev ∧
      ∀ other, other ≠ id → h'.recordFor other = h.recordFor other := by
  unfold call at ran
  split at ran
  · cases ran
  · rename_i e found
    split_ifs at ran with isCall
    obtain ⟨e', stepped, rfl⟩ := Option.map_eq_some_iff.mp ran
    refine ⟨e, e', found, isCall, stepped, rfl, rfl, ?_, fun other ne => ?_⟩
    · simp [recordFor, RelayClient.setSocket, found]
    · simp [recordFor, RelayClient.setSocket, Function.update_of_ne ne]

end Hub

namespace RelaySocket

/-- What `Connect` and `Write` leave alone. -/
def SameQueue (s t : RelaySocket) : Prop := t.ch = s.ch ∧ t.closeSignal = s.closeSignal

theorem openConn_sameQueue (s : RelaySocket) (dial : Dial) : s.SameQueue (s.openConn dial).1 := by
  unfold openConn
  split_ifs
  · exact ⟨rfl, rfl⟩
  · split <;> exact ⟨rfl, rfl⟩

theorem prepareWrite_sameQueue (s : RelaySocket) (dial : Dial) :
    s.SameQueue (s.prepareWrite dial).1 := by
  have retired : s.SameQueue s.retireCur := by
    unfold retireCur
    split <;> exact ⟨rfl, rfl⟩
  unfold prepareWrite rotateWrite
  split_ifs
  · exact ⟨(openConn_sameQueue _ dial).1.trans retired.1,
      (openConn_sameQueue _ dial).2.trans retired.2⟩
  · exact retired
  · exact ⟨rfl, rfl⟩

theorem writeOnConn_sameQueue {t : RelaySocket} {n : Nat} {err : Option Err}
    (h : s.writeOnConn p failsAfter = some (t, n, err)) : s.SameQueue t := by
  unfold writeOnConn at h
  split at h
  · cases h
  · simp only at h
    split at h
    · split at h <;> cases h <;> exact ⟨rfl, rfl⟩
    · cases h

theorem write_sameQueue {t : RelaySocket} {n : Nat} {err : Option Err} {dial : Dial}
    (h : s.write p dial failsAfter = some (t, n, err)) : s.SameQueue t := by
  have prepared := prepareWrite_sameQueue s dial
  unfold write at h
  split_ifs at h
  · cases h
    exact ⟨rfl, rfl⟩
  · split at h
    · rename_i refused
      cases h
      rwa [refused] at prepared
    · rename_i ready
      rw [ready] at prepared
      have written := writeOnConn_sameQueue h
      exact ⟨written.1.trans prepared.1, written.2.trans prepared.2⟩

end RelaySocket

/-- The calls of a socket only take from its channel and its signal. -/
theorem next_takes {e : Endpoint} (isCall : ev.isCall = true) (h : next e ev = some e') :
    (∀ c ∈ e'.sock.ch, c ∈ e.sock.ch) ∧
      (e'.sock.closeSignal = true → e.sock.closeSignal = true) := by
  have same {t : RelaySocket} (keeps : e.sock.SameQueue t) :
      (∀ c ∈ t.ch, c ∈ e.sock.ch) ∧ (t.closeSignal = true → e.sock.closeSignal = true) :=
    ⟨fun c mem => keeps.1 ▸ mem, fun up => keeps.2 ▸ up⟩
  cases ev with
  | connect ctxDone dst dial =>
    obtain ⟨r, connected, rfl⟩ := Option.map_eq_some_iff.mp h
    unfold RelaySocket.connect at connected
    split_ifs at connected
    cases connected
    exact same (RelaySocket.openConn_sameQueue (e.sock.aimAt ctxDone dst) dial)
  | write p dial failsAfter =>
    obtain ⟨⟨t, n, err⟩, written, rfl⟩ := Option.map_eq_some_iff.mp h
    exact same (RelaySocket.write_sameQueue written)
  | read step =>
    cases Endpoint.reads_of_readStep h with
    | accepted _ waiting => exact ⟨fun c mem => waiting ▸ List.mem_cons_of_mem _ mem, id⟩
    | closeSignal => exact ⟨fun _ mem => mem, nofun⟩
    | _ => exact same ⟨rfl, rfl⟩
  | cancel =>
    cases h
    exact same ⟨rfl, rfl⟩
  | dispatchIncoming | signalClose | close => cases isCall

/-- The record of a socket has the connections of its channel and, with a close signal
pending, the peer of a signal. -/
def Record.Covers (r : Record) (s : RelaySocket) : Prop :=
  (∀ c ∈ s.ch, ∃ peer, (c.wire, peer) ∈ r.received) ∧ (s.closeSignal = true → r.signalled ≠ [])

namespace Record

variable {r : Record} {peer : Option Bytes}

theorem covers_newEndpoint (r : Record) (id : Bytes) (client : Option (Option UInt64)) :
    r.Covers (newEndpoint id client).sock :=
  ⟨nofun, nofun⟩

theorem Covers.receive (covers : r.Covers s) (room : s.ch.length < RelaySocket.chCap)
    (unread : Bytes) : (r.receive s.wires.length peer).Covers (s.dispatchIncoming unread) := by
  rw [RelaySocket.dispatchIncoming, if_pos room]
  refine ⟨fun c mem => ?_, covers.2⟩
  rcases List.mem_append.mp mem with old | new
  · obtain ⟨peer, known⟩ := covers.1 c old
    exact ⟨peer, List.mem_append_left _ known⟩
  · obtain rfl := List.mem_singleton.mp new
    exact ⟨peer, List.mem_append_right _ (List.mem_singleton_self _)⟩

/-- A connection that finds the channel full is closed. -/
theorem Covers.refuse (covers : r.Covers s) (full : ¬ s.ch.length < RelaySocket.chCap)
    (unread : Bytes) : r.Covers (s.dispatchIncoming unread) := by
  rw [RelaySocket.dispatchIncoming, if_neg full]
  exact covers

theorem Covers.signal {t : RelaySocket} (covers : r.Covers s) (same : t.ch = s.ch) :
    (r.signal peer).Covers t :=
  ⟨same ▸ covers.1, fun _ => by simp [Record.signal]⟩

end Record

namespace Hub

/-- Every record covers its socket. -/
def Recorded (h : Hub) : Prop := ∀ id, (h.recordFor id).Covers (h.client.socketFor id).sock

theorem Recorded.incoming (recorded : h.Recorded) (ran : h.incoming proto stream sent = some h') :
    h'.Recorded := by
  intro id
  rw [recordFor_incoming ran id]
  obtain ⟨client, dispatched, rfl⟩ := Option.map_eq_some_iff.mp ran
  obtain ⟨first, read, dispatched⟩ := Option.bind_eq_some_iff.mp dispatched
  have routed : firstRoute proto stream sent = first.map fun first => route first.1 := by
    rw [firstRoute, read, Option.join_some]
  rw [routed]
  cases first with
  | none =>
    cases dispatched
    exact recorded id
  | some first =>
    obtain ⟨data, unread⟩ := first
    simp only [Option.map_some] at dispatched ⊢
    cases hroute : route data with
    | data sockID =>
      obtain ⟨chan, rfl⟩ := RelayClient.dispatch_data hroute dispatched
      rcases eq_or_ne id sockID with rfl | ne
      · rw [RelayClient.socketFor_setSocket_self]
        by_cases room : h.Delivered (.data id)
        · rw [note_data _ room]
          exact (recorded id).receive room unread
        · rw [note_of_missed _ fun hit => room hit.2]
          exact (recorded id).refuse room unread
      · rw [RelayClient.socketFor_setSocket_of_ne _ ne, note_of_missed _ fun hit => ne hit.1.symm]
        exact recorded id
    | close origID =>
      rcases RelayClient.dispatch_close hroute dispatched with rfl | ⟨e, found, rfl⟩
      · by_cases hit : Route.target (.close origID) = id ∧ h.Delivered (.close origID)
        · obtain ⟨rfl, quiet⟩ := hit
          rw [Route.target, note_close _ quiet]
          exact (recorded origID).signal rfl
        · rw [note_of_missed _ hit]
          exact recorded id
      · rcases eq_or_ne id origID with rfl | ne
        · rw [RelayClient.socketFor_setSocket_self, ← RelayClient.socketFor_of_some found]
          by_cases quiet : h.Delivered (.close id)
          · rw [note_close _ quiet]
            exact (recorded id).signal rfl
          · rw [note_of_missed _ fun hit => quiet hit.2]
            have pending : (h.client.socketFor id).sock.closeSignal = true := by
              simpa [Delivered, found] using quiet
            exact ⟨(recorded id).1, fun _ => (recorded id).2 pending⟩
        · rw [RelayClient.socketFor_setSocket_of_ne _ ne,
            note_of_missed _ fun hit => ne hit.1.symm]
          exact recorded id

theorem Recorded.call (recorded : h.Recorded) (ran : h.call id ev = some h') : h'.Recorded := by
  obtain ⟨e, e', found, isCall, went, client, -, here, away⟩ := call_cases ran
  intro other
  rw [client]
  rcases eq_or_ne other id with rfl | ne
  · rw [RelayClient.socketFor_setSocket_self, here]
    have before := recorded other
    rw [RelayClient.socketFor_of_some found] at before
    obtain ⟨takes, signal⟩ := next_takes isCall went
    have same : (noteCall (h.recordFor other) ev).received = (h.recordFor other).received ∧
        (noteCall (h.recordFor other) ev).signalled = (h.recordFor other).signalled := by
      cases ev <;> exact ⟨rfl, rfl⟩
    exact ⟨fun c mem => same.1 ▸ before.1 c (takes c mem),
      fun up => same.2 ▸ before.2 (signal up)⟩
  · rw [RelayClient.socketFor_setSocket_of_ne _ ne, away other ne]
    exact recorded other

theorem Recorded.step {ev : HubEvent} (recorded : h.Recorded) (ran : h.step ev = some h') :
    h'.Recorded := by
  cases ev with
  | incoming proto stream sent => exact recorded.incoming ran
  | accept =>
    obtain ⟨client, accepted, rfl⟩ := Option.map_eq_some_iff.mp ran
    obtain ⟨rest, rfl⟩ := receive_accept accepted
    exact recorded
  | newSocket id =>
    cases ran
    intro other
    rcases eq_or_ne other id with rfl | ne
    · rw [newSocket, RelayClient.socketFor_setSocket_self]
      exact Record.covers_newEndpoint ..
    · rw [recordFor_newSocket_of_ne h ne, newSocket, RelayClient.socketFor_setSocket_of_ne _ ne]
      exact recorded other
  | call id ev => exact recorded.call ran
  | close id =>
    cases ran
    intro other
    rcases eq_or_ne other id with rfl | ne
    · simp only [close, RelayClient.socketFor, Function.update_self, Option.getD_none]
      exact Record.covers_newEndpoint ..
    · rw [recordFor_close_of_ne h ne]
      simpa only [close, RelayClient.socketFor, Function.update_of_ne ne] using recorded other

/-- In every reachable client the records have what the sockets hold. -/
theorem recorded_of_exec {limit : Option UInt64} {es : List HubEvent}
    (run : exec Hub.step (newHub limit) es = some h) : h.Recorded :=
  exec_invariant (fun _ _ _ recorded ran => Recorded.step recorded ran)
    (fun _ => Record.covers_newEndpoint ..) run

end Hub

end Relayhub
