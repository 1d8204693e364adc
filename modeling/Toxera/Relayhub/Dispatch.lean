import Mathlib.Data.List.DropRight
import Toxera.Relayhub.Socket

/-!
# The dispatch loop of relayhub

One loop of a client takes every incoming relayed connection, reads its first message and
hands the connection to the socket of that id, creating the socket for a new id.
-/

namespace Relayhub

def acceptChanCap : Nat := 8

structure RelayClient where
  limit : Option UInt64
  connSockets : Bytes → Option Endpoint
  /-- the ids of the sockets that wait for `Accept` -/
  acceptChan : List Bytes

variable {c c' : RelayClient} {data id unread : Bytes}

def isBlank (b : UInt8) : Bool := b = 10 ∨ b = 13 ∨ b = 9 ∨ b = 32

def trimRight (data : Bytes) : Bytes := data.rdropWhile isBlank

inductive Route where
  | data (sockID : Bytes)
  | close (origID : Bytes)
  deriving DecidableEq

def route (data : Bytes) : Route :=
  let sockID := trimRight data
  if RelaySocket.closePrefix.isPrefixOf sockID then
    .close (RelaySocket.sockPrefix ++ sockID.drop 6)
  else .data sockID

namespace RelayClient

def setSocket (c : RelayClient) (id : Bytes) (e : Endpoint) : RelayClient :=
  { c with connSockets := Function.update c.connSockets id (some e) }

/-- A round of the loop on a connection, given by its first message and the bytes that follow. -/
def dispatch (c : RelayClient) (data unread : Bytes) : Option RelayClient :=
  match route data with
  | .close origID =>
    match c.connSockets origID with
    | none => some c
    | some e => some (c.setSocket origID { e with sock := e.sock.signalClose })
  | .data sockID =>
    match c.connSockets sockID with
    | some e => some (c.setSocket sockID { e with sock := e.sock.dispatchIncoming unread })
    | none =>
      if acceptChanCap ≤ c.acceptChan.length then none
      else
        let e := newEndpoint sockID (some c.limit)
        some ({ c with acceptChan := c.acceptChan ++ [sockID] }.setSocket sockID
          { e with sock := e.sock.dispatchIncoming unread })

end RelayClient

inductive Incoming where
  | conn (data unread : Bytes)
  | accept
  | read (id : Bytes) (step : ReadStep)
  deriving DecidableEq

def receive (c : RelayClient) : Incoming → Option RelayClient
  | .conn data unread => c.dispatch data unread
  | .accept =>
    match c.acceptChan with
    | [] => none
    | _ :: rest => some { c with acceptChan := rest }
  | .read id step =>
    match c.connSockets id with
    | none => none
    | some e => (e.readStep step).map (c.setSocket id)

namespace RelayClient

def socketFor (c : RelayClient) (id : Bytes) : Endpoint :=
  (c.connSockets id).getD (newEndpoint id (some c.limit))

theorem socketFor_of_some {e : Endpoint} (h : c.connSockets id = some e) : c.socketFor id = e := by
  rw [socketFor, h, Option.getD_some]

theorem socketFor_setSocket_self (c : RelayClient) (id : Bytes) (e : Endpoint) :
    (c.setSocket id e).socketFor id = e :=
  socketFor_of_some (Function.update_self ..)

theorem socketFor_setSocket_of_ne (c : RelayClient) {other : Bytes} (ne : id ≠ other) (e : Endpoint) :
    (c.setSocket other e).socketFor id = c.socketFor id := by
  simp only [socketFor, setSocket, Function.update_of_ne ne]

theorem isSome_setSocket (c : RelayClient) (id other : Bytes) (e : Endpoint) :
    ((c.setSocket other e).connSockets id).isSome = true ↔
      (c.connSockets id).isSome = true ∨ other = id := by
  rcases eq_or_ne id other with rfl | ne
  · simp [setSocket]
  · simp [setSocket, Function.update_of_ne ne, ne.symm]

theorem dispatch_close {origID : Bytes} (hroute : route data = .close origID)
    (h : c.dispatch data unread = some c') :
    c' = c ∨ ∃ e, c.connSockets origID = some e ∧
      c' = c.setSocket origID { e with sock := e.sock.signalClose } := by
  unfold dispatch at h
  rw [hroute] at h
  simp only at h
  cases found : c.connSockets origID with
  | none => grind
  | some e => grind

theorem dispatch_data {sockID : Bytes} (hroute : route data = .data sockID)
    (h : c.dispatch data unread = some c') :
    ∃ chan, c' = { c with acceptChan := chan }.setSocket sockID
      { c.socketFor sockID with
        sock := (c.socketFor sockID).sock.dispatchIncoming unread } := by
  unfold dispatch at h
  rw [hroute] at h
  simp only at h
  cases found : c.connSockets sockID with
  | some e =>
    rw [found] at h
    rw [socketFor_of_some found]
    exact ⟨c.acceptChan, (Option.some.inj h).symm⟩
  | none => grind [socketFor]

theorem isSome_dispatch (h : c.dispatch data unread = some c') (id : Bytes) :
    (c'.connSockets id).isSome = true ↔
      (c.connSockets id).isSome = true ∨ route data = .data id := by
  cases hroute : route data with
  | close origID =>
    simp only [reduceCtorEq, or_false]
    rcases dispatch_close hroute h with rfl | ⟨e, found, rfl⟩
    · exact Iff.rfl
    · grind [isSome_setSocket]
  | data sockID => grind [dispatch_data, isSome_setSocket]

end RelayClient

/-- The effect of a step on the socket of an id, in a client and in the events. -/
inductive Touches (id : Bytes) (e : Endpoint) : Incoming → Endpoint → Prop
  | data {data unread : Bytes} : route data = .data id →
    Touches id e (.conn data unread) { e with sock := e.sock.dispatchIncoming unread }
  | close {data unread : Bytes} : route data = .close id →
    Touches id e (.conn data unread) { e with sock := e.sock.signalClose }
  | read {step : ReadStep} {e' : Endpoint} : e.Reads step e' → Touches id e (.read id step) e'
  | other {ev : Incoming} : (∀ data unread, ev = .conn data unread → route data ≠ .data id) →
    Touches id e ev e

theorem dispatch_touches (id : Bytes) (h : c.dispatch data unread = some c') :
    Touches id (c.socketFor id) (.conn data unread) (c'.socketFor id) := by
  cases hroute : route data with
  | close origID =>
    have away : ∀ d u, Incoming.conn data unread = .conn d u → route d ≠ .data id := by
      rintro _ _ ⟨⟩
      rw [hroute]
      simp
    rcases RelayClient.dispatch_close hroute h with rfl | ⟨e, found, rfl⟩
    · exact .other away
    · rcases eq_or_ne id origID with rfl | ne
      · rw [RelayClient.socketFor_setSocket_self, RelayClient.socketFor_of_some found]
        exact .close hroute
      · rw [RelayClient.socketFor_setSocket_of_ne _ ne]
        exact .other away
  | data sockID =>
    obtain ⟨chan, rfl⟩ := RelayClient.dispatch_data hroute h
    rcases eq_or_ne id sockID with rfl | ne
    · rw [RelayClient.socketFor_setSocket_self]
      exact .data hroute
    · rw [RelayClient.socketFor_setSocket_of_ne _ ne]
      refine .other ?_
      rintro _ _ ⟨⟩
      rw [hroute]
      exact fun eq => ne (Route.data.inj eq).symm

theorem receive_accept (h : receive c .accept = some c') :
    ∃ rest, c' = { c with acceptChan := rest } := by
  simp only [receive] at h
  split at h
  · cases h
  · exact ⟨_, (Option.some.inj h).symm⟩

theorem receive_touches {ev : Incoming} (id : Bytes) (h : receive c ev = some c') :
    Touches id (c.socketFor id) ev (c'.socketFor id) := by
  cases ev with
  | conn data unread => exact dispatch_touches id h
  | accept =>
    obtain ⟨rest, rfl⟩ := receive_accept h
    exact .other (by simp)
  | read other step =>
    simp only [receive] at h
    cases found : c.connSockets other with
    | none =>
      rw [found] at h
      cases h
    | some e =>
      rw [found] at h
      obtain ⟨e', stepped, rfl⟩ := Option.map_eq_some_iff.mp h
      rcases eq_or_ne id other with rfl | ne
      · rw [RelayClient.socketFor_setSocket_self, RelayClient.socketFor_of_some found]
        exact .read (Endpoint.reads_of_readStep stepped)
      · rw [RelayClient.socketFor_setSocket_of_ne _ ne]
        exact .other (by simp)

end Relayhub
