import Mathlib.Data.List.Nodup
import Toxera.Lib.Locks
import Toxera.Relayhub.Socket

/-!
# Closing a client

`RelayClient.Close` of `relayhub/relay.go` holds both mutexes of the client while it
closes the registered sockets, and a socket that is closed locks them again.
-/

namespace Relayhub

open Locks RelaySocket

inductive Mutex where
  | mu
  | connSocketsMu
  deriving DecidableEq

variable {held : List Mutex} {s' : RelaySocket}

structure ClientState where
  /-- `session`, `watchdogCancel` and `listener` are not nil -/
  session : Bool
  watchdogCancel : Bool
  listener : Bool
  dispatchRunning : Bool
  /-- `sessionDone` is closed -/
  sessionDone : Bool
  connSockets : List RelaySocket
  /-- every socket is registered under its id -/
  keys_nodup : (connSockets.map RelaySocket.id).Nodup
  deriving DecidableEq

namespace ClientState

def stopDispatch (c : ClientState) : ClientState := { c with dispatchRunning := false }

def notifySessionDone (c : ClientState) : ClientState := { c with sessionDone := true }

def delete (c : ClientState) (id : Bytes) : ClientState :=
  { c with
    connSockets := c.connSockets.filter fun s => s.id ≠ id
    keys_nodup := c.keys_nodup.sublist (List.filter_sublist.map _) }

/-- The part of `ConnectThroughRelay` under the mutex: whether there is a session. -/
def connectThroughRelay (c : ClientState) : Chain Mutex Bool := locked .mu (pure c.session)

def announceClose (c : ClientState) (s : RelaySocket) (dial : Dial) : Chain Mutex RelaySocket :=
  if s.dstPeer ≠ [] ∧ s.client then
    -- the id is sliced before the mutex is asked for
    match s.closeID with
    | none => stop .panic
    | some _ => do
      let session ← c.connectThroughRelay
      match s.sendClose { dial with connected := session && dial.connected } with
      | none => stop .panic
      | some s => return s
  else return s

def deregister (c : ClientState) (s : RelaySocket) : Chain Mutex ClientState :=
  if s.client then locked .connSocketsMu (pure (c.delete s.id)) else pure c

def release (s : RelaySocket) : RelaySocket :=
  match s.cur with
  | none => { s with ctxDone := true }
  | some conn => { s.closeConn conn with ctxDone := true, cur := none }

def markClosed (s : RelaySocket) : RelaySocket := { s with closed := true }

def closeSocket (c : ClientState) (s : RelaySocket) (dial : Dial) :
    Chain Mutex (RelaySocket × ClientState) :=
  if s.closed then return (s, c)
  else do
    let s ← c.announceClose (markClosed s) dial
    let c ← c.deregister s
    return (release s, c)

def closeSockets (dials : Bytes → Dial) :
    List RelaySocket → ClientState → Chain Mutex (List RelaySocket × ClientState)
  | [], c => return ([], c)
  | s :: rest, c => do
    let (s', c) ← c.closeSocket s (dials s.id)
    let (rest', c) ← closeSockets dials rest (c.delete s.id)
    return (s' :: rest', c)

def stopWatchdog (c : ClientState) : ClientState := { c with watchdogCancel := false }

def endSession (c : ClientState) : ClientState := { c with listener := false, session := false }

def close (dials : Bytes → Dial) (c : ClientState) :
    Chain Mutex (List RelaySocket × ClientState) :=
  let c := c.stopDispatch.notifySessionDone
  -- the unlock of `mu` is deferred to the end, that of `connSocketsMu` follows the loop
  locked .mu do
    let c := c.stopWatchdog
    let (socks, c) ← locked .connSocketsMu (closeSockets dials c.connSockets c)
    return (socks, c.endSession)

def Quiet (s : RelaySocket) : Prop := s.closed = true ∨ s.client = false

instance (s : RelaySocket) : Decidable (Quiet s) := inferInstanceAs (Decidable (_ ∨ _))

variable {s : RelaySocket}

@[simp] theorem release_id (s : RelaySocket) : (release s).id = s.id := by
  unfold release
  cases s.cur <;> rfl

@[simp] theorem release_closed (s : RelaySocket) : (release s).closed = s.closed := by
  unfold release
  cases s.cur <;> rfl

theorem announceClose_silent (c : ClientState) (dial : Dial) (held : List Mutex)
    (silent : ¬ (s.dstPeer ≠ [] ∧ s.client = true)) :
    (c.announceClose s dial).run held = .ok (s, held) := by
  rw [announceClose, if_neg silent]
  rfl

theorem deregister_no_client (c : ClientState) (held : List Mutex) (noClient : s.client = false) :
    (c.deregister s).run held = .ok (c, held) := by
  rw [deregister, noClient]
  rfl

theorem closeSocket_quiet (c : ClientState) (dial : Dial) (held : List Mutex) (quiet : Quiet s) :
    ∃ s', (c.closeSocket s dial).run held = .ok ((s', c), held) ∧
      s'.id = s.id ∧ s'.closed = true := by
  by_cases closed : s.closed = true
  · refine ⟨s, ?_, rfl, closed⟩
    rw [closeSocket, if_pos closed]
    rfl
  · have noClient : s.client = false := quiet.resolve_left closed
    have silent : ¬ ((markClosed s).dstPeer ≠ [] ∧ (markClosed s).client = true) := fun both =>
      Bool.false_ne_true (noClient.symm.trans both.2)
    refine ⟨release (markClosed s), ?_, release_id _, release_closed _⟩
    rw [closeSocket, if_neg closed, bind_ok (c.announceClose_silent dial held silent),
      bind_ok (deregister_no_client (s := markClosed s) c held noClient)]
    rfl

theorem closeSocket_stuck (c : ClientState) (dial : Dial) (loud : ¬ Quiet s) (mu : .mu ∈ held)
    (connSocketsMu : .connSocketsMu ∈ held) :
    (c.closeSocket s dial).run held = .error
      (if s.dstPeer = [] then .selfLock .connSocketsMu
       else if s.id.length < 6 then .panic else .selfLock .mu) := by
  -- without a known peer the socket comes as far as its own entry of the table
  obtain ⟨opened, client⟩ := not_or.mp loud
  replace client : s.client = true := Bool.of_not_eq_false client
  rw [closeSocket, if_neg opened]
  by_cases known : s.dstPeer = []
  · have silent : ¬ ((markClosed s).dstPeer ≠ [] ∧ (markClosed s).client = true) := fun both =>
      both.1 known
    rw [if_pos known, bind_ok (c.announceClose_silent dial held silent)]
    refine bind_error ?_
    rw [deregister, show (markClosed s).client = true from client]
    exact locked_self connSocketsMu
  · rw [if_neg known]
    refine bind_error ?_
    rw [announceClose, if_pos ⟨known, client⟩]
    by_cases short : s.id.length < 6
    · have noID : (markClosed s).closeID = none := if_pos short
      rw [if_pos short, noID]
      rfl
    · have someID : (markClosed s).closeID =
          some (closePrefix ++ s.id.drop 6) := if_neg short
      rw [if_neg short, someID]
      exact bind_error (locked_self mu)

theorem closeSockets_quiet (dials : Bytes → Dial) (held : List Mutex) :
    ∀ (socks : List RelaySocket) (c : ClientState), (∀ s ∈ socks, Quiet s) →
      ∃ socks' c', (closeSockets dials socks c).run held = .ok ((socks', c'), held) ∧
        socks'.map RelaySocket.id = socks.map RelaySocket.id ∧ (∀ s ∈ socks', s.closed = true) ∧
        c'.connSockets = c.connSockets.filter fun s => s.id ∉ socks.map RelaySocket.id
  | [], c, _ => ⟨[], c, rfl, rfl, by simp, by simp⟩
  | s :: rest, c, quiet => by
    obtain ⟨s', ran, id, closed⟩ :=
      closeSocket_quiet c (dials s.id) held (quiet s List.mem_cons_self)
    obtain ⟨rest', c', ranRest, ids, allClosed, left⟩ :=
      closeSockets_quiet dials held rest (c.delete s.id) fun s mem =>
        quiet s (List.mem_cons_of_mem _ mem)
    refine ⟨s' :: rest', c', ?_, by simp [id, ids], by simpa [closed] using allClosed, ?_⟩
    · rw [closeSockets, bind_ok ran, bind_ok ranRest]
      rfl
    · rw [left]
      simp [delete, List.filter_filter, Bool.and_comm]

theorem closeSockets_stuck (dials : Bytes → Dial) (mu : .mu ∈ held)
    (connSocketsMu : .connSocketsMu ∈ held) :
    ∀ (socks : List RelaySocket) (c : ClientState), ¬ (∀ s ∈ socks, Quiet s) →
      ∃ why, (closeSockets dials socks c).run held = .error why
  | [], c, loud => absurd (by simp) loud
  | s :: rest, c, loud => by
    by_cases quiet : Quiet s
    · obtain ⟨s', ran, -⟩ := closeSocket_quiet c (dials s.id) held quiet
      have loudRest : ¬ ∀ s ∈ rest, Quiet s := fun all =>
        loud (List.forall_mem_cons.mpr ⟨quiet, all⟩)
      obtain ⟨why, ranRest⟩ :=
        closeSockets_stuck dials mu connSocketsMu rest (c.delete s.id) loudRest
      refine ⟨why, ?_⟩
      rw [closeSockets, bind_ok ran, bind_error ranRest]
    · exact ⟨_, bind_error (closeSocket_stuck c (dials s.id) quiet mu connSocketsMu)⟩

theorem close_quiet (dials : Bytes → Dial) (c : ClientState)
    (quiet : ∀ s ∈ c.connSockets, Quiet s) :
    ∃ socks c', (c.close dials).run [] = .ok ((socks, c'), []) ∧ c'.connSockets = [] ∧
      socks.map RelaySocket.id = c.connSockets.map RelaySocket.id ∧
      ∀ s ∈ socks, s.closed = true := by
  obtain ⟨socks, c', ran, ids, closed, left⟩ :=
    closeSockets_quiet dials [.connSocketsMu, .mu] c.connSockets
      c.stopDispatch.notifySessionDone.stopWatchdog quiet
  have inner := locked_ok (by decide : Mutex.connSocketsMu ∉ [.mu]) ran
  refine ⟨socks, c'.endSession, ?_, ?_, ids, closed⟩
  · refine locked_ok (by decide) ?_
    exact bind_ok inner
  · show c'.connSockets = []
    rw [left, List.filter_eq_nil_iff]
    intro s mem
    simpa using ⟨s, mem, rfl⟩

theorem close_stuck (dials : Bytes → Dial) (c : ClientState)
    (loud : ¬ ∀ s ∈ c.connSockets, Quiet s) : ∃ why, (c.close dials).run [] = .error why := by
  obtain ⟨why, ran⟩ :=
    closeSockets_stuck dials (by decide : Mutex.mu ∈ [.connSocketsMu, .mu]) (by decide)
      c.connSockets c.stopDispatch.notifySessionDone.stopWatchdog loud
  exact ⟨why, locked_error (by decide) (bind_error (locked_error (by decide) ran))⟩

/-- `Close` returns exactly if every registered socket is closed before, or has no client to lock.
-/
theorem close_returns_iff (dials : Bytes → Dial) (c : ClientState) :
    ((∃ r held, (c.close dials).run [] = .ok (r, held)) ↔
      ∀ s ∈ c.connSockets, s.closed = true ∨ s.client = false) ∧
    ∀ socks c' held, (c.close dials).run [] = .ok ((socks, c'), held) →
      held = [] ∧ c'.connSockets = [] ∧
        socks.map RelaySocket.id = c.connSockets.map RelaySocket.id ∧
        ∀ s ∈ socks, s.closed = true := by
  have quiet_of_returns {r held} (ran : (c.close dials).run [] = .ok (r, held)) :
      ∀ s ∈ c.connSockets, Quiet s := by
    by_contra loud
    obtain ⟨why, stuck⟩ := c.close_stuck dials loud
    cases ran.symm.trans stuck
  refine ⟨⟨fun ⟨_, _, ran⟩ => quiet_of_returns ran, fun quiet => ?_⟩, fun socks c' held ran => ?_⟩
  · obtain ⟨socks, c', ran, -⟩ := c.close_quiet dials quiet
    exact ⟨_, _, ran⟩
  · obtain ⟨_, _, ran', post⟩ := c.close_quiet dials (quiet_of_returns ran)
    cases ran.symm.trans ran'
    exact ⟨rfl, post⟩

def registered (session : Bool) (s : RelaySocket) : ClientState where
  session := session
  watchdogCancel := true
  listener := false
  dispatchRunning := true
  sessionDone := false
  connSockets := [s]
  keys_nodup := List.nodup_singleton _

/-- A fresh socket blocks `Close`, and so does one that was connected. -/
theorem open_socket_blocks_close :
    (∀ session dials,
      ((registered session (newRelaySocketWithID sockID (some none))).close dials).run [] =
        .error (.selfLock .connSocketsMu)) ∧
    ∀ session dials,
      ((registered session { newRelaySocketWithID sockID (some none) with dstPeer := [1] }).close
        dials).run [] = .error (.selfLock .mu) :=
  ⟨fun _ _ => rfl, fun _ _ => rfl⟩

end ClientState

end Relayhub
