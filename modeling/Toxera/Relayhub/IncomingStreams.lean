import Toxera.Relayhub.Multistream

/-!
# Serving incoming streams

`handleIncoming` of `relayhub/relay.go` with all that it runs on a stream, as a program:
the negotiation, the table of protocols, and a handler for each of them.
-/

namespace Relayhub.Streams

open Dialogue Duplex Exec

variable {proto : Bytes}

inductive Handler where
  | v1Hop
  | v2Stop
  | identify
  | identifyPush
  | reject (name : String)
  | ping
  deriving DecidableEq

def protocols : List (Bytes × Handler) :=
  [(BaseEncoding.ascii "/libp2p/circuit/relay/0.1.0", .v1Hop),
    (BaseEncoding.ascii "/libp2p/circuit/relay/0.2.0/stop", .v2Stop),
    (BaseEncoding.ascii "/ipfs/id/1.0.0", .identify),
    (BaseEncoding.ascii "/ipfs/id/push/1.0.0", .identifyPush),
    (BaseEncoding.ascii "/libp2p/autonat/1.0.0", .reject "autonat/v1"),
    (BaseEncoding.ascii "/libp2p/autonat/2/dial-back", .reject "autonat/v2/dial-back"),
    (BaseEncoding.ascii "/libp2p/autonat/2/dial-request", .reject "autonat/v2/dial-request"),
    (BaseEncoding.ascii "/libp2p/dcutr", .reject "dcutr"),
    (BaseEncoding.ascii "/ipfs/kad/1.0.0", .reject "kad"),
    (BaseEncoding.ascii "/ipfs/ping/1.0.0", .ping)]

def handlerFor (proto : Bytes) : Option Handler := protocols.lookup (trimRight proto)

def negotiate : MSCall (Option Handler) := do
  let proto ← msRespond
  return handlerFor proto

def ignore {α : Type} (x : Call α) : Call Unit := ExceptT.mk do
  let _ ← x.run
  return .ok ()

def closing {α : Type} (x : Call α) : Call α := ExceptT.mk do
  match ← x.run with
  | .ok a => return .ok a
  | .error err =>
    let _ ← (Call.close : Call Unit).run
    return .error err

def ofOutcome {α : Type} (x : Outcome α) : Call α :=
  match x.run with
  | none => Call.crash
  | some (.error err) => throw err
  | some (.ok a) => pure a

def wrapped {α : Type} (text : String) (x : Call α) : Call α := x.adapt (text ++ ": " ++ ·)

def circuitV1Success : CircuitV1Message := { type := 3, code := 100 }

def acceptV1Hop : Call Bool := do
  let data ← wrapped "read v1 msg" readOnePb
  let msg ← wrapped "decode v1 msg" (ofOutcome (decodeCircuitV1 data))
  if msg.type = circuitV1TypeStop then
    wrapped "send v1 status" (writePbMessage (encodeCircuitV1 circuitV1Success))
    return true
  else if msg.type = circuitV1TypeCanHop then
    ignore (writePbMessage (encodeCircuitV1 circuitV1Success))
    Call.close
    return false
  else throw (errRelayStatus ++ ": unexpected v1 type " ++ toString msg.type)

def stopSuccess : StopMessage := { type := 1, status := 100 }

def acceptV2Stop : Call Bool := closing do
  let data ← wrapped "read v2 stop" readOnePb
  let msg ← wrapped "decode v2 stop" (ofOutcome (decodeStopMessage data))
  if msg.type ≠ stopTypeConnect then
    throw (errRelayStatus ++ ": expected CONNECT, got type " ++ toString msg.type)
  wrapped "send v2 status" (writePbMessage (encodeStopMessage stopSuccess))
  return true

def rejectStream : Call Unit := do
  ignore readOnePb
  Call.close

def pingLoop : Nat → Call Unit
  | 0 => Call.crash
  | fuel + 1 => do
    let data ← readOnePb
    writePbMessage data
    pingLoop fuel

def handlePing (fuel : Nat) : Call Unit := do
  ignore (pingLoop fuel)
  Call.close

def serve (identifyResponse : Bytes) (fuel : Nat) : Handler → Call Bool
  | .v1Hop => acceptV1Hop
  | .v2Stop => acceptV2Stop
  | .identify => do
    ignore (writePbMessage identifyResponse)
    return false
  | .identifyPush => do
    ignore readOnePb
    return false
  | .reject _ => do
    rejectStream
    return false
  | .ping => do
    handlePing fuel
    return false

inductive IncomingError where
  | negotiation (err : MSError)
  | handler (err : String)
  deriving DecidableEq

def handleIncoming (identifyResponse : Bytes) (fuel : Nat) :
    Dialogue.Call UInt8 String IncomingError Bool := do
  match ← negotiate.adapt IncomingError.negotiation with
  | none => return false
  | some handler => (serve identifyResponse fuel handler).adapt IncomingError.handler

def proposal (protoID : Bytes) :
    State UInt8 Unit (Except MSError Unit) (Except MSError (Option Handler)) :=
  ⟨(msSelect protoID).run.proc, negotiate.run.proc, [], []⟩

def Served (protoID : Bytes) : Prop := ∃ handler, (trimRight protoID, handler) ∈ protocols

def Answered (protoID : Bytes)
    (s : State UInt8 Unit (Except MSError Unit) (Except MSError (Option Handler))) : Prop :=
  ∃ result, s.left = .done result ∧
    (result = .ok () →
      ∃ handler, s.right = .done (.ok (some handler)) ∧ (trimRight protoID, handler) ∈ protocols) ∧
    (¬ Served protoID → result = .error (.protocolNotAvailable protoID))

theorem mem_protocols_of_handlerFor {handler : Handler} (h : handlerFor proto = some handler) :
    (trimRight proto, handler) ∈ protocols := by
  obtain ⟨before, after, table, -⟩ := List.lookup_eq_some_iff.mp h
  rw [table]
  exact List.mem_append_right _ List.mem_cons_self

theorem handlerFor_eq_none_iff : handlerFor proto = none ↔ ¬ Served proto := by
  constructor
  · rintro missing ⟨handler, listed⟩
    have differs := List.lookup_eq_none_iff.mp missing _ listed
    exact absurd rfl (bne_iff_ne.mp differs)
  · intro unserved
    rw [← Option.not_isSome_iff_eq_none]
    intro found
    obtain ⟨handler, h⟩ := Option.isSome_iff_exists.mp found
    exact unserved ⟨handler, mem_protocols_of_handlerFor h⟩

theorem na_not_served : ¬ Served na := by
  rw [← handlerFor_eq_none_iff]
  decide +kernel

theorem proposal_ends {protoID : Bytes} (other : protoID ≠ na) (fits : protoID.length < maxAlloc) :
    Ends (proposal protoID) (.ok ()) (.ok (handlerFor protoID)) := by
  have left : (msSelect protoID).run.proc = (msSelect protoID).run.proc >>= .done :=
    (Proc.bind_done _).symm
  have right : negotiate.run.proc = msRespond.run.proc >>= andThen .done
      fun proto => (pure (handlerFor proto) : MSCall (Option Handler)) := by
    rw [← proc_call_bind, Proc.bind_done]
    rfl
  rw [proposal, left, right]
  refine (finishing_headers ?_).ends
  refine finishing_proto fits other ?_
  exact .done _ _

def naMoves : List Move :=
  [.left 20, .left 0, .right 1, .right 0, .right 19, .right 0, .right 20, .right 0,
    .left 1, .left 0, .left 19, .left 0, .left 4, .left 0, .right 1, .right 0, .right 3, .right 0]

theorem na_unanswered :
    ∃ t, exec step (proposal na) naMoves = some t ∧ (∀ e, step t e = none) ∧
      t.left.result = none := by
  have seen : (exec step (proposal na) naMoves).map (fun t =>
      (t.left.idle, t.right.idle, t.toLeft, t.toRight, t.left.result.isNone)) =
        some (true, true, [], [], true) := by
    decide +kernel
  obtain ⟨⟨p, q, i, o⟩, run, seen⟩ := Option.map_eq_some_iff.mp seen
  simp only [Prod.mk.injEq] at seen
  obtain ⟨left, right, rfl, rfl, waits⟩ := seen
  exact ⟨_, run, step_of_idle left right, Option.isNone_iff_eq_none.mp waits⟩

/-- Whatever the order of the steps and the pieces, the peer ends up with a right answer, exactly
if its protocol is in the table. -/
theorem answered_iff_served {protoID : Bytes} (fits : protoID.length < maxAlloc) :
    (∀ moves t, exec step (proposal protoID) moves = some t → (∀ e, step t e = none) →
      Answered protoID t) ↔ Served protoID := by
  constructor
  · intro answered
    by_contra unserved
    by_cases refused : protoID = na
    · subst refused
      obtain ⟨t, run, still, waits⟩ := na_unanswered
      obtain ⟨result, ended, -⟩ := answered _ t run still
      rw [ended] at waits
      cases waits
    · obtain ⟨bound, ends⟩ := proposal_ends refused fits
      obtain ⟨-, ⟨moves, run⟩, -⟩ := ends [] _ rfl
      obtain ⟨result, ended, agreed, -⟩ := answered moves _ run (step_of_idle rfl rfl)
      cases ended
      obtain ⟨handler, runs, -⟩ := agreed rfl
      have missing := handlerFor_eq_none_iff.mpr unserved
      rw [Duplex.ended, missing] at runs
      cases runs
  · rintro ⟨handler, listed⟩ moves t run still
    have served : Served protoID := ⟨handler, listed⟩
    have other : protoID ≠ na := by
      rintro rfl
      exact na_not_served served
    obtain ⟨bound, ends⟩ := proposal_ends other fits
    obtain ⟨-, -, only⟩ := ends moves t run
    obtain rfl := only still
    refine ⟨.ok (), rfl, fun _ => ?_, fun unserved => absurd served unserved⟩
    cases found : handlerFor protoID with
    | none => exact absurd served (handlerFor_eq_none_iff.mp found)
    | some handler => exact ⟨handler, by rw [Duplex.ended], mem_protocols_of_handlerFor found⟩

theorem ping_answered :
    let ping := BaseEncoding.ascii "/ipfs/ping/1.0.0"
    Served ping ∧ ∀ moves t, exec step (proposal ping) moves = some t → (∀ e, step t e = none) →
      Answered ping t := by
  have served : Served (BaseEncoding.ascii "/ipfs/ping/1.0.0") := ⟨.ping, by decide +kernel⟩
  exact ⟨served, (answered_iff_served (by decide)).mpr served⟩

/-- A protocol that is not in the table: the peer is told that it is selected, and nothing
serves it. -/
theorem unknown_agreed :
    let chat := BaseEncoding.ascii "/chat/1.0.0"
    ¬ Served chat ∧ ∃ moves t, exec step (proposal chat) moves = some t ∧
      (∀ e, step t e = none) ∧ t.left.result = some (.ok ()) ∧ t.right.result = some (.ok none) ∧
      ¬ Answered chat t := by
  have missing : handlerFor (BaseEncoding.ascii "/chat/1.0.0") = none := by decide +kernel
  have other : BaseEncoding.ascii "/chat/1.0.0" ≠ na := by decide
  obtain ⟨bound, ends⟩ := proposal_ends other (by decide)
  obtain ⟨-, ⟨moves, run⟩, -⟩ := ends [] _ rfl
  rw [missing] at run
  refine ⟨handlerFor_eq_none_iff.mp missing, moves, _, run, step_of_idle rfl rfl, rfl, rfl, ?_⟩
  rintro ⟨result, ended, agreed, -⟩
  cases ended
  obtain ⟨handler, runs, -⟩ := agreed rfl
  cases runs

end Relayhub.Streams
