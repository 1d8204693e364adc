import Toxera.Lib.BaseEncoding
import Toxera.Relayhub.PbStreams

/-!
# Negotiating a protocol

`relayhub/multistream.go`: either side sends messages with their lengths in front.
-/

namespace Relayhub.Streams

open Dialogue Duplex

def newline : UInt8 := 10

def firstName : Bytes := BaseEncoding.ascii "/multistream/1.0.0"
def secondName : Bytes := BaseEncoding.ascii "/multistream-select/1.0.0"

def msNames : List Bytes := [firstName, secondName]

def na : Bytes := [110, 97]

inductive MSError where
  /-- an error of the stream, with what was being done -/
  | stream (doing : String) (err : String)
  | unexpected (what : String) (got : Bytes)
  /-- the peer refused every header -/
  | multistreamNotAvailable
  /-- `errProtocolNotAvailable`, with the protocol -/
  | protocolNotAvailable (detail : Bytes)
  deriving DecidableEq

abbrev MSCall := Dialogue.Call UInt8 String MSError

def maxAlloc : Nat := 0x1000000000000

def readMsg : Call Bytes := do
  let l ← readVarint
  if maxAlloc < l.toNat then Call.crash
  Call.get l.toNat

def writeMsg (msg : Bytes) : Call Unit := Call.put (encodeVarint msg.length ++ msg)

def doing {α : Type} (text : String) (x : Call α) : MSCall α := x.adapt (MSError.stream text)

def IsLine (resp line : Bytes) : Prop := resp = line ∨ resp = line ++ [newline]

instance (resp line : Bytes) : Decidable (IsLine resp line) :=
  inferInstanceAs (Decidable (_ ∨ _))

def selectHeader : List Bytes → MSCall Bool
  | [] => pure false
  | name :: names => do
    doing "send multistream header" (writeMsg (name ++ [newline]))
    let resp ← doing "read multistream header resp" readMsg
    if IsLine resp name then pure true
    else if IsLine resp na then selectHeader names
    else if msNames.any fun name => IsLine resp name then pure true
    else throw (.unexpected "multistream resp" resp)

def requestProto (protoID : Bytes) : MSCall Unit := do
  doing "send proto req" (writeMsg (protoID ++ [newline]))
  let resp ← doing "read proto resp" readMsg
  if IsLine resp na then throw (.protocolNotAvailable protoID)
  if ¬ IsLine resp protoID then throw (.unexpected "proto resp" resp)

def msSelect (protoID : Bytes) : MSCall Unit := do
  let matched ← selectHeader msNames
  if matched = false then throw .multistreamNotAvailable
  requestProto protoID

def trimNewline (s : Bytes) : Bytes := if s.getLast? = some newline then s.dropLast else s

def respondProto : MSCall Bytes := do
  let proto ← doing "read proto req" readMsg
  if IsLine proto na then throw (.protocolNotAvailable (BaseEncoding.ascii "client refused"))
  doing "send proto resp" (writeMsg proto)
  return trimNewline proto

def msRespond : MSCall Bytes := do
  let msg ← doing "read ms header" readMsg
  match msNames.find? fun name => IsLine msg name with
  | none => throw (.unexpected "ms header" msg)
  | some name =>
    doing "send ms header" (writeMsg (name ++ [newline]))
    respondProto

def frame (msg : Bytes) : Bytes := encodeVarint msg.length ++ msg

theorem reads_spelled {len msg : Bytes} (spells : Varint.Spells len msg.length)
    (fits : msg.length ≤ maxAlloc) : Consumes readMsg.run (len ++ msg) (.ok msg) := by
  have value : (UInt64.ofNat msg.length).toNat = msg.length :=
    UInt64.toNat_ofNat_of_lt' spells.fits
  rw [← value] at spells
  refine Consumes.bind_ok (reads_varint spells) ?_
  rw [value, if_neg (Nat.not_lt.mpr fits)]
  exact Consumes.get rfl

theorem reads_msg {msg : Bytes} (fits : msg.length ≤ maxAlloc) :
    Consumes readMsg.run (frame msg) (.ok msg) :=
  reads_spelled (encodeVarint_spells (lt_of_le_of_lt fits (by decide))) fits

theorem readMsg_run_iff {c c' : Conn UInt8 String} {msg : Bytes} :
    readMsg.run.run c = some (.ok msg, c') ↔
      ∃ len rest, c.unread = len ++ msg ++ rest ∧ Varint.Spells len msg.length ∧
        msg.length ≤ maxAlloc ∧ c' = { c with unread := rest } := by
  constructor
  · intro h
    obtain ⟨v, m, read, got⟩ := Call.run_bind_ok_iff.mp h
    rcases readVarint_run c with ⟨bs, rest, w, front, spells, read'⟩ | ⟨-, err, m', failed⟩
    · obtain ⟨same, rfl⟩ := Prod.mk.inj (Option.some.inj (read.symm.trans read'))
      obtain rfl := Except.ok.inj same
      by_cases large : maxAlloc < v.toNat
      · rw [if_pos large] at got
        cases got
      · rw [if_neg large] at got
        by_cases there : v.toNat ≤ rest.length
        · obtain ⟨took, rfl⟩ := Prod.mk.inj (Option.some.inj ((if_pos there).symm.trans got))
          obtain rfl := Except.ok.inj took
          have size : (rest.take v.toNat).length = v.toNat := by
            rw [List.length_take]
            omega
          refine ⟨bs, rest.drop v.toNat, ?_, ?_, size.trans_le (Nat.not_lt.mp large), rfl⟩
          · rw [List.append_assoc, List.take_append_drop]
            exact front
          · rw [size]
            exact spells
        · obtain ⟨short, -⟩ := Prod.mk.inj (Option.some.inj ((if_neg there).symm.trans got))
          cases short
    · cases read.symm.trans failed
  · rintro ⟨len, rest, front, spells, fits, rfl⟩
    exact (reads_spelled spells fits).run front

section
variable {α γ δ : Type} {q : Proc UInt8 Unit γ} {i o : Bytes} {a : α} {c : γ} {text : String}
  {k : Except MSError δ → Proc UInt8 Unit α} {msg : Bytes}

theorem finishing_write {f : Unit → MSCall δ}
    (rest : Finishing ⟨(f ()).run.proc >>= k, q, i, o ++ frame msg⟩ a c) :
    Finishing ⟨(doing text (writeMsg msg) >>= f).run.proc >>= k, q, i, o⟩ a c := by
  rw [proc_call_bind, doing, proc_call_adapt]
  exact finishing_put rest

theorem finishing_read {f : Bytes → MSCall δ} (fits : msg.length ≤ maxAlloc)
    (rest : Finishing ⟨(f msg).run.proc >>= k, q, i, o⟩ a c) :
    Finishing ⟨(doing text readMsg >>= f).run.proc >>= k, q, frame msg ++ i, o⟩ a c := by
  rw [proc_call_bind, doing, proc_call_adapt]
  exact (reads_msg fits).finishing rest

theorem finishing_read_last {f : Bytes → MSCall δ} (fits : msg.length ≤ maxAlloc)
    (rest : Finishing ⟨(f msg).run.proc >>= k, q, [], o⟩ a c) :
    Finishing ⟨(doing text readMsg >>= f).run.proc >>= k, q, frame msg, o⟩ a c := by
  rw [← List.append_nil (frame msg)]
  exact finishing_read fits rest

end

theorem trimNewline_line (protoID : Bytes) : trimNewline (protoID ++ [newline]) = protoID := by
  rw [trimNewline, List.getLast?_concat, if_pos rfl, List.dropLast_concat]

theorem isLine_newline (line : Bytes) : IsLine (line ++ [newline]) line := Or.inr rfl

theorem isLine_na_iff (protoID : Bytes) : IsLine (protoID ++ [newline]) na ↔ protoID = na := by
  constructor
  · rintro (bare | line)
    · -- `na` does not end in a newline
      have ends := congrArg List.getLast? bare
      rw [List.getLast?_concat] at ends
      cases ends
    · exact List.append_cancel_right line
  · rintro rfl
    exact isLine_newline na

theorem firstName_short : (firstName ++ [newline]).length ≤ maxAlloc := by
  decide

theorem find_firstName :
    (msNames.find? fun name => IsLine (firstName ++ [newline]) name) = some firstName :=
  List.find?_cons_of_pos (decide_eq_true (isLine_newline firstName))

section
variable {α γ : Type} {k : Except MSError Unit → Proc UInt8 Unit α}
  {k' : Except MSError Bytes → Proc UInt8 Unit γ} {a : α} {c : γ} {protoID : Bytes}

theorem finishing_headers
    (rest : Finishing ⟨(requestProto protoID).run.proc >>= k, respondProto.run.proc >>= k', [], []⟩
      a c) :
    Finishing ⟨(msSelect protoID).run.proc >>= k, msRespond.run.proc >>= k', [], []⟩ a c := by
  rw [msSelect, proc_call_bind, msNames, selectHeader]
  refine finishing_write ?_
  refine Finishing.swap ?_
  refine finishing_read_last firstName_short ?_
  rw [find_firstName]
  refine finishing_write ?_
  refine Finishing.swap ?_
  refine finishing_read_last firstName_short ?_
  rw [if_pos (isLine_newline firstName)]
  exact rest

theorem finishing_proto (fits : protoID.length < maxAlloc) (other : protoID ≠ na)
    (rest : Finishing ⟨k (.ok ()), k' (.ok protoID), [], []⟩ a c) :
    Finishing ⟨(requestProto protoID).run.proc >>= k, respondProto.run.proc >>= k', [], []⟩
      a c := by
  have line : (protoID ++ [newline]).length ≤ maxAlloc := by
    rw [List.length_append]
    exact fits
  have accepted : ¬ IsLine (protoID ++ [newline]) na := fun h => other ((isLine_na_iff _).mp h)
  refine finishing_write ?_
  refine Finishing.swap ?_
  refine finishing_read_last line ?_
  rw [if_neg accepted]
  refine finishing_write ?_
  refine Finishing.swap ?_
  refine finishing_read_last line ?_
  rw [if_neg accepted, if_neg (not_not.mpr (isLine_newline protoID))]
  rw [trimNewline_line]
  exact rest

end

/-- A program that goes on to write some bytes and to read as many as are given. -/
def followed {α : Type} (p : Prog UInt8 String α) (out : Bytes) (after : Nat) :
    Prog UInt8 String (α × Except String Bytes) := do
  let result ← p
  let _ ← (Call.put out : Call Unit).run
  let rest ← (Call.get after : Call Bytes).run
  return (result, rest)

theorem followed_proc {α : Type} (p : Prog UInt8 String α) (out : Bytes) (after : Nat) :
    (followed p out after).proc = p.proc >>= fun result =>
      .write out (.read after fun block => .done (result, .ok block)) := by
  rw [followed, Prog.proc_bind]
  rfl

theorem finishing_followed {α γ : Type} (a : α) (c : γ) (toServer toClient : Bytes) :
    Finishing
      ⟨.write toServer (.read toClient.length fun block =>
          .done (a, (.ok block : Except String _))),
        (.write toClient (.read toServer.length fun block =>
          .done (c, (.ok block : Except String _))) : Proc UInt8 Unit _), [], []⟩
      (a, .ok toClient) (c, .ok toServer) := by
  refine .write (Finishing.swap (.write ?_))
  refine .read_last rfl (Finishing.swap (.read_last rfl ?_))
  exact .done _ _

/-- For every protocol but `na`, both sides succeed with that protocol, whatever the order of
their steps and the pieces that the streams carry, and what either side sends afterwards is
all that the other one finds. -/
theorem negotiation_agrees {protoID : Bytes} (other : protoID ≠ na)
    (fits : protoID.length < maxAlloc) (toServer toClient : Bytes) :
    Ends ⟨(followed (msSelect protoID).run toServer toClient.length).proc,
        (followed msRespond.run toClient toServer.length).proc, [], []⟩
      (.ok (), .ok toClient) (.ok protoID, .ok toServer) := by
  rw [followed_proc, followed_proc]
  refine (finishing_headers (finishing_proto fits other ?_)).ends
  exact finishing_followed _ _ toServer toClient

theorem negotiation_agrees_ping :
    let ping := BaseEncoding.ascii "/ipfs/ping/1.0.0"
    Ends ⟨(followed (msSelect ping).run [1, 2] 1).proc, (followed msRespond.run [3] 2).proc, [], []⟩
      (.ok (), .ok [3]) (.ok ping, .ok [1, 2]) :=
  negotiation_agrees (by decide) (by decide) [1, 2] [3]

end Relayhub.Streams
