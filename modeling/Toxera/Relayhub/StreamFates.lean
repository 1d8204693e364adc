import Toxera.Relayhub.IncomingStreams

/-!
# What becomes of an incoming stream

The two callers of `handleIncoming`, the dispatch loop and `AcceptRelay`, on a stream
whose other end has sent what it will ever send.
-/

namespace Relayhub.Streams

open Dialogue

abbrev Stream := Conn UInt8 String

def closed : Prog UInt8 String Bool := .close (.done false)

def dispatchConn (c : RelayClient) (cancelled : Bool) : Prog UInt8 String Bool := do
  match ← readOnePb.run with
  | .error _ => closed
  | .ok data =>
    match route data with
    | .close _ => closed
    | .data sockID =>
      match c.connSockets sockID with
      | some e => if e.sock.ch.length < RelaySocket.chCap then pure true else closed
      | none => if cancelled then closed else pure true

inductive Caller where
  | dispatchLoop (c : RelayClient) (cancelled : Bool)
  | acceptRelay

/-- What a caller does after `handleIncoming`; whether the stream is handed on. -/
def Caller.finish : Caller → Except IncomingError Bool → Prog UInt8 String Bool
  | _, .error _ => closed
  | _, .ok false => pure false
  | .dispatchLoop c cancelled, .ok true => dispatchConn c cancelled
  | .acceptRelay, .ok true => pure true

def takeStream (caller : Caller) (identifyResponse : Bytes) (fuel : Nat) :
    Prog UInt8 String Bool := do
  let r ← (handleIncoming identifyResponse fuel).run
  caller.finish r

structure Proposes (stream : Stream) (proto : Bytes) : Prop where
  sent : ∃ len header len' rest, stream.unread = len ++ header ++ (len' ++ proto ++ rest) ∧
    Varint.Spells len header.length ∧ (∃ name ∈ msNames, IsLine header name) ∧
    Varint.Spells len' proto.length
  short : proto.length ≤ maxAlloc
  accepted : ¬ IsLine proto na
  answered : ∀ r ∈ stream.writes.take 2, r = .ok ()

theorem isLine_length {header name : Bytes} (named : name ∈ msNames) (line : IsLine header name) :
    header.length ≤ maxAlloc := by
  have short : ∀ name ∈ msNames, name.length + 1 ≤ maxAlloc := by decide +kernel
  have := short name named
  rcases line with rfl | rfl
  · omega
  · rw [List.length_append]
    exact this

theorem respondProto_run_iff {stream : Stream} {p : Bytes} :
    (∃ stream', respondProto.run.run stream = some (.ok p, stream')) ↔
      ∃ len proto rest, stream.unread = len ++ proto ++ rest ∧ Varint.Spells len proto.length ∧
        proto.length ≤ maxAlloc ∧ ¬ IsLine proto na ∧ (∀ r ∈ stream.writes.take 1, r = .ok ()) ∧
        p = trimNewline proto := by
  constructor
  · rintro ⟨stream', h⟩
    obtain ⟨proto, m, read, h⟩ := Call.run_bind_ok_iff.mp h
    obtain ⟨len, rest, front, spells, short, rfl⟩ :=
      readMsg_run_iff.mp (Call.run_adapt_ok_iff.mp read)
    by_cases refused : IsLine proto na
    · rw [if_pos refused] at h
      cases h
    · rw [if_neg refused] at h
      obtain ⟨⟨⟩, m', wrote, done⟩ := Call.run_bind_ok_iff.mp h
      obtain ⟨answered, rfl⟩ := Call.run_put_iff.mp (Call.run_adapt_ok_iff.mp wrote)
      obtain ⟨same, -⟩ := Prod.mk.inj (Option.some.inj done)
      exact ⟨len, proto, rest, front, spells, short, refused, answered, (Except.ok.inj same).symm⟩
  · rintro ⟨len, proto, rest, front, spells, short, accepted, answered, rfl⟩
    have read := readMsg_run_iff.mpr ⟨len, rest, front, spells, short, rfl⟩
    refine ⟨{ stream with unread := rest, writes := stream.writes.tail },
      Call.run_bind_ok_iff.mpr ⟨proto, _, Call.run_adapt_ok_iff.mpr read, ?_⟩⟩
    rw [if_neg accepted]
    exact Call.run_bind_ok_iff.mpr
      ⟨(), _, Call.run_adapt_ok_iff.mpr (Call.run_put_iff.mpr ⟨answered, rfl⟩), rfl⟩

theorem answered_two {ε : Type} (writes : List (Except ε Unit)) :
    (∀ r ∈ writes.take 2, r = .ok ()) ↔
      (∀ r ∈ writes.take 1, r = .ok ()) ∧ ∀ r ∈ writes.tail.take 1, r = .ok () := by
  cases writes with
  | nil => simp
  | cons first later => simp [List.take_succ_cons]

theorem msRespond_run_iff {stream : Stream} {p : Bytes} :
    (∃ stream', msRespond.run.run stream = some (.ok p, stream')) ↔
      ∃ proto, Proposes stream proto ∧ p = trimNewline proto := by
  constructor
  · rintro ⟨stream', h⟩
    obtain ⟨header, m, read, h⟩ := Call.run_bind_ok_iff.mp h
    obtain ⟨len, rest, front, spells, -, rfl⟩ :=
      readMsg_run_iff.mp (Call.run_adapt_ok_iff.mp read)
    cases found : msNames.find? fun name => IsLine header name with
    | none =>
      rw [found] at h
      cases h
    | some name =>
      rw [found] at h
      obtain ⟨⟨⟩, m', wrote, h⟩ := Call.run_bind_ok_iff.mp h
      obtain ⟨first, rfl⟩ := Call.run_put_iff.mp (Call.run_adapt_ok_iff.mp wrote)
      obtain ⟨len', proto, rest', front', spells', short, accepted, second, rfl⟩ :=
        respondProto_run_iff.mp ⟨_, h⟩
      have line : IsLine header name := by simpa using List.find?_some found
      refine ⟨proto, ⟨⟨len, header, len', rest', ?_, spells, ⟨name, List.mem_of_find?_eq_some found,
        line⟩, spells'⟩, short, accepted, ?_⟩, rfl⟩
      · grind
      · exact (answered_two _).mpr ⟨first, second⟩
  · rintro ⟨proto, ⟨⟨len, header, len', rest, front, spells, ⟨name, named, line⟩, spells'⟩, short,
      accepted, answered⟩, rfl⟩
    obtain ⟨first, second⟩ := (answered_two _).mp answered
    have read := readMsg_run_iff.mpr
      ⟨len, len' ++ proto ++ rest, front, spells, isLine_length named line, rfl⟩
    obtain ⟨found, matched⟩ :
        ∃ found, (msNames.find? fun name => IsLine header name) = some found :=
      Option.isSome_iff_exists.mp (List.find?_isSome.mpr ⟨name, named, decide_eq_true line⟩)
    obtain ⟨stream', after⟩ : ∃ stream', respondProto.run.run
        { stream with unread := len' ++ proto ++ rest, writes := stream.writes.tail } =
          some (.ok (trimNewline proto), stream') :=
      respondProto_run_iff.mpr ⟨len', proto, rest, rfl, spells', short, accepted, second, rfl⟩
    refine ⟨stream', Call.run_bind_ok_iff.mpr ⟨header, _, Call.run_adapt_ok_iff.mpr read, ?_⟩⟩
    rw [matched]
    exact Call.run_bind_ok_iff.mpr
      ⟨(), _, Call.run_adapt_ok_iff.mpr (Call.run_put_iff.mpr ⟨first, rfl⟩), after⟩

theorem readVarintLoop_keepsOpen (fuel i x : Nat) : KeepsOpen (readVarintLoop fuel i x).run := by
  induction fuel generalizing i x with
  | zero => exact .done _
  | succ fuel ih =>
    refine .call_bind (.adapt (.call_bind (.get 1) fun buf => .done _) _) fun b => ?_
    split_ifs
    · exact .done _
    · exact .done _
    · exact ih _ _

theorem readOnePb_keepsOpen : KeepsOpen readOnePb.run := by
  refine .call_bind (readVarintLoop_keepsOpen _ _ _) fun l => ?_
  split_ifs
  · exact .done _
  · exact .get _

theorem readMsg_keepsOpen : KeepsOpen readMsg.run := by
  refine .call_bind (readVarintLoop_keepsOpen _ _ _) fun l => ?_
  split_ifs
  · exact .crash
  · exact .get _

theorem respondProto_keepsOpen : KeepsOpen respondProto.run := by
  refine .call_bind (readMsg_keepsOpen.adapt _) fun proto => ?_
  split_ifs
  · exact .done _
  · exact .call_bind (.adapt (.put _) _) fun _ => .done _

theorem msRespond_keepsOpen : KeepsOpen msRespond.run := by
  refine .call_bind (readMsg_keepsOpen.adapt _) fun msg => ?_
  split
  · exact .done _
  · exact .call_bind (.adapt (.put _) _) fun _ => respondProto_keepsOpen

theorem negotiate_keepsOpen : KeepsOpen negotiate.run :=
  msRespond_keepsOpen.call_bind fun _ => .done _

theorem ignore_run {α : Type} {x : Call α} {stream stream' : Stream} {r : Except String Unit}
    (h : (ignore x).run.run stream = some (r, stream')) :
    r = .ok () ∧ ∃ o, x.run.run stream = some (o, stream') := by
  have ran : (ignore x).run = x.run >>= fun _ => pure (.ok ()) := rfl
  rw [ran, Prog.run_bind, Option.bind_eq_some_iff] at h
  obtain ⟨⟨o, m⟩, first, rest⟩ := h
  cases rest
  exact ⟨rfl, o, first⟩

theorem run_ignore_bind {α γ : Type} {x : Call α} {f : Unit → Call γ} {stream stream' : Stream}
    {r : Except String γ} (h : (ignore x >>= f).run.run stream = some (r, stream')) :
    ∃ o m, x.run.run stream = some (o, m) ∧ (f ()).run.run m = some (r, stream') := by
  rcases Call.run_bind_iff.mp h with ⟨⟨⟩, m, first, rest⟩ | ⟨err, first, -⟩
  · obtain ⟨-, o, ran⟩ := ignore_run first
    exact ⟨o, m, ran, rest⟩
  · obtain ⟨impossible, -⟩ := ignore_run first
    cases impossible

theorem acceptV1Hop_closes {stream stream' : Stream}
    (h : acceptV1Hop.run.run stream = some (.ok false, stream')) : stream'.closed = true := by
  obtain ⟨data, m, -, h⟩ := Call.run_bind_ok_iff.mp h
  obtain ⟨msg, m, -, h⟩ := Call.run_bind_ok_iff.mp h
  split_ifs at h
  · obtain ⟨⟨⟩, m, -, h⟩ := Call.run_bind_ok_iff.mp h
    cases h
  · obtain ⟨o, m, -, h⟩ := run_ignore_bind h
    obtain ⟨⟨⟩, m, closes, h⟩ := Call.run_bind_ok_iff.mp h
    cases closes
    cases h
    rfl
  · cases h

theorem closing_run_ok {α : Type} {x : Call α} {stream stream' : Stream} {a : α}
    (h : (closing x).run.run stream = some (.ok a, stream')) :
    x.run.run stream = some (.ok a, stream') := by
  change Prog.run (x.run >>= _) stream = _ at h
  rw [Prog.run_bind, Option.bind_eq_some_iff] at h
  obtain ⟨⟨o, m⟩, first, rest⟩ := h
  cases o with
  | ok b =>
    cases rest
    exact first
  | error err => cases rest

theorem acceptV2Stop_hands_on {stream stream' : Stream} {handed : Bool}
    (h : acceptV2Stop.run.run stream = some (.ok handed, stream')) : handed = true := by
  obtain ⟨data, m, -, h⟩ := Call.run_bind_ok_iff.mp (closing_run_ok h)
  obtain ⟨msg, m, -, h⟩ := Call.run_bind_ok_iff.mp h
  split_ifs at h
  · cases h
  · obtain ⟨⟨⟩, m, -, h⟩ := Call.run_bind_ok_iff.mp h
    cases h
    rfl

def Handler.Leaves : Handler → Prop
  | .identify | .identifyPush => True
  | .v1Hop | .v2Stop | .reject _ | .ping => False

theorem serve_leaves {identifyResponse : Bytes} {fuel : Nat} {handler : Handler}
    (leaves : handler.Leaves) {stream stream' : Stream} {r : Except String Bool}
    (h : (serve identifyResponse fuel handler).run.run stream = some (r, stream')) :
    r = .ok false ∧ stream'.closed = stream.closed := by
  cases handler with
  | identify =>
    obtain ⟨o, m, wrote, h⟩ := run_ignore_bind h
    cases h
    exact ⟨rfl, KeepsOpen.put _ _ _ _ wrote⟩
  | identifyPush =>
    obtain ⟨o, m, read, h⟩ := run_ignore_bind h
    cases h
    exact ⟨rfl, readOnePb_keepsOpen _ _ _ read⟩
  | v1Hop | v2Stop | reject | ping => exact leaves.elim

theorem serve_closes {identifyResponse : Bytes} {fuel : Nat} {handler : Handler}
    (other : ¬ handler.Leaves) {stream stream' : Stream}
    (h : (serve identifyResponse fuel handler).run.run stream = some (.ok false, stream')) :
    stream'.closed = true := by
  cases handler with
  | identify | identifyPush => exact absurd trivial other
  | v1Hop => exact acceptV1Hop_closes h
  | v2Stop => cases acceptV2Stop_hands_on h
  | reject name =>
    obtain ⟨⟨⟩, m, rejected, h⟩ := Call.run_bind_ok_iff.mp h
    cases h
    obtain ⟨o, m, -, closes⟩ := run_ignore_bind rejected
    cases closes
    rfl
  | ping =>
    obtain ⟨⟨⟩, m, pinged, h⟩ := Call.run_bind_ok_iff.mp h
    cases h
    obtain ⟨o, m, -, closes⟩ := run_ignore_bind pinged
    cases closes
    rfl

theorem dispatchConn_accounted {c : RelayClient} {cancelled handed : Bool} {stream stream' : Stream}
    (h : (dispatchConn c cancelled).run stream = some (handed, stream')) :
    handed = true ∨ stream'.closed = true := by
  have shut : ∀ {s : Stream}, closed.run s = some (handed, stream') → stream'.closed = true := by
    intro s shut
    cases shut
    rfl
  rw [dispatchConn, Prog.run_bind, Option.bind_eq_some_iff] at h
  obtain ⟨⟨o, m⟩, -, h⟩ := h
  cases o with
  | error err => exact .inr (shut h)
  | ok data =>
    simp only at h
    split at h
    · exact .inr (shut h)
    · split at h
      · split_ifs at h
        · cases h
          exact .inl rfl
        · exact .inr (shut h)
      · split_ifs at h
        · exact .inr (shut h)
        · cases h
          exact .inl rfl

theorem finish_accounted_iff {caller : Caller} {r : Except IncomingError Bool} {handed : Bool}
    {stream stream' : Stream} (h : (caller.finish r).run stream = some (handed, stream')) :
    (handed = true ∨ stream'.closed = true) ↔ (r = .ok false → stream.closed = true) := by
  rcases r with err | handled
  · have shut : closed.run stream = some (handed, stream') := by
      cases caller <;> exact h
    cases shut
    exact iff_of_true (.inr rfl) (by rintro ⟨⟩)
  · cases handled with
    | false =>
      have left : (pure false : Prog UInt8 String Bool).run stream = some (handed, stream') := by
        cases caller <;> exact h
      cases left
      simp
    | true =>
      refine iff_of_true ?_ (by rintro ⟨⟩)
      cases caller with
      | dispatchLoop c cancelled => exact dispatchConn_accounted h
      | acceptRelay =>
        cases h
        exact .inl rfl

/-- Protocols whose streams nobody closes: those of the two identify handlers, and all that
are unknown. -/
def Unattended (proto : Bytes) : Prop := ∀ handler, handlerFor proto = some handler → handler.Leaves

theorem handlerFor_trimNewline (proto : Bytes) :
    handlerFor (trimNewline proto) = handlerFor proto := by
  have trimmed : trimRight (trimNewline proto) = trimRight proto := by
    rw [trimNewline]
    split_ifs with line
    · obtain ⟨front, rfl⟩ := List.getLast?_eq_some_iff.mp line
      rw [List.dropLast_concat, trimRight, trimRight, List.rdropWhile_concat_pos]
      rfl
    · rfl
  rw [handlerFor, trimmed, handlerFor]

theorem negotiate_run_iff {stream : Stream} {handler : Option Handler} :
    (∃ stream', negotiate.run.run stream = some (.ok handler, stream')) ↔
      ∃ proto, Proposes stream proto ∧ handler = handlerFor proto := by
  constructor
  · rintro ⟨stream', h⟩
    obtain ⟨p, m, responded, h⟩ := Call.run_bind_ok_iff.mp h
    obtain ⟨proto, proposes, rfl⟩ := msRespond_run_iff.mp ⟨m, responded⟩
    cases h
    exact ⟨proto, proposes, handlerFor_trimNewline proto⟩
  · rintro ⟨proto, proposes, rfl⟩
    obtain ⟨stream', responded⟩ := msRespond_run_iff.mpr ⟨proto, proposes, rfl⟩
    rw [← handlerFor_trimNewline]
    exact ⟨stream', Call.run_bind_ok_iff.mpr ⟨_, _, responded, rfl⟩⟩

theorem unattended_iff {stream m : Stream} {handler : Option Handler}
    (negotiated : negotiate.run.run stream = some (.ok handler, m)) :
    (∃ proto, Proposes stream proto ∧ Unattended proto) ↔ ∀ h, handler = some h → h.Leaves := by
  constructor
  · rintro ⟨proto, proposes, unattended⟩
    obtain ⟨m', again⟩ := negotiate_run_iff.mpr ⟨proto, proposes, rfl⟩
    cases negotiated.symm.trans again
    exact unattended
  · intro leaves
    obtain ⟨proto, proposes, rfl⟩ := negotiate_run_iff.mp ⟨m, negotiated⟩
    exact ⟨proto, proposes, leaves⟩

theorem handleIncoming_accounted_iff {identifyResponse : Bytes} {fuel : Nat}
    {stream stream' : Stream} {r : Except IncomingError Bool} (opened : stream.closed = false)
    (h : (handleIncoming identifyResponse fuel).run.run stream = some (r, stream')) :
    (r = .ok false → stream'.closed = true) ↔
      ¬ ∃ proto, Proposes stream proto ∧ Unattended proto := by
  rcases Call.run_bind_iff.mp h with ⟨handler, m, negotiated, served⟩ | ⟨err, failed, rfl⟩
  · have negotiated := Call.run_adapt_ok_iff.mp negotiated
    have still : m.closed = false := (negotiate_keepsOpen _ _ _ negotiated).trans opened
    rw [unattended_iff negotiated]
    cases handler with
    | none =>
      -- an unknown protocol: the stream is left as it is
      cases served
      refine iff_of_false (fun closes => ?_) fun known => known (by rintro h ⟨⟩)
      rw [closes rfl] at still
      cases still
    | some handler =>
      obtain ⟨o, ran, rfl⟩ := Call.run_adapt_iff.mp served
      by_cases leaves : handler.Leaves
      · obtain ⟨rfl, same⟩ := serve_leaves leaves ran
        refine iff_of_false (fun closes => ?_) fun known => known (by rintro h ⟨⟩; exact leaves)
        rw [← same, closes rfl] at still
        cases still
      · refine iff_of_true (fun nothing => ?_) fun all => leaves (all handler rfl)
        cases o with
        | error err => cases nothing
        | ok handed =>
          cases nothing
          exact serve_closes leaves ran
  · refine iff_of_true (by rintro ⟨⟩) ?_
    rintro ⟨proto, proposes, -⟩
    obtain ⟨m, negotiated⟩ := negotiate_run_iff.mpr ⟨proto, proposes, rfl⟩
    obtain ⟨o, ran, same⟩ := Call.run_adapt_iff.mp failed
    cases negotiated.symm.trans ran
    cases same

/-- Nobody leaks a stream, unless its other end negotiates one of these protocols. -/
theorem stream_accounted_iff (caller : Caller) (identifyResponse : Bytes) (fuel : Nat)
    {stream stream' : Stream} {handed : Bool} (opened : stream.closed = false)
    (h : (takeStream caller identifyResponse fuel).run stream = some (handed, stream')) :
    (handed = true ∨ stream'.closed = true) ↔
      ¬ ∃ proto, Proposes stream proto ∧ Unattended proto := by
  rw [takeStream, Prog.run_bind, Option.bind_eq_some_iff] at h
  obtain ⟨⟨r, m⟩, incoming, finished⟩ := h
  rw [finish_accounted_iff finished, handleIncoming_accounted_iff opened incoming]

/-- A stream on which the other end negotiates a protocol and then sends something. -/
def streamOf (proto sent : Bytes) : Stream where
  unread := frame (firstName ++ [newline]) ++ frame (proto ++ [newline]) ++ sent
  short := fun some_ => if some_ then unexpectedEOF else eof
  writes := []
  closed := false

def pingStream : Stream := streamOf (BaseEncoding.ascii "/ipfs/ping/1.0.0") [1, 7]

def chatStream : Stream := streamOf (BaseEncoding.ascii "/chat/1.0.0") []

/-- A ping is answered, and the stream is closed when the other end sends no more. -/
theorem ping_stream_accounted :
    ∃ stream', (takeStream .acceptRelay [] 64).run pingStream = some (false, stream') ∧
      stream'.closed = true ∧ ¬ ∃ proto, Proposes pingStream proto ∧ Unattended proto := by
  have seen : ((takeStream .acceptRelay [] 64).run pingStream).map (fun r => (r.1, r.2.closed)) =
      some (false, true) := by
    decide +kernel
  obtain ⟨⟨handed, stream'⟩, ran, seen⟩ := Option.map_eq_some_iff.mp seen
  obtain ⟨rfl, closed⟩ := Prod.mk.inj seen
  exact ⟨stream', ran, closed, (stream_accounted_iff .acceptRelay [] 64 rfl ran).mp (.inr closed)⟩

/-- A stream for an unknown protocol: `AcceptRelay` goes on without it, and nobody closes it. -/
theorem unknown_stream_leaked :
    ∃ stream', (takeStream .acceptRelay [] 64).run chatStream = some (false, stream') ∧
      stream'.closed = false := by
  have seen : ((takeStream .acceptRelay [] 64).run chatStream).map (fun r => (r.1, r.2.closed)) =
      some (false, false) := by
    decide +kernel
  obtain ⟨⟨handed, stream'⟩, ran, seen⟩ := Option.map_eq_some_iff.mp seen
  obtain ⟨rfl, closed⟩ := Prod.mk.inj seen
  exact ⟨stream', ran, closed⟩

end Relayhub.Streams
