import Toxera.Relayhub.Dispatch

/-!
# Reading across rotations

The reader of a socket goes through the connections that the dispatch loop has queued, in
order.
-/

namespace Relayhub

open Exec

variable {c : RelayedConn} {e e' : Endpoint} {es : List Incoming} {ev : Incoming}
  {id stream : Bytes} {s : RelaySocket} {step : ReadStep}

namespace RelaySocket

def held (s : RelaySocket) : List RelayedConn := s.cur.toList ++ s.ch

/-- The held connections are different ones, and this end has closed none of them. -/
structure Tidy (s : RelaySocket) : Prop where
  opened : ∀ c ∈ s.held, ∃ w, s.wires[c.wire]? = some w ∧ w.closed = false
  distinct : (s.held.map RelayedConn.wire).Nodup

def pending (s : RelaySocket) : Bytes := (s.held.map RelayedConn.unread).flatten

theorem Tidy.of_same {t : RelaySocket} (tidy : s.Tidy)
    (sameHeld : t.held.map RelayedConn.wire = s.held.map RelayedConn.wire)
    (sameWires : t.wires = s.wires) : t.Tidy := by
  refine ⟨fun c hc => ?_, by rw [sameHeld]; exact tidy.distinct⟩
  have mem : c.wire ∈ s.held.map RelayedConn.wire := by
    rw [← sameHeld]
    exact List.mem_map_of_mem hc
  obtain ⟨c', hc', eq⟩ := List.mem_map.mp mem
  rw [sameWires, ← eq]
  exact tidy.opened c' hc'

theorem Tidy.connClosed_eq_false (tidy : s.Tidy) (cur : s.cur = some c) :
    s.connClosed c = false := by
  obtain ⟨w, hw, opened⟩ := tidy.opened c (by simp [held, cur])
  simp only [connClosed, hw, opened]

theorem Tidy.giveUp (tidy : s.Tidy) (cur : s.cur = some c) : (s.giveUp c).Tidy := by
  have distinct := tidy.distinct
  simp only [held, cur, Option.toList_some, List.singleton_append, List.map_cons,
    List.nodup_cons] at distinct
  refine ⟨fun d hd => ?_, by simpa [held, RelaySocket.giveUp, closeConn] using distinct.2⟩
  have waiting : d ∈ s.ch := by simpa [held, RelaySocket.giveUp, closeConn] using hd
  obtain ⟨w, hw, opened⟩ := tidy.opened d (by simp [held, waiting])
  have ne : c.wire ≠ d.wire := fun eq =>
    distinct.1 (eq ▸ List.mem_map_of_mem waiting)
  refine ⟨w, ?_, opened⟩
  simp [RelaySocket.giveUp, closeConn, ne, hw]

theorem dispatchIncoming_tidy (tidy : s.Tidy) (room : s.ch.length < chCap) (unread : Bytes) :
    (s.dispatchIncoming unread).Tidy ∧
      (s.dispatchIncoming unread).pending = s.pending ++ unread := by
  have heldEq : (s.dispatchIncoming unread).held = s.held ++ [⟨s.wires.length, unread⟩] := by
    simp [held, dispatchIncoming, room]
  have wiresEq : (s.dispatchIncoming unread).wires = s.wires ++ [⟨[], [], false⟩] := by
    simp [dispatchIncoming, room]
  have within : ∀ c ∈ s.held, c.wire < s.wires.length := by
    intro c hc
    obtain ⟨w, hw, -⟩ := tidy.opened c hc
    exact (List.getElem?_eq_some_iff.mp hw).1
  refine ⟨⟨fun c hc => ?_, ?_⟩, by simp [pending, heldEq]⟩
  · rw [heldEq] at hc
    rw [wiresEq]
    rcases List.mem_append.mp hc with old | new
    · obtain ⟨w, hw, opened⟩ := tidy.opened c old
      exact ⟨w, by rw [List.getElem?_append_left (within c old), hw], opened⟩
    · obtain rfl := List.mem_singleton.mp new
      exact ⟨⟨[], [], false⟩, by simp, rfl⟩
  · rw [heldEq, List.map_append, List.nodup_append]
    refine ⟨tidy.distinct, by simp, fun i hi j hj => ?_⟩
    obtain ⟨c, hc, rfl⟩ := List.mem_map.mp hi
    obtain rfl : j = s.wires.length := by simpa using hj
    exact Nat.ne_of_lt (within c hc)

end RelaySocket

namespace Endpoint

theorem delivered_ret (e : Endpoint) (sock : RelaySocket) (b : Bytes) (err : Option Err) :
    (e.ret sock b err).delivered = e.delivered ++ b := by
  simp [delivered, ret]

structure Streams (e : Endpoint) (stream : Bytes) : Prop where
  tidy : e.sock.Tidy
  bytes : e.delivered ++ e.sock.pending = stream

theorem Streams.ret_nil (h : e.Streams stream) {sock : RelaySocket}
    (sameHeld : sock.held = e.sock.held) (sameWires : sock.wires = e.sock.wires) (err : Option Err) :
    (e.ret sock [] err).Streams stream := by
  refine ⟨h.tidy.of_same (by rw [← sameHeld]; rfl) sameWires, ?_⟩
  rw [delivered_ret, List.append_nil, RelaySocket.pending, ret, sameHeld]
  exact h.bytes

theorem Streams.reads (h : e.Streams stream) (reads : e.Reads step e') : e'.Streams stream := by
  cases reads with
  | refused => exact h.ret_nil rfl rfl _
  | begun => exact ⟨h.tidy, h.bytes⟩
  | noClient => exact h.ret_nil rfl rfl _
  | closeSignal => exact h.ret_nil (by rfl) (by rfl) _
  | ctxDone => exact h.ret_nil rfl rfl _
  | @accepted c ch idle waiting =>
    have same : RelaySocket.held { e.sock with ch := ch, cur := some c } = e.sock.held := by
      simp [RelaySocket.held, idle, waiting]
    refine ⟨h.tidy.of_same (by rw [same]) rfl, ?_⟩
    rw [RelaySocket.pending, same]
    exact h.bytes
  | @part c n how err cur le =>
    have wires : ((e.sock.countRead n).skip c n).held.map RelayedConn.wire =
        e.sock.held.map RelayedConn.wire := by
      simp [RelaySocket.held, RelaySocket.skip, RelaySocket.countRead, cur]
    refine ⟨h.tidy.of_same wires rfl, ?_⟩
    rw [delivered_ret, ← h.bytes, List.append_assoc]
    simp [RelaySocket.pending, RelaySocket.held, RelaySocket.skip, RelaySocket.countRead, cur, ret,
      ← List.append_assoc]
  | @lastPart c n cur ends =>
    have opened := h.tidy.connClosed_eq_false cur
    have whole : c.unread.take n = c.unread := by
      refine List.take_of_length_le (Nat.not_lt.mp fun less => ?_)
      cases opened.symm.trans (ends less)
    refine ⟨(h.tidy.of_same (t := e.sock.countRead n) rfl rfl).giveUp cur, ?_⟩
    rw [delivered_ret, ← h.bytes, List.append_assoc, whole]
    simp [RelaySocket.pending, RelaySocket.held, RelaySocket.giveUp, RelaySocket.closeConn,
      RelaySocket.countRead, cur, ret]
  | @ended c cur ends =>
    have opened := h.tidy.connClosed_eq_false cur
    have empty : c.unread = [] := by
      refine List.eq_nil_of_length_eq_zero (Nat.eq_zero_of_not_pos fun pos => ?_)
      cases opened.symm.trans (ends pos)
    refine ⟨(h.tidy.of_same (t := e.sock.countRead 0) rfl rfl).giveUp cur, ?_⟩
    rw [← h.bytes]
    simp [RelaySocket.pending, RelaySocket.held, RelaySocket.giveUp, RelaySocket.closeConn,
      RelaySocket.countRead, cur, empty, delivered]

theorem Streams.dispatchIncoming (h : e.Streams stream)
    (room : e.sock.ch.length < RelaySocket.chCap) (unread : Bytes) :
    Streams { e with sock := e.sock.dispatchIncoming unread } (stream ++ unread) := by
  obtain ⟨tidy, pending⟩ := RelaySocket.dispatchIncoming_tidy h.tidy room unread
  refine ⟨tidy, ?_⟩
  rw [pending, ← h.bytes, List.append_assoc]
  rfl

theorem newEndpoint_streams (id : Bytes) (client : Option (Option UInt64)) :
    (newEndpoint id client).Streams [] :=
  ⟨⟨by simp [newEndpoint, newRelaySocketWithID, RelaySocket.held],
    by simp [newEndpoint, newRelaySocketWithID, RelaySocket.held]⟩, rfl⟩

end Endpoint

def payloadFor (id : Bytes) : Incoming → Option Bytes
  | .conn data unread => if route data = .data id then some unread else none
  | .accept => none
  | .read _ _ => none

/-- The payloads of the connections of a socket, as they have reached the loop. -/
def dispatched (id : Bytes) (es : List Incoming) : List Bytes := es.filterMap (payloadFor id)

def RoomLeft (id : Bytes) (c : RelayClient) (ev : Incoming) : Prop :=
  payloadFor id ev ≠ none → (c.socketFor id).sock.ch.length < RelaySocket.chCap

instance (id : Bytes) (c : RelayClient) (ev : Incoming) : Decidable (RoomLeft id c ev) :=
  inferInstanceAs (Decidable (_ → _))

theorem payloadFor_data {data unread : Bytes} (h : route data = .data id) :
    payloadFor id (.conn data unread) = some unread :=
  if_pos h

theorem payloadFor_of_ne (h : ∀ data unread, ev = .conn data unread → route data ≠ .data id) :
    payloadFor id ev = none := by
  cases ev with
  | conn data unread => exact if_neg (h data unread rfl)
  | accept => rfl
  | read other step => rfl

theorem touches_streams (h : e.Streams stream) (touches : Touches id e ev e')
    (room : payloadFor id ev ≠ none → e.sock.ch.length < RelaySocket.chCap) :
    e'.Streams (stream ++ (payloadFor id ev).getD []) := by
  cases touches with
  | @data data unread hroute =>
    rw [payloadFor_data hroute, Option.getD_some]
    exact h.dispatchIncoming (room (by rw [payloadFor_data hroute]; simp)) unread
  | @close data unread hroute =>
    rw [payloadFor_of_ne (by rintro _ _ ⟨⟩; rw [hroute]; simp), Option.getD_none, List.append_nil]
    exact ⟨h.tidy.of_same rfl rfl, h.bytes⟩
  | read reads =>
    rw [payloadFor, Option.getD_none, List.append_nil]
    exact h.reads reads
  | other away => grind [payloadFor_of_ne]

theorem dispatched_snoc (id : Bytes) (es : List Incoming) (ev : Incoming) :
    (dispatched id (es ++ [ev])).flatten =
      (dispatched id es).flatten ++ (payloadFor id ev).getD [] := by
  cases h : payloadFor id ev <;> simp [dispatched, h]

theorem socketFor_fresh {c : RelayClient} (fresh : c.connSockets id = none) :
    c.socketFor id = newEndpoint id (some c.limit) := by
  rw [RelayClient.socketFor, fresh, Option.getD_none]

theorem streams_of_room {c m : RelayClient} (fresh : c.connSockets id = none)
    (room : Along receive (RoomLeft id) c es) (run : exec receive c es = some m) :
    (m.socketFor id).Streams (dispatched id es).flatten := by
  revert room
  refine exec_history (P := fun es m => Along receive (RoomLeft id) c es →
    (m.socketFor id).Streams (dispatched id es).flatten) ?_ ?_ run
  · intro _
    rw [socketFor_fresh fresh]
    exact Endpoint.newEndpoint_streams id _
  · intro es m ev m' before ih step room
    obtain ⟨front, here⟩ := (along_snoc_iff before).mp room
    rw [dispatched_snoc]
    exact touches_streams (ih front) (receive_touches id step) here

/-- In every run in which the queue of the socket has room for each of its connections,
what `Read` has returned is at every moment a prefix of what has been dispatched. -/
theorem no_hole_with_room {c : RelayClient} {id : Bytes} (fresh : c.connSockets id = none)
    {es : List Incoming} (room : Along receive (RoomLeft id) c es) :
    ∀ pre post m e, es = pre ++ post → exec receive c pre = some m →
      m.connSockets id = some e → e.delivered <+: (dispatched id pre).flatten := by
  rintro pre post m e rfl run found
  have streams := streams_of_room fresh (along_append_left room) run
  rw [RelayClient.socketFor_of_some found] at streams
  exact ⟨e.sock.pending, streams.bytes⟩

def noSockets : RelayClient := ⟨none, fun _ => none, []⟩

def oneByte (b : UInt8) : Incoming := .conn RelaySocket.sockID [b]

def readOne : List Incoming :=
  [.read RelaySocket.sockID (.begin 4), .read RelaySocket.sockID (.acceptNext .conn), .read RelaySocket.sockID (.readCur 1 .eof)]

theorem exists_of_observed {α : Type*} {f : Endpoint → α} {a : α}
    (seen : (exec receive noSockets es).bind (fun m => (m.connSockets RelaySocket.sockID).map f) =
      some a) :
    ∃ m e, exec receive noSockets es = some m ∧ m.connSockets RelaySocket.sockID = some e ∧
      f e = a := by
  obtain ⟨m, run, seen⟩ := Option.bind_eq_some_iff.mp seen
  obtain ⟨e, found, eq⟩ := Option.map_eq_some_iff.mp seen
  exact ⟨m, e, run, found, eq⟩

def slowReads : List Incoming := [oneByte 1, oneByte 2] ++ readOne ++ [oneByte 3] ++ readOne

theorem no_hole_with_room_three :
    ∃ m e, exec receive noSockets slowReads = some m ∧
      m.connSockets RelaySocket.sockID = some e ∧ e.delivered = [1, 2] ∧
      e.delivered <+: (dispatched RelaySocket.sockID slowReads).flatten := by
  have room : Along receive (RoomLeft RelaySocket.sockID) noSockets slowReads :=
    along_of_decide (by decide +kernel)
  obtain ⟨m, e, run, found, bytes⟩ : ∃ m e, exec receive noSockets slowReads = some m ∧
      m.connSockets RelaySocket.sockID = some e ∧ e.delivered = [1, 2] :=
    exists_of_observed (by decide +kernel)
  exact ⟨m, e, run, found, bytes,
    no_hole_with_room rfl room slowReads [] m e (List.append_nil _).symm run found⟩

/-- Nine connections come before the first `Read`: the ninth is dropped, and the byte of
the tenth follows that of the eighth. -/
theorem ninth_connection_lost :
    let es := [1, 2, 3, 4, 5, 6, 7, 8, 9].map oneByte ++ readOne ++ [oneByte 10] ++
      (List.replicate 8 readOne).flatten
    (∃ m e, exec receive noSockets es = some m ∧ m.connSockets RelaySocket.sockID = some e ∧
      e.delivered = [1, 2, 3, 4, 5, 6, 7, 8, 10]) ∧
    (dispatched RelaySocket.sockID es).flatten = [1, 2, 3, 4, 5, 6, 7, 8, 9, 10] := by
  intro es
  exact ⟨exists_of_observed (by decide +kernel), by decide +kernel⟩

def closes (id : Bytes) : Incoming → Bool
  | .conn data _ => route data = .close id
  | .accept => false
  | .read _ _ => false

def ClosedLast (id : Bytes) (es : List Incoming) : Prop :=
  es.Pairwise fun ev later => closes id ev = true → payloadFor id later = none

instance (id : Bytes) (es : List Incoming) : Decidable (ClosedLast id es) :=
  inferInstanceAs (Decidable (List.Pairwise _ es))

def OneReady (id : Bytes) (c : RelayClient) (ev : Incoming) : Prop :=
  ∀ pick, ev = .read id (.acceptNext pick) → (c.socketFor id).sock.closeSignal = true →
    (c.socketFor id).sock.ch = []

instance (id : Bytes) (c : RelayClient) (ev : Incoming) : Decidable (OneReady id c ev) :=
  inferInstanceAs (Decidable (∀ _ : Pick, _ → _ → _))

def EofAtEnd (e : Endpoint) (stream : Bytes) : Prop :=
  ∀ front b rest, e.returned = front ++ (b, some .eof) :: rest → (front.map Prod.fst).flatten = stream

theorem EofAtEnd.ret (h : EofAtEnd e stream) (sock : RelaySocket) (b : Bytes) {err : Option Err}
    (last : err = some .eof → e.delivered = stream) : EofAtEnd (e.ret sock b err) stream := by
  intro front b' rest cut
  rcases split_snoc cut with ⟨rfl, eq, -⟩ | ⟨rest', -, cut'⟩
  · exact last (Prod.mk.inj eq).2.symm
  · exact h front b' rest' cut'

structure Ending (id : Bytes) (es : List Incoming) (e : Endpoint) : Prop where
  ctx : e.sock.ctxDone = false
  signal : e.sock.closeSignal = true → ∃ ev ∈ es, closes id ev = true
  seen : ∀ b, (b, some .eof) ∈ e.returned → ∃ ev ∈ es, closes id ev = true
  atEnd : EofAtEnd e (dispatched id es).flatten

theorem Ending.reads (h : Ending id es e) (streams : e.Streams (dispatched id es).flatten)
    (ready : ∀ pick, step = .acceptNext pick → e.sock.closeSignal = true → e.sock.ch = [])
    (reads : e.Reads step e') : Ending id es e' := by
  -- every step that returns something other than the end
  have returns : ∀ (sock : RelaySocket) (b : Bytes) (err : Option Err), err ≠ some .eof →
      sock.ctxDone = e.sock.ctxDone → sock.closeSignal = e.sock.closeSignal →
      Ending id es (e.ret sock b err) := by
    intro sock b err notEof sameCtx sameSignal
    refine ⟨sameCtx.trans h.ctx, fun raised => h.signal (sameSignal.symm.trans raised),
      fun b' mem => ?_, h.atEnd.ret sock b fun eof => absurd eof notEof⟩
    rcases List.mem_append.mp mem with old | new
    · exact h.seen b' old
    · grind
  cases reads with
  | refused => exact returns _ _ _ (by simp) rfl rfl
  | begun => exact ⟨h.ctx, h.signal, h.seen, h.atEnd⟩
  | noClient => exact returns _ _ _ (by simp) rfl rfl
  | accepted => exact ⟨h.ctx, h.signal, h.seen, h.atEnd⟩
  | closeSignal idle raised =>
    have all : e.delivered = (dispatched id es).flatten := by
      rw [← streams.bytes, RelaySocket.pending, RelaySocket.held, idle, ready _ rfl raised]
      simp
    refine ⟨h.ctx, fun raised' => (by cases raised'), fun b mem => ?_, h.atEnd.ret _ _ fun _ => all⟩
    exact h.signal raised
  | ctxDone _ done => cases h.ctx.symm.trans done
  | part _ _ notEof => exact returns _ _ _ notEof rfl rfl
  | lastPart => exact returns _ _ _ (by simp) rfl rfl
  | ended => exact ⟨h.ctx, h.signal, h.seen, h.atEnd⟩

theorem Ending.mono (h : Ending id es e) (same : payloadFor id ev = none) :
    Ending id (es ++ [ev]) e := by
  have later : (∃ f ∈ es, closes id f = true) → ∃ f ∈ es ++ [ev], closes id f = true := by grind
  refine ⟨h.ctx, fun raised => later (h.signal raised), fun b mem => later (h.seen b mem), ?_⟩
  rw [dispatched_snoc, same, Option.getD_none, List.append_nil]
  exact h.atEnd

theorem Ending.touches (h : Ending id es e) (streams : e.Streams (dispatched id es).flatten)
    (order : ∀ f ∈ es, closes id f = true → payloadFor id ev = none)
    (ready : ∀ pick, ev = .read id (.acceptNext pick) → e.sock.closeSignal = true → e.sock.ch = [])
    (touches : Touches id e ev e') : Ending id (es ++ [ev]) e' := by
  cases touches with
  | @data data unread hroute =>
    -- a connection comes only before the close message, so no end has been returned
    have none : ¬ ∃ f ∈ es, closes id f = true := by
      rintro ⟨f, hf, closing⟩
      cases (payloadFor_data hroute).symm.trans (order f hf closing)
    have kept : (e.sock.dispatchIncoming unread).ctxDone = e.sock.ctxDone ∧
        (e.sock.dispatchIncoming unread).closeSignal = e.sock.closeSignal := by
      unfold RelaySocket.dispatchIncoming
      split_ifs <;> exact ⟨rfl, rfl⟩
    refine ⟨kept.1.trans h.ctx, fun raised => ?_, fun b mem => absurd (h.seen b mem) none,
      fun front b rest cut => ?_⟩
    · exact absurd (h.signal (kept.2.symm.trans raised)) none
    · exact absurd (h.seen b (by rw [show e.returned = _ from cut]; simp)) none
  | @close data unread hroute =>
    have closing : closes id (.conn data unread) = true := by simp [closes, hroute]
    have same : payloadFor id (.conn data unread) = none :=
      payloadFor_of_ne (by rintro _ _ ⟨⟩; rw [hroute]; simp)
    have after := h.mono same
    exact ⟨after.ctx, fun _ => ⟨_, by simp, closing⟩, after.seen, after.atEnd⟩
  | read reads =>
    exact (h.reads streams (fun pick eq => ready pick (by rw [eq])) reads).mono rfl
  | other away => exact h.mono (payloadFor_of_ne away)

/-- In every run in which the queue has room, the close message comes last and
`acceptNext` never finds both the close signal and a waiting connection: when `Read`
returns the end of the stream, all bytes dispatched have been returned. -/
theorem eof_after_everything {c : RelayClient} {id : Bytes} (fresh : c.connSockets id = none)
    {es : List Incoming} (room : Along receive (RoomLeft id) c es) (order : ClosedLast id es)
    (ready : Along receive (OneReady id) c es) :
    ∀ pre post m e, es = pre ++ post → exec receive c pre = some m →
      m.connSockets id = some e → EofAtEnd e (dispatched id pre).flatten := by
  rintro pre post m e rfl run found
  have ending : Ending id pre (m.socketFor id) := by
    refine exec_history (P := fun es' m => (∃ rest, pre = es' ++ rest) →
      Ending id es' (m.socketFor id)) ?_ ?_ run ⟨[], (List.append_nil _).symm⟩
    · intro _
      rw [socketFor_fresh fresh]
      exact ⟨rfl, fun raised => (by cases raised), fun _ mem => absurd mem List.not_mem_nil,
        fun front b rest cut => by simp [newEndpoint] at cut⟩
    · rintro es' m ev m' before ih step ⟨rest, cut⟩
      have cut' : pre ++ post = es' ++ ev :: (rest ++ post) := by simp [cut]
      refine (ih ⟨ev :: rest, by simp [cut]⟩).touches
        (streams_of_room fresh (along_append_left (by rw [cut'] at room; exact room)) before)
        ?_ ?_ (receive_touches id step)
      · grind [ClosedLast]
      · exact ready es' ev _ m cut' before
  rw [RelayClient.socketFor_of_some found] at ending
  exact ending.atEnd

def closeMessage : Incoming := .conn (RelaySocket.closePrefix ++ RelaySocket.sockID.drop 6) []

def drained : List Incoming :=
  [oneByte 1] ++ readOne ++ [closeMessage, .read RelaySocket.sockID (.begin 4),
    .read RelaySocket.sockID (.acceptNext .closeSignal)]

theorem eof_after_everything_drained :
    ∃ m e, exec receive noSockets drained = some m ∧
      m.connSockets RelaySocket.sockID = some e ∧
      e.returned = [([1], none), ([], some .eof)] ∧
      EofAtEnd e (dispatched RelaySocket.sockID drained).flatten := by
  have room : Along receive (RoomLeft RelaySocket.sockID) noSockets drained :=
    along_of_decide (by decide +kernel)
  have ready : Along receive (OneReady RelaySocket.sockID) noSockets drained :=
    along_of_decide (by decide +kernel)
  obtain ⟨m, e, run, found, returned⟩ : ∃ m e, exec receive noSockets drained = some m ∧
      m.connSockets RelaySocket.sockID = some e ∧ e.returned = [([1], none), ([], some .eof)] :=
    exists_of_observed (by decide +kernel)
  exact ⟨m, e, run, found, returned, eof_after_everything rfl room (by decide +kernel) ready
    drained [] m e (List.append_nil _).symm run found⟩

/-- A connection is waiting when the close message comes, and the reader takes the close
signal: the end of the stream is returned before the first byte. -/
theorem close_signal_overtakes :
    let es := [oneByte 1, closeMessage, .read RelaySocket.sockID (.begin 4),
      .read RelaySocket.sockID (.acceptNext .closeSignal)]
    ClosedLast RelaySocket.sockID es ∧
    (∃ m e, exec receive noSockets es = some m ∧ m.connSockets RelaySocket.sockID = some e ∧
      e.returned = [([], some .eof)]) ∧
    (dispatched RelaySocket.sockID es).flatten = [1] := by
  intro es
  exact ⟨by decide +kernel, exists_of_observed (by decide +kernel), by decide +kernel⟩

end Relayhub
