import Toxera.Relayhub.SocketBudget

/-!
# Writing through a relay socket

Calls of `Write` split a byte stream over connections.
-/

namespace Relayhub

variable {data : Bytes} {dial : RelaySocket.Dial} {err : Option Err} {s t : RelaySocket} {w : Wire}
  {α : Type*}

theorem pbMessage_short (short : data.length < 128) :
    pbMessage data = UInt8.ofNat data.length :: data := by
  simp [pbMessage, encodeVarint, binaryMaxVarintLen64, putUvarint, short]

theorem pbMessage_short_length (short : data.length < 128) :
    (pbMessage data).length = data.length + 1 := by
  rw [pbMessage_short short, List.length_cons]

theorem map_modify_eq {β : Type*} {f : α → α} {g : α → β} (keeps : ∀ a, g (f a) = g a) (l : List α)
    (i : Nat) : (l.modify i f).map g = l.map g := by
  induction l generalizing i with
  | nil => simp
  | cons a l ih => cases i <;> simp [keeps, ih]

theorem modify_last (f : α → α) (front : List α) (a : α) :
    (front ++ [a]).modify front.length f = front ++ [f a] := by
  induction front with
  | nil => simp
  | cons b front ih => simpa using ih

namespace RelaySocket

structure Framed (s : RelaySocket) (w : Wire) : Prop where
  bytes : w.sent = pbMessage s.id ++ w.payload ∨ (w.payload = [] ∧ w.sent <+: pbMessage s.id)
  within : 0 < s.limitBytes → (w.sent.length : Int) ≤ s.limitBytes

def payloads (s : RelaySocket) : Bytes := (s.wires.map Wire.payload).flatten

structure Carrying (s : RelaySocket) : Prop where
  budgeted : s.Budgeted
  short : s.id.length < 128
  opened : s.closed = false
  framed : ∀ w ∈ s.wires, s.Framed w
  total : s.writeTotal = int64 s.payloads.length

/-- The current connection, while it has room, is the last one opened, and the count
is what has been put on it. -/
structure Splitting (s : RelaySocket) : Prop extends s.Carrying where
  last : ¬ s.MustRotate → ∃ front w c, s.cur = some c ∧ s.wires = front ++ [w] ∧
    c.wire = front.length ∧ w.sent = pbMessage s.id ++ w.payload ∧
    (0 < s.limitBytes → s.writeOnCur = w.sent.length)

structure Sends (s t : RelaySocket) (b : Bytes) : Prop where
  id : t.id = s.id
  limit : t.limitBytes = s.limitBytes
  payloads : t.payloads = s.payloads ++ b

theorem id_within_limit (budgeted : s.Budgeted) (short : s.id.length < 128)
    (limited : 0 < s.limitBytes) : ((pbMessage s.id).length : Int) ≤ s.limitBytes := by
  have limit := budgeted.limit
  rw [pbMessage_short_length short]
  omega

theorem framed_of_part (budgeted : s.Budgeted) (short : s.id.length < 128) (none : w.payload = [])
    (part : w.sent <+: pbMessage s.id) : s.Framed w := by
  refine ⟨Or.inr ⟨none, part⟩, fun limited => ?_⟩
  have := id_within_limit budgeted short limited
  have := part.length_le
  omega

theorem closeConn_bytes (s : RelaySocket) (c : RelayedConn) :
    (s.closeConn c).wires.map (fun w => (w.sent, w.payload)) =
      s.wires.map fun w => (w.sent, w.payload) :=
  map_modify_eq (f := fun w : Wire => { w with closed := true }) (fun _ => rfl) s.wires c.wire

theorem closeConn_payloads (s : RelaySocket) (c : RelayedConn) :
    (s.closeConn c).payloads = s.payloads := by
  have h := congrArg (List.map Prod.snd) (closeConn_bytes s c)
  rw [List.map_map, List.map_map] at h
  exact congrArg List.flatten h

theorem framed_congr {v : Wire} (framed : s.Framed v) (sameID : t.id = s.id)
    (sameLimit : t.limitBytes = s.limitBytes) (sent : w.sent = v.sent)
    (payload : w.payload = v.payload) : t.Framed w := by
  refine ⟨?_, ?_⟩
  · rw [sent, payload, sameID]
    exact framed.bytes
  · rw [sent, sameLimit]
    exact framed.within

theorem closeConn_framed (framed : ∀ w ∈ s.wires, s.Framed w) (c : RelayedConn) :
    ∀ w ∈ (s.closeConn c).wires, (s.closeConn c).Framed w := by
  intro w hw
  have mem : (w.sent, w.payload) ∈ s.wires.map fun w => (w.sent, w.payload) := by
    rw [← closeConn_bytes s c]
    exact List.mem_map_of_mem hw
  obtain ⟨v, hv, eq⟩ := List.mem_map.mp mem
  obtain ⟨sent, payload⟩ := Prod.mk.inj eq
  exact framed_congr (framed v hv) rfl rfl sent.symm payload.symm

theorem Carrying.of_same (h : s.Carrying) (sameID : t.id = s.id)
    (sameLimit : t.limitBytes = s.limitBytes) (sameCount : t.writeOnCur = s.writeOnCur)
    (sameClosed : t.closed = s.closed) (sameTotal : t.writeTotal = s.writeTotal)
    (sameWires : t.wires = s.wires) : t.Carrying := by
  refine ⟨h.budgeted.of_same sameID sameLimit sameCount, ?_, ?_, ?_, ?_⟩
  · rw [sameID]
    exact h.short
  · rw [sameClosed]
    exact h.opened
  · intro w hw
    rw [sameWires] at hw
    exact framed_congr (h.framed w hw) sameID sameLimit rfl rfl
  · rw [sameTotal, payloads, sameWires]
    exact h.total

theorem Carrying.closeConn (h : s.Carrying) (c : RelayedConn) : (s.closeConn c).Carrying :=
  ⟨h.budgeted.of_same rfl rfl rfl, h.short, h.opened, closeConn_framed h.framed c,
    by rw [closeConn_payloads]; exact h.total⟩

theorem Carrying.giveUp (h : s.Carrying) (c : RelayedConn) : (s.giveUp c).Splitting :=
  ⟨(h.closeConn c).of_same rfl rfl rfl rfl rfl rfl, fun free => absurd (Or.inl rfl) free⟩

theorem retireCur_carrying (h : s.Carrying) : s.retireCur.Carrying := by
  unfold retireCur
  split
  · exact (h.closeConn _).of_same rfl rfl rfl rfl rfl rfl
  · exact h

theorem retireCur_sends (s : RelaySocket) : s.Sends s.retireCur [] := by
  unfold retireCur
  split
  · exact ⟨rfl, rfl, (closeConn_payloads s _).trans (List.append_nil _).symm⟩
  · exact ⟨rfl, rfl, (List.append_nil _).symm⟩

theorem retireCur_mustRotate (rotate : s.MustRotate) : s.retireCur.MustRotate := by
  unfold retireCur
  split <;> exact rotate

theorem Carrying.append {ws : List Wire} (h : s.Carrying) (budgeted : t.Budgeted)
    (sameID : t.id = s.id) (sameLimit : t.limitBytes = s.limitBytes)
    (sameClosed : t.closed = s.closed) (sameTotal : t.writeTotal = s.writeTotal)
    (wires : t.wires = s.wires ++ ws) (parts : ∀ w ∈ ws, w.payload = [] ∧ w.sent <+: pbMessage s.id) :
    t.Carrying ∧ s.Sends t [] := by
  have none : (ws.map Wire.payload).flatten = [] := by
    simpa using fun w hw => (parts w hw).1
  have stream : t.payloads = s.payloads := by grind [payloads]
  have short : t.id.length < 128 := by
    rw [sameID]
    exact h.short
  refine ⟨⟨budgeted, short, sameClosed.trans h.opened, fun w hw => ?_, ?_⟩, sameID, sameLimit, ?_⟩
  · rw [wires] at hw
    rcases List.mem_append.mp hw with old | new
    · exact framed_congr (h.framed w old) sameID sameLimit rfl rfl
    · obtain ⟨empty, part⟩ := parts w new
      rw [← sameID] at part
      exact framed_of_part budgeted short empty part
  · rw [sameTotal, stream]
    exact h.total
  · rw [stream, List.append_nil]

theorem openConn_splitting (h : s.Carrying) (rotate : s.MustRotate)
    (eq : s.openConn dial = (t, err)) : t.Splitting ∧ s.Sends t [] := by
  have budgeted := (openConn_budgeted h.budgeted eq).1
  rcases openConn_cases s dial with ⟨failed, err', parts, eq'⟩ | eq'
  · obtain ⟨rfl, rfl⟩ := Prod.mk.inj (eq'.symm.trans eq)
    have part : ∀ w ∈ failed, w.payload = [] ∧ w.sent <+: pbMessage s.id := by grind
    obtain ⟨carrying, sends⟩ := h.append budgeted rfl rfl rfl rfl rfl part
    exact ⟨⟨carrying, fun free => absurd rotate free⟩, sends⟩
  · obtain ⟨rfl, rfl⟩ := Prod.mk.inj (eq'.symm.trans eq)
    obtain ⟨carrying, sends⟩ := h.append budgeted rfl rfl rfl rfl rfl (by simp)
    refine ⟨⟨carrying, fun _ => ⟨s.wires, _, _, rfl, rfl, rfl, ?_, fun _ => ?_⟩⟩, sends⟩
    · exact (List.append_nil _).symm
    · rw [pbMessage_short_length h.short]

theorem prepareWrite_splitting (h : s.Splitting) (eq : s.prepareWrite dial = (t, err)) :
    t.Splitting ∧ s.Sends t [] := by
  unfold prepareWrite at eq
  split_ifs at eq with rotate
  · have retired := retireCur_carrying h.toCarrying
    have sends := retireCur_sends s
    unfold rotateWrite at eq
    split_ifs at eq
    · obtain ⟨splitting, sends'⟩ := openConn_splitting retired (retireCur_mustRotate rotate) eq
      refine ⟨splitting, sends'.id.trans sends.id, sends'.limit.trans sends.limit, ?_⟩
      rw [sends'.payloads, sends.payloads, List.append_assoc, List.append_nil]
    · cases eq
      exact ⟨⟨retired, fun free => absurd (retireCur_mustRotate rotate) free⟩, sends⟩
  · cases eq
    exact ⟨h, rfl, rfl, (List.append_nil _).symm⟩

theorem put_splitting {c : RelayedConn} {b : Bytes} (h : s.Splitting) (room : ¬ s.MustRotate)
    (cur : s.cur = some c) (fits : 0 < s.limitBytes → s.writeOnCur + b.length ≤ s.limitBytes) :
    (s.put c b).Splitting ∧ s.Sends (s.put c b) b := by
  obtain ⟨front, w, c', cur', wires, place, sent, count⟩ := h.last room
  obtain rfl := Option.some.inj (cur'.symm.trans cur)
  have budgeted := put_budgeted h.budgeted fits c'
  have after : (s.put c' b).wires =
      front ++ [{ w with sent := w.sent ++ b, payload := w.payload ++ b }] := by
    simp only [put, wires, place, modify_last]
  have stream : (s.put c' b).payloads = s.payloads ++ b := by
    simp [payloads, after, wires]
  refine ⟨⟨⟨budgeted, h.short, h.opened, ?_, ?_⟩, fun _ => ?_⟩, rfl, rfl, stream⟩
  · intro v hv
    rw [after] at hv
    rcases List.mem_append.mp hv with old | new
    · exact framed_congr (h.framed v (by rw [wires]; exact List.mem_append_left _ old)) rfl rfl rfl rfl
    · obtain rfl := List.mem_singleton.mp new
      refine ⟨Or.inl ?_, fun limited => ?_⟩
      · rw [sent, List.append_assoc]
        rfl
      · grind [put]
  · rw [stream, List.length_append]
    simp only [put]
    rw [h.total, int64_add_left]
    simp
  · refine ⟨front, _, c', cur, after, place, ?_, fun limited => ?_⟩
    · rw [sent, List.append_assoc]
      rfl
    · have small := h.budgeted.small
      have lo := (h.budgeted.count limited).1
      have fits := fits limited
      have count := count limited
      simp only [put] at limited ⊢
      rw [int64_of_fits (by omega) (by omega), List.length_append, count]
      simp

theorem write_splitting (h : s.Splitting) (p : Bytes) (dial : Dial) (failsAfter : Option Nat) :
    ∃ t n err, s.write p dial failsAfter = some (t, n, err) ∧ n ≤ p.length ∧ t.Splitting ∧
      s.Sends t (p.take n) := by
  rcases write_cases s p dial failsAfter with ⟨closed, -⟩ | ⟨t, err, prepared, eq⟩ | ⟨t, prepared, eq⟩
  · cases h.opened.symm.trans closed
  · obtain ⟨ready, sends⟩ := prepareWrite_splitting h prepared
    exact ⟨t, 0, _, eq, Nat.zero_le _, ready, sends⟩
  · obtain ⟨ready, sends⟩ := prepareWrite_splitting h prepared
    obtain ⟨⟨c, cur⟩, room⟩ := (prepareWrite_budgeted h.budgeted prepared).2 rfl
    obtain ⟨n, le, fits, outcome⟩ := writeOnConn_cases cur ready.budgeted room p failsAfter
    obtain ⟨after, puts⟩ := put_splitting (b := p.take n) ready room cur
      (by rwa [List.length_take_of_le le])
    have stream : (t.put c (p.take n)).payloads = s.payloads ++ p.take n := by
      rw [puts.payloads, sends.payloads, List.append_nil]
    rw [eq]
    rcases outcome with ⟨eq', -⟩ | eq'
    · exact ⟨_, n, _, eq', le, after, sends.id, sends.limit, stream⟩
    · refine ⟨_, n, _, eq', le, after.toCarrying.giveUp c, sends.id, sends.limit, ?_⟩
      exact (closeConn_payloads _ c).trans stream

structure WriteCall where
  p : Bytes
  dial : Dial
  failsAfter : Option Nat

def writes (s : RelaySocket) : List WriteCall → Option (RelaySocket × List (Nat × Option Err))
  | [] => some (s, [])
  | call :: calls =>
    (s.write call.p call.dial call.failsAfter).bind fun r =>
      (writes r.1 calls).map fun rest => (rest.1, r.2 :: rest.2)

def acceptedBytes (calls : List WriteCall) (returns : List (Nat × Option Err)) : Bytes :=
  (List.zipWith (fun call r => call.p.take r.1) calls returns).flatten

theorem writes_splitting (h : s.Splitting) (calls : List WriteCall) :
    ∃ t returns, s.writes calls = some (t, returns) ∧
      List.Forall₂ (fun call r => r.1 ≤ call.p.length) calls returns ∧ t.Splitting ∧
      s.Sends t (acceptedBytes calls returns) := by
  induction calls generalizing s with
  | nil => exact ⟨s, [], rfl, .nil, h, rfl, rfl, (List.append_nil _).symm⟩
  | cons call calls ih =>
    obtain ⟨t, n, err, eq, le, after, sends⟩ := write_splitting h call.p call.dial call.failsAfter
    obtain ⟨u, returns, rest, counts, final, sends'⟩ := ih after
    refine ⟨u, (n, err) :: returns, ?_, .cons le counts, final, sends'.id.trans sends.id,
      sends'.limit.trans sends.limit, ?_⟩
    · rw [writes, eq, Option.bind_some, rest]
      rfl
    · rw [sends'.payloads, sends.payloads, List.append_assoc]
      rfl

end RelaySocket

theorem connect_splitting {id dst : Bytes} {client : Option (Option UInt64)} {ctxDone : Bool}
    {dial : RelaySocket.Dial} (short : id.length < 128)
    (limit : limitOf client ≤ 0 ∨ (id.length + 1 : Nat) < limitOf client)
    (connected : (newRelaySocketWithID id client).connect ctxDone dst dial = some (s, none)) :
    s.Splitting ∧ (newRelaySocketWithID id client).Sends s [] := by
  unfold RelaySocket.connect at connected
  split_ifs at connected
  have start : ((newRelaySocketWithID id client).aimAt ctxDone dst).Carrying :=
    ⟨(newRelaySocketWithID_budgeted limit).of_same rfl rfl rfl, short, rfl,
      fun _ hw => absurd hw List.not_mem_nil, int64_zero.symm⟩
  obtain ⟨splitting, sends⟩ := RelaySocket.openConn_splitting start (Or.inl rfl)
    (Option.some.inj connected)
  exact ⟨splitting, sends.id, sends.limit, sends.payloads⟩

/-- After a successful `Connect`, whatever the network does to the calls of `Write`: a
connection with payload starts with the whole id message, none carries more than the
limit, and the payloads in the order of opening are the accepted prefixes. -/
theorem writes_split_stream {id dst : Bytes} {client : Option (Option UInt64)} {ctxDone : Bool}
    {dial : RelaySocket.Dial} {s : RelaySocket} (short : id.length < 128)
    (limit : limitOf client ≤ 0 ∨ (id.length + 1 : Nat) < limitOf client)
    (connected : (newRelaySocketWithID id client).connect ctxDone dst dial = some (s, none))
    (calls : List RelaySocket.WriteCall) :
    ∃ t returns, s.writes calls = some (t, returns) ∧
      List.Forall₂ (fun call r => r.1 ≤ call.p.length) calls returns ∧
      (∀ w ∈ t.wires, w.payload ≠ [] → w.sent = (UInt8.ofNat id.length :: id) ++ w.payload) ∧
      (0 < limitOf client → ∀ w ∈ t.wires, (w.sent.length : Int) ≤ limitOf client) ∧
      (t.wires.map Wire.payload).flatten = RelaySocket.acceptedBytes calls returns ∧
      t.writeTotal = int64 (RelaySocket.acceptedBytes calls returns).length := by
  obtain ⟨splitting, first⟩ := connect_splitting short limit connected
  obtain ⟨t, returns, eq, counts, final, sends⟩ := RelaySocket.writes_splitting splitting calls
  have sameID : t.id = id := sends.id.trans first.id
  have sameLimit : t.limitBytes = limitOf client := sends.limit.trans first.limit
  have stream : t.payloads = RelaySocket.acceptedBytes calls returns := by
    rw [sends.payloads, first.payloads]
    rfl
  refine ⟨t, returns, eq, counts, fun w hw carries => ?_, fun limited w hw => ?_, stream, ?_⟩
  · rcases (final.framed w hw).bytes with whole | ⟨none, -⟩
    · rw [whole, sameID, pbMessage_short short]
    · exact absurd none carries
  · rw [← sameLimit] at limited ⊢
    exact (final.framed w hw).within limited
  · rw [← stream]
    exact final.total

def tightSocket : RelaySocket :=
  (((newRelaySocketWithID RelaySocket.sockID (some (some 40))).aimAt false [1]).openConn smooth).1

/-- Twelve bytes on the first connection, then a reconnect that fails within the id, one
that is refused, and a connection that fails after one byte. -/
def roughCalls : List RelaySocket.WriteCall :=
  [⟨List.replicate 12 7, smooth, none⟩, ⟨[8, 8], ⟨true, some 3, []⟩, none⟩,
    ⟨[8, 8], ⟨false, none, []⟩, none⟩, ⟨[8, 9], smooth, some 1⟩, ⟨[9], smooth, none⟩]

theorem writes_split_stream_rough :
    ∃ t returns, tightSocket.writes roughCalls = some (t, returns) ∧
      (∀ w ∈ t.wires, (w.sent.length : Int) ≤ 40) ∧
      (t.wires.map Wire.payload).flatten = RelaySocket.acceptedBytes roughCalls returns := by
  have connected : (newRelaySocketWithID RelaySocket.sockID (some (some 40))).connect false [1]
      smooth = some (tightSocket, none) := by decide +kernel
  obtain ⟨t, returns, eq, -, -, within, stream, -⟩ :=
    writes_split_stream (by decide) (Or.inr (by decide +kernel)) connected roughCalls
  rw [show limitOf (some (some 40)) = 40 by decide +kernel] at within
  exact ⟨t, returns, eq, within (by decide), stream⟩

end Relayhub
