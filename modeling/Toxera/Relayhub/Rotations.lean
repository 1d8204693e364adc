import Mathlib.Data.Finset.Card
import Toxera.Relayhub.SocketBudget

/-!
# What `Rotations` counts

A socket counts the connections that it gives up: when a write fails on one, when a read
comes to its end, and when `rotateWrite` closes one that has no room left.
-/

namespace Relayhub

open Exec

variable {dial : RelaySocket.Dial} {err : Option Err} {failsAfter : Option Nat} {n : Nat}
  {p : Bytes}

namespace RelaySocket

def use (s : RelaySocket) (used : Finset Nat) : Finset Nat :=
  match s.cur with
  | none => used
  | some c => insert c.wire used

def givenUp (s : RelaySocket) (used : Finset Nat) : Finset Nat :=
  match s.cur with
  | none => used
  | some c => used.erase c.wire

def Counts (s : RelaySocket) (used : Finset Nat) : Prop :=
  s.rotCount = int64 (s.givenUp used).card

instance (s : RelaySocket) (used : Finset Nat) : Decidable (s.Counts used) :=
  inferInstanceAs (Decidable (_ = _))

end RelaySocket

structure Tracked where
  endpoint : Endpoint
  used : Finset Nat
  deriving DecidableEq

namespace Tracked

def new (id : Bytes) (client : Option (Option UInt64)) : Tracked := ⟨newEndpoint id client, ∅⟩

def during (e : Endpoint) (ev : Event) (e' : Endpoint) : RelaySocket :=
  match ev with
  | .write _ dial _ => if e.sock.closed then e.sock else (e.sock.prepareWrite dial).1
  | _ => e'.sock

def next (t : Tracked) (ev : Event) : Option Tracked :=
  (Relayhub.next t.endpoint ev).map fun e' => ⟨e', (during t.endpoint ev e').use t.used⟩

def Calls (t : Tracked) : Event → Prop
  | .connect _ _ _ => t.endpoint.sock.cur = none
  | .close _ => False
  | _ => True

instance (t : Tracked) : (ev : Event) → Decidable (Calls t ev)
  | .connect _ _ _ => inferInstanceAs (Decidable (t.endpoint.sock.cur = none))
  | .close _ => isFalse id
  | .write _ _ _ | .read _ | .dispatchIncoming _ | .signalClose | .cancel => isTrue trivial

def Reconnects (t : Tracked) : Event → Prop
  | .write _ dial _ => t.endpoint.sock.closed = false → t.endpoint.sock.MustRotate →
      t.endpoint.sock.cur ≠ none → (t.endpoint.sock.rotateWrite dial).2 = none
  | _ => True

instance (t : Tracked) : (ev : Event) → Decidable (Reconnects t ev)
  | .write _ dial _ => inferInstanceAs (Decidable (t.endpoint.sock.closed = false →
      t.endpoint.sock.MustRotate → t.endpoint.sock.cur ≠ none →
        (t.endpoint.sock.rotateWrite dial).2 = none))
  | .connect _ _ _ | .close _ | .read _ | .dispatchIncoming _ | .signalClose | .cancel =>
    isTrue trivial

def Counted (t : Tracked) : Prop := t.endpoint.sock.Counts t.used

end Tracked

namespace RelaySocket

/-- The connections used are among those opened, the current one among them; those that
wait in the channel are different and have not been used. -/
structure Tracks (s : RelaySocket) (used : Finset Nat) : Prop where
  cur_used : ∀ c, s.cur = some c → c.wire ∈ used
  used_lt : ∀ w ∈ used, w < s.wires.length
  ch_lt : ∀ c ∈ s.ch, c.wire < s.wires.length
  ch_fresh : ∀ c ∈ s.ch, c.wire ∉ used
  ch_nodup : (s.ch.map RelayedConn.wire).Nodup

section
variable {s t : RelaySocket} {used : Finset Nat} {c : RelayedConn}

theorem Tracks.of_same (h : s.Tracks used) (cur : ∀ c, t.cur = some c → c.wire ∈ used)
    (ch : t.ch = s.ch) (wires : s.wires.length ≤ t.wires.length) : t.Tracks used where
  cur_used := cur
  used_lt := fun w hw => (h.used_lt w hw).trans_le wires
  ch_lt := by
    rw [ch]
    exact fun c hc => (h.ch_lt c hc).trans_le wires
  ch_fresh := by
    rw [ch]
    exact h.ch_fresh
  ch_nodup := by
    rw [ch]
    exact h.ch_nodup

theorem use_of_mem (h : ∀ c, s.cur = some c → c.wire ∈ used) : s.use used = used := by
  unfold use
  split
  · rfl
  · grind

@[simp] theorem closeConn_length (s : RelaySocket) (c : RelayedConn) :
    (s.closeConn c).wires.length = s.wires.length := List.length_modify ..

theorem Tracks.giveUp (h : s.Tracks used) (c : RelayedConn) : (s.giveUp c).Tracks used :=
  h.of_same nofun rfl (closeConn_length s c).ge

theorem Tracks.retireCur (h : s.Tracks used) : s.retireCur.Tracks used := by
  unfold RelaySocket.retireCur
  split
  · exact h.of_same h.cur_used rfl (closeConn_length s _).ge
  · exact h

theorem Tracks.opened (h : s.Tracks used) (cur : t.cur = some c) (new : c.wire = s.wires.length)
    (ch : t.ch = s.ch) (wires : t.wires.length = s.wires.length + 1) : t.Tracks (t.use used) := by
  have use : t.use used = insert c.wire used := by rw [RelaySocket.use, cur]
  rw [use]
  refine ⟨fun c' cur' => ?_, fun w hw => ?_, fun c' hc => ?_, fun c' hc hw => ?_, ?_⟩
  · grind
  · rcases Finset.mem_insert.mp hw with rfl | hw
    · omega
    · have := h.used_lt w hw
      omega
  · rw [ch] at hc
    have := h.ch_lt c' hc
    omega
  · rw [ch] at hc
    have lt := h.ch_lt c' hc
    rcases Finset.mem_insert.mp hw with eq | hw
    · omega
    · exact h.ch_fresh c' hc hw
  · rw [ch]
    exact h.ch_nodup

theorem int64_succ_ne (n : Int) : int64 (n + 1) ≠ int64 n := by
  rw [int64, int64, Int.bmod_def, Int.bmod_def]
  split_ifs <;> omega

theorem Counts.of_same (counts : s.Counts used)
    (cur : t.cur.map RelayedConn.wire = s.cur.map RelayedConn.wire)
    (rot : t.rotCount = s.rotCount) : t.Counts used := by
  have same : t.givenUp used = s.givenUp used := by grind [givenUp]
  rw [Counts, rot, same]
  exact counts

theorem Counts.succ (counts : s.Counts used) (cur : s.cur = some c) (mem : c.wire ∈ used) :
    int64 (s.rotCount + 1) = int64 used.card := by
  have card : (s.givenUp used).card + 1 = used.card := by
    rw [givenUp, cur]
    exact Finset.card_erase_add_one mem
  rw [counts, int64_add_left, ← card]
  rfl

theorem Counts.giveUp (counts : s.Counts used) (cur : s.cur = some c) (mem : c.wire ∈ used) :
    (s.giveUp c).Counts used :=
  counts.succ cur mem

theorem counts_of_new (cur : t.cur = some c) (new : c.wire ∉ used) :
    t.Counts (t.use used) ↔ t.rotCount = int64 used.card := by
  have given : t.givenUp (t.use used) = used := by
    rw [givenUp, use, cur]
    exact Finset.erase_insert new
  rw [Counts, given]

theorem counts_all_iff (all : s.rotCount = int64 used.card)
    (mem : ∀ c, s.cur = some c → c.wire ∈ used) : s.Counts used ↔ s.cur = none := by
  cases cur : s.cur with
  | none => exact iff_of_true (by rw [Counts, givenUp, cur]; exact all) rfl
  | some c =>
    refine iff_of_false (fun counts => ?_) nofun
    have card := Finset.card_erase_add_one (mem c cur)
    rw [Counts, givenUp, cur, all, ← card, Nat.cast_succ] at counts
    exact int64_succ_ne _ counts

theorem Tracks.use_counts (h : s.Tracks used) (counts : s.Counts used) :
    s.Tracks (s.use used) ∧ s.Counts (s.use used) := by
  rw [use_of_mem h.cur_used]
  exact ⟨h, counts⟩

theorem retireCur_cur (s : RelaySocket) : s.retireCur.cur = s.cur := by
  unfold retireCur
  split
  · rfl
  · rfl

theorem retireCur_counts_all (h : s.Tracks used) (counts : s.Counts used) :
    s.retireCur.rotCount = int64 used.card := by
  cases cur : s.cur with
  | none =>
    rw [retireCur, cur]
    rwa [Counts, givenUp, cur] at counts
  | some c =>
    rw [retireCur, cur]
    exact counts.succ cur (h.cur_used c cur)

theorem openConn_tracks (h : s.Tracks used) (all : s.rotCount = int64 used.card) (dial : Dial) :
    (s.openConn dial).1.Tracks ((s.openConn dial).1.use used) ∧
    ((s.openConn dial).1.Counts ((s.openConn dial).1.use used) ↔
      (s.cur ≠ none → (s.openConn dial).2 = none)) := by
  rcases openConn_cases s dial with ⟨failed, err, -, eq⟩ | eq
  · rw [eq]
    have tracks := h.of_same (t := { s with wires := s.wires ++ failed }) h.cur_used rfl (by simp)
    rw [use_of_mem tracks.cur_used]
    refine ⟨tracks, (counts_all_iff all tracks.cur_used).trans ?_⟩
    simp
  · rw [eq]
    have new : s.wires.length ∉ used := fun mem => (h.used_lt _ mem).false
    exact ⟨h.opened rfl rfl rfl (by simp),
      iff_of_true ((counts_of_new rfl new).mpr all) fun _ => rfl⟩

theorem rotateWrite_counts (h : s.Tracks used) (counts : s.Counts used) (dial : Dial) :
    (s.rotateWrite dial).1.Tracks ((s.rotateWrite dial).1.use used) ∧
    ((s.rotateWrite dial).1.Counts ((s.rotateWrite dial).1.use used) ↔
      (s.cur ≠ none → (s.rotateWrite dial).2 = none)) := by
  have tracks := h.retireCur
  have all := retireCur_counts_all h counts
  unfold rotateWrite
  split_ifs
  · rw [← retireCur_cur s]
    exact openConn_tracks tracks all dial
  · rw [use_of_mem tracks.cur_used]
    refine ⟨tracks, (counts_all_iff all tracks.cur_used).trans ?_⟩
    rw [retireCur_cur]
    simp

theorem prepareWrite_counts (h : s.Tracks used) (counts : s.Counts used) (dial : Dial) :
    (s.prepareWrite dial).1.Tracks ((s.prepareWrite dial).1.use used) ∧
    ((s.prepareWrite dial).1.Counts ((s.prepareWrite dial).1.use used) ↔
      (s.MustRotate → s.cur ≠ none → (s.rotateWrite dial).2 = none)) := by
  unfold prepareWrite
  split_ifs with rotate
  · grind [rotateWrite_counts]
  · rw [use_of_mem h.cur_used]
    exact ⟨h, iff_of_true counts fun r => absurd r rotate⟩

theorem writeOnConn_puts (written : s.writeOnConn p failsAfter = some (t, n, err)) :
    ∃ c b, s.cur = some c ∧ (t = s.put c b ∨ t = (s.put c b).giveUp c) := by
  unfold writeOnConn at written
  split at written
  · cases written
  · rename_i c cur
    refine ⟨c, ?_⟩
    split at written
    · simp only at written
      split at written
      · cases written
        exact ⟨_, cur, .inl rfl⟩
      · cases written
        exact ⟨_, cur, .inr rfl⟩
    · cases written

theorem writeOnConn_counts (h : s.Tracks used)
    (written : s.writeOnConn p failsAfter = some (t, n, err)) :
    t.Tracks used ∧ (s.Counts used → t.Counts used) := by
  obtain ⟨c, b, cur, outcome⟩ := writeOnConn_puts written
  have tracks : (s.put c b).Tracks used :=
    h.of_same h.cur_used rfl (List.length_modify ..).ge
  rcases outcome with rfl | rfl
  · exact ⟨tracks, fun counts => counts.of_same rfl rfl⟩
  · refine ⟨tracks.giveUp c, fun counts => ?_⟩
    have same : (s.put c b).Counts used := counts.of_same rfl rfl
    exact same.giveUp cur (h.cur_used c cur)

theorem write_counts (h : s.Tracks used) (counts : s.Counts used) (opened : s.closed = false)
    (written : s.write p dial failsAfter = some (t, n, err)) :
    t.Tracks ((s.prepareWrite dial).1.use used) ∧
      (t.Counts ((s.prepareWrite dial).1.use used) ↔
        (s.MustRotate → s.cur ≠ none → (s.rotateWrite dial).2 = none)) := by
  obtain ⟨tracks, iff⟩ := prepareWrite_counts h counts dial
  rcases write_cases s p dial failsAfter with ⟨closed, -⟩ | ⟨mid, err', prepared, eq⟩ |
    ⟨mid, prepared, eq⟩
  · exact absurd closed (by simp [opened])
  · grind
  · have ready : s.MustRotate → s.cur ≠ none → (s.rotateWrite dial).2 = none := by
      intro rotate _
      rw [prepareWrite, if_pos rotate] at prepared
      rw [prepared]
    rw [prepared] at tracks iff ⊢
    obtain ⟨tracks', step⟩ := writeOnConn_counts tracks (eq.symm.trans written)
    exact ⟨tracks', iff_of_true (step (iff.mpr ready)) ready⟩

end

end RelaySocket

section
variable {e e' : Endpoint} {used : Finset Nat}

theorem accepted_counts {s : RelaySocket} {c : RelayedConn} {ch : List RelayedConn}
    (h : s.Tracks used) (counts : s.Counts used) (idle : s.cur = none) (waiting : s.ch = c :: ch) :
    let t := { s with ch := ch, cur := some c }
    t.Tracks (t.use used) ∧ t.Counts (t.use used) := by
  intro t
  have lt := h.ch_lt
  have fresh := h.ch_fresh
  have nodup := h.ch_nodup
  rw [waiting] at lt fresh nodup
  have new : c.wire ∉ used := fresh c (.head _)
  constructor
  · refine ⟨fun c' cur => ?_, fun w hw => ?_, fun c' hc => lt c' (.tail _ hc), fun c' hc hw => ?_,
      (List.nodup_cons.mp nodup).2⟩
    · rw [← Option.some.inj cur]
      exact Finset.mem_insert_self _ _
    · rcases Finset.mem_insert.mp hw with rfl | hw
      · exact lt c (.head _)
      · exact h.used_lt w hw
    · rcases Finset.mem_insert.mp hw with same | hw
      · grind
      · exact fresh c' (.tail _ hc) hw
  · refine (RelaySocket.counts_of_new rfl new).mpr ?_
    rwa [RelaySocket.Counts, RelaySocket.givenUp, idle] at counts

theorem read_to_end_counts {s : RelaySocket} {c : RelayedConn} (h : s.Tracks used)
    (counts : s.Counts used) (cur : s.cur = some c) (n : Nat) :
    ((s.countRead n).giveUp c).Tracks used ∧ ((s.countRead n).giveUp c).Counts used := by
  have tracks : (s.countRead n).Tracks used := h.of_same h.cur_used rfl le_rfl
  have same : (s.countRead n).Counts used := counts.of_same rfl rfl
  exact ⟨tracks.giveUp c, same.giveUp cur (h.cur_used c cur)⟩

theorem reads_counts {step : ReadStep} (h : e.sock.Tracks used) (counts : e.sock.Counts used)
    (reads : e.Reads step e') :
    e'.sock.Tracks (e'.sock.use used) ∧ e'.sock.Counts (e'.sock.use used) := by
  -- in all cases but one the connections used stay the same
  suffices same : (∃ c ch, e.sock.cur = none ∧ e.sock.ch = c :: ch ∧
      e'.sock = { e.sock with ch := ch, cur := some c }) ∨
      e'.sock.Tracks used ∧ e'.sock.Counts used by
    rcases same with ⟨c, ch, idle, waiting, eq⟩ | ⟨tracks, counts'⟩
    · rw [eq]
      exact accepted_counts h counts idle waiting
    · exact tracks.use_counts counts'
  cases reads with
  | refused => exact .inr ⟨h, counts⟩
  | begun => exact .inr ⟨h, counts⟩
  | noClient => exact .inr ⟨h, counts⟩
  | accepted idle waiting => exact .inl ⟨_, _, idle, waiting, rfl⟩
  | closeSignal => exact .inr ⟨h.of_same h.cur_used rfl le_rfl, counts⟩
  | ctxDone => exact .inr ⟨h, counts⟩
  | part cur =>
    refine .inr ⟨h.of_same ?_ rfl le_rfl, ?_⟩
    · rintro c' ⟨⟩
      exact (h.cur_used _ cur :)
    · refine RelaySocket.Counts.of_same counts ?_ rfl
      rw [cur]
      rfl
  | lastPart cur => exact .inr (read_to_end_counts h counts cur _)
  | ended cur => exact .inr (read_to_end_counts h counts cur 0)

end

namespace RelaySocket
variable {s : RelaySocket} {used : Finset Nat}

theorem connect_counts {t : RelaySocket} {ctxDone : Bool} {dst : Bytes} (h : s.Tracks used)
    (counts : s.Counts used) (idle : s.cur = none)
    (connected : s.connect ctxDone dst dial = some (t, err)) :
    t.Tracks (t.use used) ∧ t.Counts (t.use used) := by
  unfold connect at connected
  split_ifs at connected
  have aimed : (s.aimAt ctxDone dst).Tracks used := h.of_same h.cur_used rfl le_rfl
  have all : (s.aimAt ctxDone dst).rotCount = int64 used.card := by
    rwa [Counts, givenUp, idle] at counts
  obtain ⟨tracks, iff⟩ := openConn_tracks aimed all dial
  rw [Option.some.inj connected] at tracks iff
  exact ⟨tracks, iff.mpr fun busy => absurd idle busy⟩

theorem dispatchIncoming_counts (h : s.Tracks used) (counts : s.Counts used) (unread : Bytes) :
    (s.dispatchIncoming unread).Tracks used ∧ (s.dispatchIncoming unread).Counts used := by
  unfold dispatchIncoming
  split_ifs
  · refine ⟨⟨h.cur_used, fun w hw => ?_, fun c hc => ?_, fun c hc hw => ?_, ?_⟩,
      counts.of_same rfl rfl⟩
    · have := h.used_lt w hw
      simp only [List.length_append, List.length_singleton]
      omega
    · rcases List.mem_append.mp hc with hc | hc
      · have := h.ch_lt c hc
        simp only [List.length_append, List.length_singleton]
        omega
      · rw [List.mem_singleton.mp hc]
        simp
    · rcases List.mem_append.mp hc with hc | hc
      · exact h.ch_fresh c hc hw
      · rw [List.mem_singleton.mp hc] at hw
        exact (h.used_lt _ hw).false
    · rw [List.map_append, List.map_singleton]
      refine List.nodup_append.mpr ⟨h.ch_nodup, List.nodup_singleton _, ?_⟩
      rintro w hw v hv rfl
      obtain ⟨c, hc, rfl⟩ := List.mem_map.mp hw
      have := h.ch_lt c hc
      rw [List.mem_singleton.mp hv] at this
      exact this.false
  · exact ⟨h.of_same h.cur_used rfl (by simp), counts.of_same rfl rfl⟩

end RelaySocket

namespace Tracked

theorem write_step_counts {t : Tracked} {dial : RelaySocket.Dial} {sock : RelaySocket}
    (h : t.endpoint.sock.Tracks t.used) (counts : t.Counted)
    (written : t.endpoint.sock.write p dial failsAfter = some (sock, n, err)) :
    let used := (during t.endpoint (.write p dial failsAfter) ⟨sock, t.endpoint.reading,
      t.endpoint.returned⟩).use t.used
    sock.Tracks used ∧ (sock.Counts used ↔ t.Reconnects (.write p dial failsAfter)) := by
  simp only [during]
  split_ifs with closed
  · -- a closed socket refuses the call
    rw [RelaySocket.write, if_pos closed] at written
    cases written
    obtain ⟨tracks, counts'⟩ := h.use_counts counts
    exact ⟨tracks, iff_of_true counts' fun opened => absurd closed (by simp [opened])⟩
  · have opened : t.endpoint.sock.closed = false := Bool.eq_false_iff.mpr closed
    obtain ⟨tracks, iff⟩ := RelaySocket.write_counts h counts opened written
    exact ⟨tracks, iff.trans ⟨fun h _ => h, fun h => h opened⟩⟩

theorem next_counts {t t' : Tracked} {ev : Event} (h : t.endpoint.sock.Tracks t.used)
    (counts : t.Counted) (call : t.Calls ev) (step : t.next ev = some t') :
    t'.endpoint.sock.Tracks t'.used ∧ (t'.Counted ↔ t.Reconnects ev) := by
  obtain ⟨e', stepped, rfl⟩ := Option.map_eq_some_iff.mp step
  cases ev with
  | connect ctxDone dst dial =>
    obtain ⟨⟨sock, err⟩, connected, rfl⟩ := Option.map_eq_some_iff.mp stepped
    obtain ⟨tracks, counts'⟩ := RelaySocket.connect_counts h counts call connected
    exact ⟨tracks, iff_of_true counts' trivial⟩
  | write p dial failsAfter =>
    obtain ⟨⟨sock, n, err⟩, written, rfl⟩ := Option.map_eq_some_iff.mp stepped
    exact write_step_counts h counts written
  | read step =>
    obtain ⟨tracks, counts'⟩ := reads_counts h counts (Endpoint.reads_of_readStep stepped)
    exact ⟨tracks, iff_of_true counts' trivial⟩
  | dispatchIncoming unread =>
    cases stepped
    obtain ⟨tracks, counts'⟩ := RelaySocket.dispatchIncoming_counts h counts unread
    exact ⟨(tracks.use_counts counts').1, iff_of_true (tracks.use_counts counts').2 trivial⟩
  | signalClose =>
    cases stepped
    have tracks : t.endpoint.sock.signalClose.Tracks t.used := h.of_same h.cur_used rfl le_rfl
    have counts' : t.endpoint.sock.signalClose.Counts t.used := counts.of_same rfl rfl
    exact ⟨(tracks.use_counts counts').1, iff_of_true (tracks.use_counts counts').2 trivial⟩
  | cancel =>
    cases stepped
    have tracks : ({ t.endpoint.sock with ctxDone := true }).Tracks t.used :=
      h.of_same h.cur_used rfl le_rfl
    have counts' : ({ t.endpoint.sock with ctxDone := true }).Counts t.used :=
      counts.of_same rfl rfl
    exact ⟨(tracks.use_counts counts').1, iff_of_true (tracks.use_counts counts').2 trivial⟩
  | close dial => exact absurd call id

/-- `Rotations` is the number of connections given up, at every point of a sequence of reads
and writes, exactly when every write that closes a connection opens another one. -/
theorem rotations_counted_iff (id : Bytes) (client : Option (Option UInt64)) (es : List Event)
    (t : Tracked) (calls : Along next Calls (new id client) es)
    (run : exec next (new id client) es = some t) :
    Throughout next Counted (new id client) es ↔ Along next Reconnects (new id client) es :=
  throughout_iff_along (I := fun t => t.endpoint.sock.Tracks t.used)
    (fun _ _ _ tracks counts call step => next_counts tracks counts call step)
    ⟨nofun, nofun, nofun, nofun, List.nodup_nil⟩ int64_zero.symm calls run

def opens : RelaySocket.Dial := ⟨true, none, []⟩

def refused : RelaySocket.Dial := ⟨false, none, []⟩

def oneByte : Tracked := new RelaySocket.sockID (some (some 33))

theorem rotations_counted_reconnected :
    ∃ t, exec next oneByte [.connect false [1] opens, .write [7] opens none,
        .write [8] opens none] = some t ∧
      t.endpoint.sock.rotCount = 1 ∧ t.Counted := by
  obtain ⟨t, run, rot⟩ := Option.map_eq_some_iff.mp
    (show (exec next oneByte [.connect false [1] opens, .write [7] opens none,
      .write [8] opens none]).map (fun t => t.endpoint.sock.rotCount) = some 1 by decide +kernel)
  refine ⟨t, run, rot, (rotations_counted_iff _ _ _ t ?_ run).mpr ?_ _ [] t rfl run⟩
  · exact along_of_decide (by decide +kernel)
  · exact along_of_decide (by decide +kernel)

/-- The connection is full, and the relay refuses the next one twice: one connection has been
used, and it is still the current one, but it is counted twice. -/
theorem rotations_count_twice :
    ∃ t, exec next oneByte [.connect false [1] opens, .write [7] opens none,
        .write [8] refused none, .write [8] refused none] = some t ∧
      t.endpoint.sock.rotCount = 2 ∧ t.used = {0} ∧ t.endpoint.sock.givenUp t.used = ∅ := by
  obtain ⟨t, run, values⟩ := Option.map_eq_some_iff.mp
    (show (exec next oneByte [.connect false [1] opens, .write [7] opens none,
      .write [8] refused none, .write [8] refused none]).map
        (fun t => (t.endpoint.sock.rotCount, t.used, t.endpoint.sock.givenUp t.used)) =
          some (2, {0}, ∅) by decide +kernel)
  obtain ⟨rot, rest⟩ := Prod.mk.inj values
  exact ⟨t, run, rot, Prod.mk.inj rest⟩

end Tracked

end Relayhub
