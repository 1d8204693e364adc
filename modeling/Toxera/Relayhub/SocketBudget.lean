import Toxera.Relayhub.Socket

/-!
# The budget of a relay socket

A socket counts what it has put on its current connection, the message with its id
included, and rotates to a new connection when the count reaches the limit.
-/

namespace Relayhub

open Exec

variable {dial : RelaySocket.Dial} {e e' : Endpoint} {err : Option Err} {s t : RelaySocket}

namespace RelaySocket

/-- The limit leaves room for payload after the id, and the count of a limited socket
is between zero and the limit. -/
structure Budgeted (s : RelaySocket) : Prop where
  limit : s.limitBytes ≤ 0 ∨ (s.id.length + 1 : Nat) < s.limitBytes
  small : s.limitBytes < 2 ^ 63
  count : 0 < s.limitBytes → 0 ≤ s.writeOnCur ∧ s.writeOnCur ≤ s.limitBytes

theorem avail_bounds (budgeted : s.Budgeted) (room : ¬ s.MustRotate) (len : Nat) :
    ∃ k ≤ len, s.avail len = k ∧ (0 < len → 0 < k) ∧
      (0 < s.limitBytes → s.writeOnCur + k ≤ s.limitBytes) := by
  have free : 0 < s.limitBytes → s.writeOnCur < s.limitBytes := fun limited =>
    Int.not_le.mp fun full => room (Or.inr ⟨limited, full⟩)
  by_cases limited : 0 < s.limitBytes
  · obtain ⟨lo, hi⟩ := budgeted.count limited
    have small := budgeted.small
    have lt := free limited
    have rem : int64 (s.limitBytes - s.writeOnCur) = s.limitBytes - s.writeOnCur :=
      int64_of_fits (by omega) (by omega)
    unfold avail
    rw [rem]
    split_ifs with less
    · exact ⟨(s.limitBytes - s.writeOnCur).toNat, by omega, by omega, by omega, by omega⟩
    · grind
  · grind [avail]

theorem writeOnConn_cases {c : RelayedConn} (cur : s.cur = some c) (budgeted : s.Budgeted)
    (room : ¬ s.MustRotate) (p : Bytes) (failsAfter : Option Nat) :
    ∃ n ≤ p.length, (0 < s.limitBytes → s.writeOnCur + n ≤ s.limitBytes) ∧
      ((s.writeOnConn p failsAfter = some (s.put c (p.take n), n, none) ∧ (p ≠ [] → 0 < n)) ∨
        s.writeOnConn p failsAfter =
          some ((s.put c (p.take n)).giveUp c, n, some .conn)) := by
  obtain ⟨k, le, eq, pos, fits⟩ := avail_bounds budgeted room p.length
  have inRange : 0 ≤ (k : Int) ∧ (k : Int) ≤ p.length := by omega
  have chunk : (p.take k).length = k := List.length_take_of_le le
  simp only [writeOnConn, cur, eq, if_pos inRange, Int.toNat_natCast]
  cases (if s.connClosed c then some 0 else failsAfter) with
  | none => grind
  | some m =>
    have taken : (p.take k).take m = p.take (min m k) := List.take_take
    refine ⟨min m k, by omega, fun limited => ?_, Or.inr ?_⟩
    · have := fits limited
      omega
    · grind

theorem openConn_cases (s : RelaySocket) (dial : Dial) :
    (∃ failed err, (∀ w ∈ failed, ∃ n, w = ⟨(pbMessage s.id).take n, [], true⟩) ∧
      s.openConn dial = ({ s with wires := s.wires ++ failed }, some err)) ∨
    s.openConn dial =
      ({ s with
          wires := s.wires ++ [⟨pbMessage s.id, [], false⟩]
          cur := some ⟨s.wires.length, dial.unread⟩
          writeOnCur := (s.id.length + 1 : Nat) }, none) := by
  unfold openConn
  split_ifs
  · exact Or.inl ⟨[], _, by simp, by rw [List.append_nil]⟩
  · cases dial.failsAfter with
    | some n => exact Or.inl ⟨[_], _, fun w hw => ⟨n, List.mem_singleton.mp hw⟩, rfl⟩
    | none => exact Or.inr rfl

theorem openConn_budgeted (budgeted : s.Budgeted) (h : s.openConn dial = (t, err)) :
    t.Budgeted ∧ (err = none → (∃ c, t.cur = some c) ∧ ¬ t.MustRotate) := by
  rcases openConn_cases s dial with ⟨failed, err', -, eq⟩ | eq
  · obtain ⟨rfl, rfl⟩ := Prod.mk.inj (eq.symm.trans h)
    exact ⟨⟨budgeted.limit, budgeted.small, budgeted.count⟩, by simp⟩
  · obtain ⟨rfl, rfl⟩ := Prod.mk.inj (eq.symm.trans h)
    have limit := budgeted.limit
    refine ⟨⟨limit, budgeted.small, fun limited => ?_⟩, fun _ => ⟨⟨_, rfl⟩, ?_⟩⟩
    · simp only at limited ⊢
      omega
    · rintro (none | ⟨limited, full⟩)
      · cases none
      · simp only at limited full
        omega

theorem retireCur_budgeted (budgeted : s.Budgeted) : s.retireCur.Budgeted := by
  unfold retireCur
  split
  · exact ⟨budgeted.limit, budgeted.small, budgeted.count⟩
  · exact budgeted

theorem prepareWrite_budgeted (budgeted : s.Budgeted) (h : s.prepareWrite dial = (t, err)) :
    t.Budgeted ∧ (err = none → (∃ c, t.cur = some c) ∧ ¬ t.MustRotate) := by
  unfold prepareWrite at h
  split_ifs at h with rotate
  · unfold rotateWrite at h
    split_ifs at h
    · exact openConn_budgeted (retireCur_budgeted budgeted) h
    · cases h
      exact ⟨retireCur_budgeted budgeted, by simp⟩
  · cases h
    refine ⟨budgeted, fun _ => ⟨Option.ne_none_iff_exists'.mp fun none => ?_, rotate⟩⟩
    exact rotate (Or.inl none)

theorem put_budgeted {b : Bytes} (budgeted : s.Budgeted)
    (fits : 0 < s.limitBytes → s.writeOnCur + b.length ≤ s.limitBytes) (c : RelayedConn) :
    (s.put c b).Budgeted := by
  refine ⟨budgeted.limit, budgeted.small, fun limited => ?_⟩
  have small := budgeted.small
  have count := budgeted.count limited
  have fits := fits limited
  have exact_ : int64 (s.writeOnCur + b.length) = s.writeOnCur + b.length :=
    int64_of_fits (by omega) (by omega)
  simp only [put] at limited ⊢
  rw [exact_]
  omega

theorem write_cases (s : RelaySocket) (p : Bytes) (dial : Dial) (failsAfter : Option Nat) :
    (s.closed = true ∧ s.write p dial failsAfter = some (s, 0, some .closedPipe)) ∨
    (∃ t err, s.prepareWrite dial = (t, some err) ∧
      s.write p dial failsAfter = some (t, 0, some err)) ∨
    ∃ t, s.prepareWrite dial = (t, none) ∧
      s.write p dial failsAfter = t.writeOnConn p failsAfter := by
  unfold write
  split_ifs with closed
  · exact Or.inl ⟨closed, rfl⟩
  · cases prepared : s.prepareWrite dial with
    | mk t err =>
      cases err with
      | some err => exact Or.inr (Or.inl ⟨t, err, rfl, rfl⟩)
      | none => exact Or.inr (Or.inr ⟨t, rfl, rfl⟩)

theorem write_budgeted (budgeted : s.Budgeted) (p : Bytes) (dial : Dial) (failsAfter : Option Nat) :
    ∃ t n err, s.write p dial failsAfter = some (t, n, err) ∧ t.Budgeted ∧
      (err = none → p ≠ [] → 0 < n) := by
  rcases write_cases s p dial failsAfter with ⟨-, eq⟩ | ⟨t, err, prepared, eq⟩ | ⟨t, prepared, eq⟩
  · exact ⟨s, 0, _, eq, budgeted, by simp⟩
  · exact ⟨t, 0, _, eq, (prepareWrite_budgeted budgeted prepared).1, by simp⟩
  · obtain ⟨ready, good⟩ := prepareWrite_budgeted budgeted prepared
    obtain ⟨⟨c, cur⟩, room⟩ := good rfl
    obtain ⟨n, le, fits, outcome⟩ := writeOnConn_cases cur ready room p failsAfter
    have after : (t.put c (p.take n)).Budgeted :=
      put_budgeted ready (by rwa [List.length_take_of_le le]) c
    rw [eq]
    rcases outcome with ⟨eq', pos⟩ | eq'
    · exact ⟨_, n, _, eq', after, fun _ => pos⟩
    · exact ⟨_, n, _, eq', ⟨after.limit, after.small, after.count⟩, by simp⟩

theorem remaining_nonneg (budgeted : s.Budgeted) : 0 ≤ s.remaining := by
  unfold remaining
  split_ifs with unlimited
  · decide
  · have small := budgeted.small
    have count := budgeted.count (by omega)
    rw [int64_of_fits (by omega) (by omega)]
    omega

theorem Budgeted.of_same (budgeted : s.Budgeted) (sameID : t.id = s.id)
    (sameLimit : t.limitBytes = s.limitBytes) (sameCount : t.writeOnCur = s.writeOnCur) :
    t.Budgeted := by
  refine ⟨?_, ?_, ?_⟩
  · rw [sameID, sameLimit]
    exact budgeted.limit
  · rw [sameLimit]
    exact budgeted.small
  · rw [sameLimit, sameCount]
    exact budgeted.count

/-- A caller that writes what is left until an error or the end, against given
outcomes of the calls. -/
def writeRest (s : RelaySocket) (p : Bytes) :
    List (Dial × Option Nat) → Option (RelaySocket × Bytes × Option Err)
  | [] => some (s, p, none)
  | (dial, failsAfter) :: rest =>
    if p = [] then some (s, [], none)
    else
      match s.write p dial failsAfter with
      | none => none
      | some (t, n, some err) => some (t, p.drop n, some err)
      | some (t, n, none) => writeRest t (p.drop n) rest

structure WriteSafe (s : RelaySocket) : Prop where
  returns : ∀ p ≠ [], ∀ dial failsAfter, ∃ t n err, s.write p dial failsAfter = some (t, n, err) ∧
    (err = none → 1 ≤ n ∧ 0 ≤ t.remaining)
  ends : ∀ p outcomes, p.length ≤ outcomes.length →
    ∃ t left err, s.writeRest p outcomes = some (t, left, err) ∧ (err = none → left = [])

theorem writeRest_ends (budgeted : s.Budgeted) {p : Bytes} {outcomes : List (Dial × Option Nat)}
    (enough : p.length ≤ outcomes.length) :
    ∃ t left err, s.writeRest p outcomes = some (t, left, err) ∧ (err = none → left = []) := by
  induction outcomes generalizing s p with
  | nil => exact ⟨s, p, none, rfl, fun _ => List.length_eq_zero_iff.mp (Nat.le_zero.mp enough)⟩
  | cons outcome rest ih =>
    obtain ⟨dial, failsAfter⟩ := outcome
    unfold writeRest
    split_ifs with empty
    · exact ⟨s, [], none, rfl, fun _ => rfl⟩
    · obtain ⟨t, n, err, eq, after, pos⟩ := write_budgeted budgeted p dial failsAfter
      rw [eq]
      cases err with
      | some err => exact ⟨t, _, _, rfl, by simp⟩
      | none =>
        have := pos rfl empty
        refine ih after ?_
        rw [List.length_drop]
        rw [List.length_cons] at enough
        omega

theorem writeSafe_of_budgeted (budgeted : s.Budgeted) : s.WriteSafe := by
  refine ⟨fun p ne dial failsAfter => ?_, fun p outcomes enough => writeRest_ends budgeted enough⟩
  obtain ⟨t, n, err, eq, after, pos⟩ := write_budgeted budgeted p dial failsAfter
  exact ⟨t, n, err, eq, fun ok => ⟨pos ok ne, remaining_nonneg after⟩⟩

end RelaySocket

theorem readStep_budgeted {step : ReadStep} (budgeted : e.sock.Budgeted)
    (h : e.readStep step = some e') : e'.sock.Budgeted := by
  cases Endpoint.reads_of_readStep h <;> exact budgeted.of_same rfl rfl rfl

theorem sendClose_budgeted {dial : RelaySocket.Dial} (budgeted : s.Budgeted)
    (h : s.sendClose dial = some t) : t.Budgeted := by
  unfold RelaySocket.sendClose at h
  split at h
  · obtain ⟨closeID, -, rfl⟩ := Option.map_eq_some_iff.mp h
    split_ifs <;> exact budgeted.of_same rfl rfl rfl
  · cases h
    exact budgeted

theorem close_budgeted {dial : RelaySocket.Dial} (budgeted : s.Budgeted) (h : s.close dial = some t) :
    t.Budgeted := by
  unfold RelaySocket.close at h
  split at h
  · cases h
    exact budgeted
  · obtain ⟨u, sent, rfl⟩ := Option.map_eq_some_iff.mp h
    have before : u.Budgeted :=
      sendClose_budgeted (s := { s with closed := true }) (budgeted.of_same rfl rfl rfl) sent
    split <;> exact before.of_same rfl rfl rfl

theorem next_budgeted {ev : Event} (budgeted : e.sock.Budgeted) (step : next e ev = some e') :
    e'.sock.Budgeted := by
  cases ev with
  | connect ctxDone dst dial =>
    obtain ⟨⟨t, err⟩, connected, rfl⟩ := Option.map_eq_some_iff.mp step
    unfold RelaySocket.connect at connected
    split_ifs at connected
    have aimed : (e.sock.aimAt ctxDone dst).Budgeted := budgeted.of_same rfl rfl rfl
    exact (RelaySocket.openConn_budgeted aimed (Option.some.inj connected)).1
  | write p dial failsAfter =>
    obtain ⟨r, written, rfl⟩ := Option.map_eq_some_iff.mp step
    obtain ⟨t, n, err, eq, after, -⟩ := RelaySocket.write_budgeted budgeted p dial failsAfter
    obtain rfl := Option.some.inj (eq.symm.trans written)
    exact after
  | read st => exact readStep_budgeted budgeted step
  | dispatchIncoming unread =>
    cases step
    simp only [RelaySocket.dispatchIncoming]
    split_ifs <;> exact budgeted.of_same rfl rfl rfl
  | signalClose =>
    cases step
    exact budgeted.of_same rfl rfl rfl
  | cancel =>
    cases step
    exact budgeted.of_same rfl rfl rfl
  | close dial =>
    obtain ⟨t, closed, rfl⟩ := Option.map_eq_some_iff.mp step
    exact close_budgeted budgeted closed

theorem limitOf_lt (client : Option (Option UInt64)) : limitOf client < 2 ^ 63 := by
  match client with
  | some (some data) => exact int64_lt _
  | some none => decide
  | none => decide

theorem newRelaySocketWithID_budgeted {id : Bytes} {client : Option (Option UInt64)}
    (limit : limitOf client ≤ 0 ∨ (id.length + 1 : Nat) < limitOf client) :
    (newRelaySocketWithID id client).Budgeted :=
  ⟨limit, limitOf_lt client, fun limited => ⟨Int.le_refl 0, Int.le_of_lt limited⟩⟩

def smooth : RelaySocket.Dial := ⟨true, none, []⟩

theorem prepareWrite_smooth (client : s.client = true) (cur : s.cur = none) :
    ∃ t c, s.prepareWrite smooth = (t, none) ∧ t.limitBytes = s.limitBytes ∧
      t.writeOnCur = (s.id.length + 1 : Nat) ∧ t.cur = some c ∧ t.connClosed c = false := by
  have rotate : s.MustRotate := Or.inl cur
  have retired : s.retireCur = s := by
    rw [RelaySocket.retireCur, cur]
  rw [RelaySocket.prepareWrite, if_pos rotate, RelaySocket.rotateWrite, if_pos client, retired]
  refine ⟨_, _, rfl, rfl, rfl, rfl, ?_⟩
  simp [RelaySocket.connClosed]

theorem write_within_id (opened : s.closed = false) (client : s.client = true) (cur : s.cur = none)
    (limited : 0 < s.limitBytes) (within : s.limitBytes ≤ (s.id.length + 1 : Nat))
    (int : s.id.length + 1 < 2 ^ 63) :
    s.write [0] smooth none = none ∨ ∃ t, s.write [0] smooth none = some (t, 0, none) := by
  obtain ⟨t, c, ready, sameLimit, count, current, working⟩ := prepareWrite_smooth client cur
  have rem : int64 (s.limitBytes - (s.id.length + 1 : Nat)) =
      s.limitBytes - (s.id.length + 1 : Nat) := int64_of_fits (by omega) (by omega)
  have few : s.limitBytes - (s.id.length + 1 : Nat) < (1 : Nat) := by omega
  have avail : t.avail 1 = s.limitBytes - (s.id.length + 1 : Nat) := by
    rw [RelaySocket.avail, sameLimit, count, rem, if_pos ⟨limited, few⟩]
  simp only [RelaySocket.write, opened, ready, RelaySocket.writeOnConn, current,
    List.length_singleton, avail]
  by_cases full : s.limitBytes = (s.id.length + 1 : Nat)
  · right
    simp [full, working]
  · grind

/-- `Write` is safe in every reachable state exactly when the limit counts as none or
exceeds the length of the message with the id. -/
theorem write_safe_iff (id : Bytes) (int : id.length + 1 < 2 ^ 63)
    (client : Option (Option UInt64)) :
    (∀ es e, exec next (newEndpoint id client) es = some e → e.sock.WriteSafe) ↔
      limitOf client ≤ 0 ∨ (id.length + 1 : Nat) < limitOf client := by
  constructor
  · intro safe
    by_contra bad
    obtain ⟨limited, within⟩ := not_or.mp bad
    have hasClient : (newRelaySocketWithID id client).client = true := by
      cases client with
      | none => exact absurd (Int.le_refl 0) limited
      | some limit => rfl
    obtain ⟨t, n, err, eq, ok⟩ := (safe [] _ rfl).returns [0] (by simp) smooth none
    rcases write_within_id (s := newRelaySocketWithID id client) rfl hasClient rfl
      (Int.not_le.mp limited) (Int.not_lt.mp within) int with panics | ⟨u, nothing⟩
    · cases panics.symm.trans eq
    · cases nothing.symm.trans eq
      exact absurd (ok rfl).1 (by decide)
  · intro limit es e run
    exact RelaySocket.writeSafe_of_budgeted
      (exec_invariant (P := fun e => e.sock.Budgeted) (fun _ _ _ h step => next_budgeted h step)
        (newRelaySocketWithID_budgeted limit) run)

/-- A connected socket with a limit that relays commonly announce. -/
theorem write_safe_usual_limit :
    ∃ e, exec next (newEndpoint RelaySocket.sockID (some (some 131072)))
        [.connect false [1] smooth] = some e ∧ e.sock.WriteSafe :=
  ⟨_, rfl, (write_safe_iff RelaySocket.sockID (by decide) (some (some 131072))).mpr
    (Or.inr (by decide +kernel)) [.connect false [1] smooth] _ rfl⟩

/-- After a successful `Connect`, a limit below the length of the id message makes the
first `Write` panic, and a limit equal to it lets `Write` accept nothing. -/
theorem small_limit_breaks_write :
    (∃ e, exec next (newEndpoint RelaySocket.sockID (some (some 20))) [.connect false [1] smooth] = some e ∧
      e.sock.write [7] smooth none = none) ∧
    ∃ e, exec next (newEndpoint RelaySocket.sockID (some (some 32))) [.connect false [1] smooth] = some e ∧
      (e.sock.write [7] smooth none).map Prod.snd = some (0, none) :=
  ⟨⟨_, rfl, by decide +kernel⟩, _, rfl, by decide +kernel⟩

end Relayhub
