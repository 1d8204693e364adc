import Toxera.Lib.Radix
import Toxera.Relayhub.Dispatch

/-!
# The ids of sockets

`generateConnID` of `relayhub/socket.go` makes an id of the time of day.
-/

namespace Relayhub

open Radix

structure Reading where
  year : Nat
  month : Nat
  day : Nat
  hour : Nat
  minute : Nat
  second : Nat
  nanosecond : Nat
  month_le : month ≤ 12
  day_le : day ≤ 31
  hour_lt : hour < 24
  minute_lt : minute < 60
  second_lt : second < 60
  nanosecond_lt : nanosecond < 1000000000

variable {n : Nat} {r r' : Reading}

namespace Reading

def number (r : Reading) : Nat :=
  (((((r.year * 100 + r.month) * 100 + r.day) * 100 + r.hour) * 100 + r.minute) * 100 + r.second) *
    1000000000 + r.nanosecond

def dot : UInt8 := 46

def format (r : Reading) : Bytes :=
  decimals 4 r.year ++ (decimals 2 r.month ++ (decimals 2 r.day ++ dot ::
    (decimals 2 r.hour ++ (decimals 2 r.minute ++ (decimals 2 r.second ++ dot ::
      decimals 9 r.nanosecond)))))

theorem eq_of_number_eq (same : r.number = r'.number) : r = r' := by
  have := r.month_le
  have := r'.month_le
  have := r.day_le
  have := r'.day_le
  have := r.hour_lt
  have := r'.hour_lt
  have := r.minute_lt
  have := r'.minute_lt
  have := r.second_lt
  have := r'.second_lt
  have := r.nanosecond_lt
  have := r'.nanosecond_lt
  rcases r
  rcases r'
  simp only [number] at same
  simp only [mk.injEq]
  omega

theorem format_inj (same : r.format = r'.format) : r = r' := by
  have two : ∀ {m n : Nat}, m < 100 → n < 100 → (decimals 2 m).length = (decimals 2 n).length :=
    fun hm hn => (decimals_length hm).trans (decimals_length hn).symm
  have nine : (decimals 9 r.nanosecond).length = (decimals 9 r'.nanosecond).length :=
    (decimals_length r.nanosecond_lt).trans (decimals_length r'.nanosecond_lt).symm
  have month := two (r.month_le.trans_lt (by decide)) (r'.month_le.trans_lt (by decide))
  have day := two (r.day_le.trans_lt (by decide)) (r'.day_le.trans_lt (by decide))
  have hour := two (r.hour_lt.trans (by decide)) (r'.hour_lt.trans (by decide))
  have minute := two (r.minute_lt.trans (by decide)) (r'.minute_lt.trans (by decide))
  have second := two (r.second_lt.trans (by decide)) (r'.second_lt.trans (by decide))
  obtain ⟨sameYear, rest⟩ := List.append_inj' same (by
    simp only [List.length_append, List.length_cons, month, day, hour, minute, second, nine])
  obtain ⟨sameMonth, rest⟩ := List.append_inj rest month
  obtain ⟨sameDay, rest⟩ := List.append_inj rest day
  obtain ⟨sameHour, rest⟩ := List.append_inj (List.cons.inj rest).2 hour
  obtain ⟨sameMinute, rest⟩ := List.append_inj rest minute
  obtain ⟨sameSecond, rest⟩ := List.append_inj rest second
  apply eq_of_number_eq
  rw [number, number, decimals_inj sameYear, decimals_inj sameMonth, decimals_inj sameDay,
    decimals_inj sameHour, decimals_inj sameMinute, decimals_inj sameSecond,
    decimals_inj (List.cons.inj rest).2]

theorem format_not_blank (r : Reading) : ∀ c ∈ r.format, isBlank c = false := by
  have low : ∀ c ∈ r.format, 46 ≤ c.toNat := by
    intro c hc
    simp only [format, List.mem_append, List.mem_cons] at hc
    rcases hc with h | h | h | rfl | h | h | h | rfl | h
    all_goals first | exact (decimals_ge h).trans' (by decide) | decide
  intro c hc
  have high := low c hc
  have other : ∀ b : UInt8, b.toNat < 46 → c ≠ b := by
    rintro b small rfl
    omega
  simp [isBlank, other 10 (by decide), other 13 (by decide), other 9 (by decide),
    other 32 (by decide)]

theorem format_ne_nil (r : Reading) : r.format ≠ [] := by
  simp [format]

end Reading

structure IdState where
  lastID : Bytes
  taken : Nat
  issued : List Bytes

variable {s t : IdState}

def retryPrefix : Bytes := [115, 111, 99, 107, 46] -- sock.

section
variable (clock : Nat → Reading)

def retryLoop (lastID : Bytes) : Nat → Nat → Bytes → Option (Bytes × Nat)
  | 0, _, _ => none
  | fuel + 1, taken, cid =>
    if cid = lastID then
      retryLoop lastID fuel (taken + 1) (retryPrefix ++ (clock taken).format)
    else some (cid, taken)

def generateConnID (s : IdState) : Option IdState :=
  (retryLoop clock s.lastID 2 (s.taken + 1)
    (RelaySocket.sockPrefix ++ (clock s.taken).format)).map
      fun (cid, taken) => ⟨cid, taken, s.issued ++ [cid]⟩

def calls : Nat → Option IdState
  | 0 => some ⟨[], 0, []⟩
  | n + 1 => (calls n).bind (generateConnID clock)

end

variable {clock : Nat → Reading}

theorem retryPrefix_ne {a b : Bytes} : retryPrefix ++ a ≠ RelaySocket.sockPrefix ++ b := by
  intro same
  cases same

theorem generateConnID_eq (s : IdState) :
    generateConnID clock s = some
      (let cid := RelaySocket.sockPrefix ++ (clock s.taken).format
      let again := retryPrefix ++ (clock (s.taken + 1)).format
      if cid = s.lastID then ⟨again, s.taken + 2, s.issued ++ [again]⟩
      else ⟨cid, s.taken + 1, s.issued ++ [cid]⟩) := by
  simp only [generateConnID, retryLoop]
  split_ifs with first second
  · exact absurd (second.trans first.symm) retryPrefix_ne
  · rfl
  · rfl

def Closable (id : Bytes) : Prop :=
  ∀ s : RelaySocket, s.id = id → ∃ message, s.closeID = some message ∧ route message = .close id

theorem route_close {text : Bytes} (clean : ∀ c ∈ text, isBlank c = false) (some_ : text ≠ []) :
    route (RelaySocket.closePrefix ++ text) = .close (RelaySocket.sockPrefix ++ text) := by
  have kept : trimRight (RelaySocket.closePrefix ++ text) = RelaySocket.closePrefix ++ text := by
    rw [trimRight, List.rdropWhile_eq_self_iff]
    intro h
    rw [List.getLast_append_of_ne_nil _ some_, clean _ (List.getLast_mem some_)]
    decide
  have marked : RelaySocket.closePrefix.isPrefixOf (RelaySocket.closePrefix ++ text) := by grind
  have rest : (RelaySocket.closePrefix ++ text).drop 6 = text := List.drop_left' rfl
  rw [route, kept, if_pos marked, rest]

theorem closable_sock (r : Reading) : Closable (RelaySocket.sockPrefix ++ r.format) := by
  intro s sid
  refine ⟨RelaySocket.closePrefix ++ r.format, ?_, route_close r.format_not_blank r.format_ne_nil⟩
  have rest : (RelaySocket.sockPrefix ++ r.format).drop 6 = r.format := List.drop_left' rfl
  rw [RelaySocket.closeID, sid, if_neg (by simp [RelaySocket.sockPrefix]), rest]

theorem not_closable_retry (text : Bytes) : ¬ Closable (retryPrefix ++ text) := by
  intro closable
  obtain ⟨message, -, back⟩ := closable (newRelaySocketWithID (retryPrefix ++ text) none) rfl
  rw [route] at back
  split_ifs at back
  exact retryPrefix_ne (Route.close.inj back).symm

structure Plain (clock : Nat → Reading) (n : Nat) (s : IdState) : Prop where
  taken : s.taken = n
  issued : s.issued = (List.range n).map fun i => RelaySocket.sockPrefix ++ (clock i).format
  last : s.lastID = s.issued.getLast?.getD []
  differ : ∀ i, i + 1 < n → clock i ≠ clock (i + 1)

structure Repeated (clock : Nat → Reading) (n : Nat) (s : IdState) : Prop where
  issued : ∃ id ∈ s.issued, ¬ Closable id
  same : ∃ i, i + 1 < n ∧ clock i = clock (i + 1)

theorem Plain.start : Plain clock 0 ⟨[], 0, []⟩ where
  taken := rfl
  issued := rfl
  last := rfl
  differ := by
    intro i small
    omega

theorem Plain.last_iff (plain : Plain clock n s) :
    RelaySocket.sockPrefix ++ (clock n).format = s.lastID ↔ ∃ m, n = m + 1 ∧ clock m = clock n := by
  rw [plain.last, plain.issued]
  cases n with
  | zero => simp [RelaySocket.sockPrefix]
  | succ m =>
    rw [List.range_succ, List.map_append, List.map_singleton, List.getLast?_concat,
      Option.getD_some, List.append_cancel_left_eq]
    constructor
    · intro same
      exact ⟨m, rfl, (Reading.format_inj same).symm⟩
    · grind

theorem Plain.call (plain : Plain clock n s) (h : generateConnID clock s = some t) :
    Plain clock (n + 1) t ∨ Repeated clock (n + 1) t := by
  rw [generateConnID_eq, plain.taken] at h
  cases h
  simp only
  split_ifs with again
  · obtain ⟨m, rfl, same⟩ := plain.last_iff.mp again
    exact .inr ⟨⟨_, List.mem_append_right _ (List.mem_singleton_self _), not_closable_retry _⟩,
      m, by omega, same⟩
  · refine .inl ⟨rfl, ?_, ?_, ?_⟩
    · rw [List.range_succ, List.map_append, plain.issued, List.map_singleton]
    · rw [List.getLast?_concat, Option.getD_some]
    · intro i small same
      rcases Nat.lt_or_ge (i + 1) n with before | here
      · exact plain.differ i before same
      · have now : i + 1 = n := by omega
        exact again (plain.last_iff.mpr ⟨i, now.symm, now ▸ same⟩)

theorem Repeated.call (repeated : Repeated clock n s) (h : generateConnID clock s = some t) :
    Repeated clock (n + 1) t := by
  obtain ⟨⟨id, issued, open_⟩, i, small, same⟩ := repeated
  refine ⟨⟨id, ?_, open_⟩, i, by omega, same⟩
  rw [generateConnID_eq] at h
  cases h
  simp only
  split_ifs
  all_goals exact List.mem_append_left _ issued

theorem generateConnID_issued (h : generateConnID clock s = some t) :
    t.issued.length = s.issued.length + 1 := by
  rw [generateConnID_eq] at h
  cases h
  simp only
  split_ifs
  all_goals exact List.length_append

theorem calls_cases (clock : Nat → Reading) (n : Nat) :
    ∃ s, calls clock n = some s ∧ s.issued.length = n ∧
      (Plain clock n s ∨ Repeated clock n s) := by
  induction n with
  | zero => exact ⟨_, rfl, rfl, .inl .start⟩
  | succ n ih =>
    obtain ⟨s, run, count, kind⟩ := ih
    obtain ⟨t, next⟩ : ∃ t, generateConnID clock s = some t := ⟨_, generateConnID_eq s⟩
    refine ⟨t, by rw [calls, run, Option.bind_some, next], ?_, ?_⟩
    · rw [generateConnID_issued next, count]
    · exact kind.elim (fun plain => plain.call next) fun repeated => .inr (repeated.call next)

theorem Plain.number_lt (plain : Plain clock n s) (mono : Monotone fun i => (clock i).number)
    {i j : Nat} (before : i < j) (small : j < n) : (clock i).number < (clock j).number := by
  have next : (clock i).number ≠ (clock (i + 1)).number := fun same =>
    plain.differ i (by omega) (Reading.eq_of_number_eq same)
  calc (clock i).number < (clock (i + 1)).number := lt_of_le_of_ne (mono (Nat.le_succ i)) next
    _ ≤ (clock j).number := mono before

theorem Plain.nodup (plain : Plain clock n s) (mono : Monotone fun i => (clock i).number) :
    s.issued.Nodup := by
  rw [plain.issued]
  refine List.Nodup.map_on ?_ List.nodup_range
  intro i hi j hj same
  have same := Reading.format_inj (List.append_cancel_left same)
  rcases Nat.lt_trichotomy i j with before | equal | after
  · exact absurd (plain.number_lt mono before (List.mem_range.mp hj)) (by rw [same]; omega)
  · exact equal
  · exact absurd (plain.number_lt mono after (List.mem_range.mp hi)) (by rw [same]; omega)

theorem Plain.closable (plain : Plain clock n s) : ∀ id ∈ s.issued, Closable id := by
  rw [plain.issued]
  intro id hid
  obtain ⟨i, -, rfl⟩ := List.mem_map.mp hid
  exact closable_sock (clock i)

/-- Ids differ and lead back to their sockets exactly when no two readings in a row are equal. -/
theorem ids_unique_iff (clock : Nat → Reading) (mono : Monotone fun i => (clock i).number)
    (n : Nat) :
    (∃ s, calls clock n = some s ∧ s.issued.length = n ∧ s.issued.Nodup ∧
        ∀ id ∈ s.issued, Closable id) ↔
      ∀ i, i + 1 < n → clock i ≠ clock (i + 1) := by
  obtain ⟨s, run, count, kind⟩ := calls_cases clock n
  constructor
  · rintro ⟨t, run', -, -, closable⟩
    cases run.symm.trans run'
    rcases kind with plain | ⟨⟨id, issued, open_⟩, -⟩
    · exact plain.differ
    · exact absurd (closable id issued) open_
  · intro differ
    rcases kind with plain | ⟨-, i, small, same⟩
    · exact ⟨s, run, count, plain.nodup mono, plain.closable⟩
    · exact absurd same (differ i small)

def newYear (years : Nat) : Reading where
  year := 2026 + years
  month := 1
  day := 1
  hour := 0
  minute := 0
  second := 0
  nanosecond := 0
  month_le := Nat.le_of_ble_eq_true rfl
  day_le := Nat.le_of_ble_eq_true rfl
  hour_lt := Nat.le_of_ble_eq_true rfl
  minute_lt := Nat.le_of_ble_eq_true rfl
  second_lt := Nat.le_of_ble_eq_true rfl
  nanosecond_lt := Nat.le_of_ble_eq_true rfl

theorem newYear_number (years : Nat) :
    (newYear years).number = (2026 + years) * 10000000000000000000 + 101000000000000000 := by
  simp only [Reading.number, newYear]
  omega

theorem ids_unique_newYears :
    ∃ s, calls newYear 3 = some s ∧ s.issued.length = 3 ∧ s.issued.Nodup ∧
      ∀ id ∈ s.issued, Closable id := by
  refine (ids_unique_iff newYear ?_ 3).mpr ?_
  · intro i j before
    simp only [newYear_number]
    omega
  · intro i _ same
    have years := congrArg Reading.number same
    simp only [newYear_number] at years
    omega

/-- The clock stands still for four readings: the first and the third id are equal, and the
second cannot be closed. -/
theorem ids_repeat :
    let clock := fun i => newYear (i - 3)
    (Monotone fun i => (clock i).number) ∧
      (∀ i, 3 ≤ i → (clock i).number < (clock (i + 1)).number) ∧
      ∃ s, calls clock 3 = some s ∧ ¬ s.issued.Nodup ∧ ∃ id ∈ s.issued, ¬ Closable id := by
  refine ⟨?_, ?_, ?_⟩
  · intro i j before
    simp only [newYear_number]
    omega
  · intro i late
    simp only [newYear_number]
    omega
  · have run : calls (fun i => newYear (i - 3)) 3 =
        some ⟨RelaySocket.sockPrefix ++ (newYear 0).format, 4,
          [RelaySocket.sockPrefix ++ (newYear 0).format, retryPrefix ++ (newYear 0).format,
            RelaySocket.sockPrefix ++ (newYear 0).format]⟩ := by
      simp [calls, generateConnID_eq, RelaySocket.sockPrefix, retryPrefix]
    refine ⟨_, run, ?_, _, List.mem_cons_of_mem _ (List.mem_cons_self ..), not_closable_retry _⟩
    simp

end Relayhub
