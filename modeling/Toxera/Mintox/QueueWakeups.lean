import Mathlib.Algebra.Order.BigOperators.Group.Finset
import Toxera.Mintox.BlockedPriorityQueue

/-!
# Wakeups of producers

A producer that finds the queue full waits for a signal, and every `Get` sends one.
-/

namespace BlockedPriorityQueue

open BinaryHeap Exec

universe u v
variable {ι : Type u} {α : Type v} [Fintype ι] [DecidableEq ι] {prior : α → Nat}

namespace Queue

def waiters (s : Queue ι α) : Nat := ∑ i, if (s.producers i).isWaiting then 1 else 0

def pending (s : Queue ι α) : Nat :=
  match s.consumer with
  | .signalling _ => 1
  | _ => 0

def SomeoneWaits (s : Queue ι α) : Prop := ∃ i, (s.producers i).isWaiting = true

def SomeoneFull (s : Queue ι α) : Prop := ∃ i item, s.producers i = .full item

/-- A wakeup is lost: a producer waits although there is room, and the consumer waits for
an item. -/
def Stuck (s : Queue ι α) : Prop :=
  s.SomeoneWaits ∧ s.items.length < s.hint ∧ s.consumer = .blocked ∧ s.items = []

/-- There is a signal to come for a producer that starts to wait, and for all that wait. -/
def Covered (s : Queue ι α) (e : Event ι α) : Prop :=
  ∀ i, e = .wait i → s.disposed = false → s.waiters + 1 ≤ s.items.length + s.pending

variable {s t : Queue ι α}

omit [DecidableEq ι] in
theorem waiters_pos_iff : 0 < s.waiters ↔ s.SomeoneWaits := by
  rw [waiters, Finset.sum_pos_iff]
  constructor
  · rintro ⟨i, -, counted⟩
    split_ifs at counted with waits
    · exact ⟨i, waits⟩
    · exact absurd counted (Nat.lt_irrefl 0)
  · rintro ⟨i, waits⟩
    exact ⟨i, Finset.mem_univ i, by rw [if_pos waits]; exact Nat.one_pos⟩

theorem waiters_moveTo (s : Queue ι α) (i : ι) (p : Producer α) :
    (s.moveTo i p).waiters + (if (s.producers i).isWaiting then 1 else 0) =
      s.waiters + if p.isWaiting then 1 else 0 := by
  have others : ∀ j ∈ Finset.univ.erase i,
      (if ((s.moveTo i p).producers j).isWaiting then 1 else 0) =
        if (s.producers j).isWaiting then 1 else 0 := by
    intro j hj
    rw [moveTo_other (Finset.ne_of_mem_erase hj)]
  rw [waiters, waiters, ← Finset.add_sum_erase _ _ (Finset.mem_univ i),
    ← Finset.add_sum_erase Finset.univ (fun j => if (s.producers j).isWaiting then 1 else 0)
      (Finset.mem_univ i), Finset.sum_congr rfl others, moveTo_same]
  omega

theorem waiters_moveTo_same {i : ι} {p : Producer α}
    (same : (s.producers i).isWaiting = p.isWaiting) : (s.moveTo i p).waiters = s.waiters := by
  have count := waiters_moveTo s i p
  rw [same] at count
  exact Nat.add_right_cancel count

theorem waiters_wait {i : ι} {item : α} (full : s.producers i = .full item) :
    (s.moveTo i (.waiting item)).waiters = s.waiters + 1 := by
  have count := waiters_moveTo s i (.waiting item)
  rw [full] at count
  simpa [Producer.isWaiting] using count

theorem waiters_wake {i : ι} {item : α} (waiting : s.producers i = .waiting item) :
    (s.moveTo i (.retesting item)).waiters + 1 = s.waiters := by
  have count := waiters_moveTo s i (.retesting item)
  rw [waiting] at count
  simpa [Producer.isWaiting] using count

theorem Notifies.waiters {receiver : Option ι} (h : s.Notifies receiver t) :
    t.waiters = s.waiters - 1 := by
  cases h with
  | wakes waiting => rw [← waiters_wake waiting, Nat.add_sub_cancel]
  | lost nobody =>
    have none : ¬ 0 < s.waiters := by
      rw [waiters_pos_iff]
      rintro ⟨i, waits⟩
      rw [nobody i] at waits
      cases waits
    omega

omit [Fintype ι] in
theorem Notifies.same {receiver : Option ι} (h : s.Notifies receiver t) :
    t.items = s.items ∧ t.disposed = s.disposed ∧ t.disposing = s.disposing ∧
      t.consumer = s.consumer ∧ t.hint = s.hint ∧ t.written = s.written := by
  cases h <;> exact ⟨rfl, rfl, rfl, rfl, rfl, rfl⟩

omit [Fintype ι] in
theorem someoneFull_moveTo {i : ι} {p : Producer α} (none : ¬ s.SomeoneFull)
    (other : ∀ item, p ≠ .full item) : ¬ (s.moveTo i p).SomeoneFull := by
  rintro ⟨j, item, full⟩
  by_cases same : j = i
  · subst same
    rw [moveTo_same] at full
    exact other item full
  · rw [moveTo_other same] at full
    exact none ⟨j, item, full⟩

omit [Fintype ι] in
theorem Notifies.someoneFull {receiver : Option ι} (h : s.Notifies receiver t)
    (none : ¬ s.SomeoneFull) : ¬ t.SomeoneFull := by
  cases h with
  | wakes => exact someoneFull_moveTo none nofun
  | lost => exact none

theorem exists_notify (s : Queue ι α) :
    ∃ receiver t, s.notify receiver = some t ∧ s.Notifies receiver t := by
  by_cases nobody : ∀ i, (s.producers i).isWaiting = false
  · exact ⟨none, s, if_pos nobody, .lost nobody⟩
  · push Not at nobody
    obtain ⟨i, waits⟩ := nobody
    cases at_ : s.producers i with
    | waiting item =>
      exact ⟨some i, s.moveTo i (.retesting item), by simp only [notify, at_], .wakes at_⟩
    | _ =>
      rw [at_] at waits
      exact absurd rfl waits

/-- A consumer that waits for an item has found none, and one that has stopped was told to. -/
structure Orderly (s : Queue ι α) : Prop where
  blocked : s.consumer = .blocked → s.items = [] ∧ s.disposed = false
  stopped : s.consumer = .stopped → s.disposed = true
  empty : s.disposed = true → s.items = []

omit [Fintype ι] [DecidableEq ι] in
theorem Orderly.puts {item : α} (orderly : s.Orderly) (h : s.Puts prior item t) : t.Orderly := by
  cases h with
  | refused => exact orderly
  | handed opened => exact ⟨by simp, by simp, by simp [opened]⟩
  | queued opened idle =>
    exact ⟨fun blocked => absurd blocked idle, fun stopped => orderly.stopped stopped,
      fun disposed => absurd (opened.symm.trans disposed) (by decide)⟩

omit [Fintype ι] [DecidableEq ι] in
theorem disposeItems_consumer (s : Queue ι α) : s.disposeItems.consumer ≠ .blocked := by
  simp only [disposeItems]
  split
  · simp
  · assumption

omit [Fintype ι] [DecidableEq ι] in
theorem pending_of_consumer (same : t.consumer = s.consumer) : t.pending = s.pending := by
  simp only [pending, same]

omit [Fintype ι] [DecidableEq ι] in
theorem disposeItems_pending (s : Queue ι α) :
    ({ s.disposeItems with disposing := true } : Queue ι α).pending = s.pending := by
  simp only [pending, disposeItems]
  cases s.consumer <;> rfl

omit [Fintype ι] in
theorem Orderly.steps {e : Event ι α} (orderly : s.Orderly) (h : s.Steps prior e t) :
    t.Orderly := by
  cases h with
  | put _ puts => exact Orderly.puts (s := s.moveTo _ _) ⟨orderly.1, orderly.2, orderly.3⟩ puts
  | putNow puts => exact orderly.puts puts
  | stops _ disposed => exact ⟨by simp, fun _ => disposed, orderly.empty⟩
  | blocks _ opened empty => exact ⟨fun _ => ⟨empty, opened⟩, by simp, fun _ => empty⟩
  | takes _ opened => exact ⟨by simp, by simp, by simp [opened]⟩
  | signal _ notifies =>
    obtain ⟨items, disposed, -⟩ := notifies.same
    refine ⟨by simp, by simp, ?_⟩
    simp only [items, disposed]
    exact orderly.empty
  | write => exact ⟨by simp, by simp, orderly.empty⟩
  | dispose =>
    exact ⟨fun blocked => absurd blocked (disposeItems_consumer s), fun _ => rfl, fun _ => rfl⟩
  | disposeSignal _ notifies =>
    obtain ⟨items, disposed, -, consumer, -⟩ := notifies.same
    refine ⟨?_, ?_, ?_⟩
    · simp only [items, disposed, consumer]
      exact orderly.blocked
    · simp only [disposed, consumer]
      exact orderly.stopped
    · simp only [items, disposed]
      exact orderly.empty
  | _ => exact ⟨orderly.1, orderly.2, orderly.3⟩

omit [Fintype ι] [DecidableEq ι] in
theorem new_orderly (hint : Nat) : (newBlockedPriorityQueue hint : Queue ι α).Orderly :=
  ⟨nofun, nofun, nofun⟩

theorem orderly_of_run {hint : Nat} {es : List (Event ι α)}
    (run : exec (next prior) (newBlockedPriorityQueue hint) es = some s) : s.Orderly :=
  exec_invariant (fun _ _ _ orderly step => orderly.steps (steps_of_next step)) (new_orderly hint)
    run

omit [Fintype ι] in
theorem Steps.hint {e : Event ι α} (h : s.Steps prior e t) : t.hint = s.hint := by
  cases h with
  | put _ puts => cases puts <;> rfl
  | putNow puts => cases puts <;> rfl
  | signal _ notifies => exact notifies.same.2.2.2.2.1
  | disposeSignal _ notifies => exact notifies.same.2.2.2.2.1
  | _ => rfl

theorem hint_of_run {hint : Nat} {es : List (Event ι α)}
    (run : exec (next prior) (newBlockedPriorityQueue hint) es = some s) : s.hint = hint :=
  exec_invariant (P := fun s => s.hint = hint)
    (fun _ _ _ same step => (steps_of_next step).hint.trans same) rfl run

def Enough (s : Queue ι α) : Prop :=
  s.disposed = false → s.waiters ≤ s.items.length + s.pending

omit [DecidableEq ι] in
theorem Enough.puts {item : α} (orderly : s.Orderly) (enough : s.Enough)
    (h : s.Puts prior item t) : t.Enough := by
  cases h with
  | refused => exact enough
  | @handed x rest opened blocked popped =>
    intro _
    have before := enough opened
    simp only [pending, blocked, (orderly.blocked blocked).1, List.length_nil] at before
    exact before.trans (Nat.zero_le _)
  | queued opened =>
    intro _
    have before := enough opened
    have same : ({ s with items := push prior s.items item } : Queue ι α).pending = s.pending := rfl
    rw [same, push_length]
    exact before.trans (by omega)

theorem Enough.steps {e : Event ι α} (orderly : s.Orderly) (enough : s.Enough)
    (covered : s.Covered e) (h : s.Steps prior e t) : t.Enough := by
  -- a producer that neither starts nor stops to wait
  have moves : ∀ (i : ι) (p : Producer α), (s.producers i).isWaiting = p.isWaiting →
      (s.moveTo i p).Enough := by
    intro i p same opened
    rw [waiters_moveTo_same same]
    exact enough opened
  cases h with
  | blockPut idle => exact moves _ _ (by rw [idle]; rfl)
  | foundFull testing => exact moves _ _ (by rw [testing]; rfl)
  | foundRoom testing => exact moves _ _ (by rw [testing]; rfl)
  | stillRoom retesting => exact moves _ _ (by rw [retesting]; rfl)
  | again retesting => exact moves _ _ (by rw [retesting]; rfl)
  | wait full =>
    intro opened
    rw [waiters_wait full]
    exact covered _ rfl opened
  | put putting puts =>
    exact Enough.puts (s := s.moveTo _ _) ⟨orderly.1, orderly.2, orderly.3⟩
      (moves _ _ (by rw [putting]; rfl)) puts
  | putNow puts => exact enough.puts orderly puts
  | stops _ disposed => exact fun opened => absurd (disposed.symm.trans opened) (by decide)
  | blocks getting opened empty =>
    intro _
    have before := enough opened
    simp only [pending, getting] at before
    exact before
  | takes getting opened popped =>
    intro _
    have before := enough opened
    simp only [pending, getting, pop_length popped] at before
    exact before
  | signal signalling notifies =>
    intro opened
    obtain ⟨items, disposed, -⟩ := notifies.same
    have before := enough (disposed.symm.trans opened)
    have count := notifies.waiters
    simp only [pending, signalling] at before
    simp only [pending, items]
    exact (le_of_eq count).trans (by omega)
  | write writing =>
    intro opened
    have before := enough opened
    simp only [pending, writing] at before
    exact before
  | dispose => exact nofun
  | @disposeSignal receiver m _ notifies =>
    intro opened
    obtain ⟨items, disposed, -, consumer, -⟩ := notifies.same
    have before := enough (disposed.symm.trans opened)
    have count := notifies.waiters
    have signal : ({ m with disposing := false } : Queue ι α).pending = s.pending :=
      pending_of_consumer consumer
    rw [signal]
    simp only [items]
    exact (le_of_eq count).trans (by omega)

omit [DecidableEq ι] in
theorem Enough.not_stuck (orderly : s.Orderly) (enough : s.Enough) : ¬ s.Stuck := by
  rintro ⟨waits, -, blocked, empty⟩
  have bound := enough (orderly.blocked blocked).2
  simp only [pending, blocked, empty, List.length_nil] at bound
  exact absurd (waiters_pos_iff.mpr waits) (by omega)

omit [DecidableEq ι] in
theorem covered_of_consumers {e : Event ι α} (consumers : e.isConsumers = true) : s.Covered e := by
  rintro i rfl
  cases consumers

structure Settled (s t : Queue ι α) : Prop where
  consumer : t.consumer = .getting
  items : t.items = s.items
  disposed : t.disposed = s.disposed
  disposing : t.disposing = s.disposing
  hint : t.hint = s.hint
  waiters : t.waiters = s.waiters - s.pending
  written : t.written = s.written ++ s.consumer.inHand
  full : ∀ i item, s.producers i = .full item → t.producers i = .full item

omit [Fintype ι] in
theorem Notifies.full {receiver : Option ι} (h : s.Notifies receiver t) (i : ι) (item : α)
    (full : s.producers i = .full item) : t.producers i = .full item := by
  cases h with
  | @wakes j other waiting =>
    have ne : i ≠ j := by
      rintro rfl
      cases full.symm.trans waiting
    rw [moveTo_other ne, full]
  | lost => exact full

theorem exists_settled (prior : α → Nat) (busy : s.consumer ≠ .blocked)
    (goes : s.consumer ≠ .stopped) :
    ∃ ds t, (∀ e ∈ ds, e.isConsumers = true) ∧ exec (next prior) s ds = some t ∧ Settled s t := by
  cases at_ : s.consumer with
  | blocked => exact absurd at_ busy
  | stopped => exact absurd at_ goes
  | getting =>
    exact ⟨[], s, by simp, rfl, at_, rfl, rfl, rfl, rfl, by simp [pending, at_],
      by simp [Consumer.inHand, at_], fun _ _ full => full⟩
  | writing item =>
    refine ⟨[.write], { s with consumer := .getting, written := s.written ++ [item] }, ?_, ?_,
      rfl, rfl, rfl, rfl, rfl, ?_, ?_, fun _ _ full => full⟩
    · simp [Event.isConsumers]
    · simp [exec, next, at_]
    · simp only [pending, at_, Nat.sub_zero]
      rfl
    · rw [at_]
      rfl
  | signalling item =>
    obtain ⟨receiver, m, sent, notifies⟩ := s.exists_notify
    obtain ⟨items, disposed, disposing, -, hint, written⟩ := notifies.same
    refine ⟨[.signal receiver, .write],
      { m with consumer := .getting, written := m.written ++ [item] }, ?_, ?_,
      rfl, items, disposed, disposing, hint, ?_, ?_, notifies.full⟩
    · simp [Event.isConsumers]
    · simp [exec, next, at_, sent]
    · simp only [pending, at_]
      exact notifies.waiters
    · rw [at_, written]
      rfl

theorem get_takes {x : α} {rest : List α} (getting : s.consumer = .getting)
    (opened : s.disposed = false) (popped : pop prior s.items = some (x, rest)) :
    s.next prior .get = some { s with items := rest, consumer := .signalling x } := by
  simp [next, getting, getItem, opened, popped]

theorem exists_stuck (prior : α → Nat) (room : 0 < s.hint) (opened : s.disposed = false)
    (orderly : s.Orderly) (more : s.items.length + s.pending < s.waiters) :
    ∃ ds t, (∀ e ∈ ds, e.isConsumers = true) ∧ exec (next prior) s ds = some t ∧ t.Stuck := by
  -- one round of the consumer for every item
  induction size : s.items.length generalizing s with
  | zero =>
    have empty := List.length_eq_zero_iff.mp size
    by_cases blocked : s.consumer = .blocked
    · exact ⟨[], s, by simp, rfl, waiters_pos_iff.mp (by omega), by rwa [size], blocked, empty⟩
    · have goes : s.consumer ≠ .stopped := fun stopped =>
        absurd (opened.symm.trans (orderly.stopped stopped)) (by decide)
      obtain ⟨ds, t, consumers, run, settled⟩ := exists_settled prior blocked goes
      have none : t.items = [] := settled.items.trans empty
      refine ⟨ds ++ [.get], { t with consumer := .blocked }, ?_, ?_, ?_, ?_, rfl, none⟩
      · simp only [List.mem_append, List.mem_singleton]
        rintro e (old | rfl)
        · exact consumers e old
        · rfl
      · refine exec_snoc_iff.mpr ⟨t, run, ?_⟩
        simp [next, settled.consumer, getItem, settled.disposed, opened, none, pop]
      · have waits : 0 < t.waiters := by
          rw [settled.waiters]
          omega
        exact waiters_pos_iff.mp waits
      · simp only [none, settled.hint]
        exact room
  | succ n ih =>
    have busy : s.consumer ≠ .blocked := by
      intro blocked
      rw [(orderly.blocked blocked).1] at size
      cases size
    have goes : s.consumer ≠ .stopped := fun stopped =>
      absurd (opened.symm.trans (orderly.stopped stopped)) (by decide)
    obtain ⟨ds, t, consumers, run, settled⟩ := exists_settled prior busy goes
    cases popped : pop prior t.items with
    | none =>
      rw [pop_eq_none, settled.items] at popped
      rw [popped] at size
      cases size
    | some r =>
      obtain ⟨x, rest⟩ := r
      have still : t.disposed = false := settled.disposed.trans opened
      have short := pop_length popped
      rw [settled.items, size] at short
      have waits := settled.waiters
      have orderly' : Orderly { t with items := rest, consumer := .signalling x } :=
        ⟨by simp, by simp, by simp [still]⟩
      obtain ⟨ds', t', consumers', run', stuck⟩ := ih
        (s := { t with items := rest, consumer := .signalling x })
        (show 0 < t.hint from settled.hint.symm ▸ room) still orderly'
        (show rest.length + 1 < t.waiters by omega) (show rest.length = n by omega)
      refine ⟨ds ++ .get :: ds', t', ?_, ?_, stuck⟩
      · simp only [List.mem_append, List.mem_cons]
        rintro e (old | rfl | new)
        · exact consumers e old
        · rfl
        · exact consumers' e new
      · exact exec_append_iff.mpr ⟨t, run, exec_cons_iff.mpr
          ⟨_, get_takes settled.consumer still popped, run'⟩⟩

/-- What is left of the signals after `Dispose` is enough for the producers that wait, and
no producer will start to wait. -/
structure Releasing (s : Queue ι α) : Prop where
  room : 0 < s.hint
  disposed : s.disposed = true
  notFull : ¬ s.SomeoneFull
  waiters : s.waiters ≤ s.disposing.toNat + s.pending

theorem Releasing.steps {e : Event ι α} (orderly : s.Orderly) (h : s.Releasing)
    (step : s.Steps prior e t) : t.Releasing := by
  obtain ⟨room, disposed, notFull, bound⟩ := h
  have empty := orderly.empty disposed
  have moves : ∀ (i : ι) (p : Producer α), (s.producers i).isWaiting = p.isWaiting →
      (∀ item, p ≠ .full item) → (s.moveTo i p).Releasing := by
    intro i p same other
    exact ⟨room, disposed, someoneFull_moveTo notFull other, by
      rw [waiters_moveTo_same same]
      exact bound⟩
  -- the queue takes nothing any more
  have refuses : ∀ {m : Queue ι α} {item : α}, m.Releasing → m.Puts prior item t → t.Releasing := by
    intro m item releasing puts
    cases puts with
    | refused => exact releasing
    | handed opened => exact absurd (releasing.disposed.symm.trans opened) (by decide)
    | queued opened => exact absurd (releasing.disposed.symm.trans opened) (by decide)
  cases step with
  | blockPut idle => exact moves _ _ (by rw [idle]; rfl) nofun
  | foundFull _ long => grind
  | foundRoom testing => exact moves _ _ (by rw [testing]; rfl) nofun
  | wait full => exact absurd ⟨_, _, full⟩ notFull
  | stillRoom retesting => exact moves _ _ (by rw [retesting]; rfl) nofun
  | again retesting => exact moves _ _ (by rw [retesting]; rfl) nofun
  | put putting puts => exact refuses (moves _ .idle (by rw [putting]; rfl) nofun) puts
  | putNow puts => exact refuses ⟨room, disposed, notFull, bound⟩ puts
  | stops getting =>
    simp only [pending, getting] at bound
    exact ⟨room, disposed, notFull, bound⟩
  | blocks _ opened => exact absurd (disposed.symm.trans opened) (by decide)
  | takes _ opened => exact absurd (disposed.symm.trans opened) (by decide)
  | @signal receiver item m signalling notifies =>
    obtain ⟨-, gone, disposing, -, hint, -⟩ := notifies.same
    have count := notifies.waiters
    simp only [pending, signalling] at bound
    refine ⟨hint.symm ▸ room, gone.trans disposed, notifies.someoneFull notFull, ?_⟩
    simp only [pending, disposing]
    exact (le_of_eq count).trans (by omega)
  | write writing =>
    simp only [pending, writing] at bound
    exact ⟨room, disposed, notFull, bound⟩
  | dispose idle =>
    refine ⟨room, rfl, notFull, ?_⟩
    rw [disposeItems_pending]
    rw [idle] at bound
    exact bound.trans (Nat.add_le_add_right (Nat.zero_le _) _)
  | @disposeSignal receiver m disposing notifies =>
    obtain ⟨-, gone, -, consumer, hint, -⟩ := notifies.same
    have count := notifies.waiters
    have signal : ({ m with disposing := false } : Queue ι α).pending = s.pending :=
      pending_of_consumer consumer
    refine ⟨hint.symm ▸ room, gone.trans disposed, notifies.someoneFull notFull, ?_⟩
    rw [disposing, Bool.toNat_true] at bound
    rw [signal]
    exact (le_of_eq count).trans (by simp only [Bool.toNat_false]; omega)

theorem exists_stopped (prior : α → Nat) (disposing : s.disposing = true)
    (disposed : s.disposed = true) (busy : s.consumer ≠ .blocked) :
    ∃ ds t, exec (next prior) s ds = some t ∧ t.disposing = false ∧ t.consumer = .stopped ∧
      t.waiters = s.waiters - 1 - s.pending ∧
      ∀ i item, s.producers i = .full item → t.producers i = .full item := by
  obtain ⟨receiver, m, sent, notifies⟩ := s.exists_notify
  obtain ⟨-, gone, -, consumer, -⟩ := notifies.same
  have returns : s.next prior (.disposeSignal receiver) = some { m with disposing := false } := by
    simp [next, disposing, sent]
  by_cases stopped : s.consumer = .stopped
  · refine ⟨[.disposeSignal receiver], _, exec_cons_iff.mpr ⟨_, returns, rfl⟩, rfl,
      consumer.trans stopped, ?_, notifies.full⟩
    simp only [pending, stopped, Nat.sub_zero]
    exact notifies.waiters
  · have signal : ({ m with disposing := false } : Queue ι α).pending = s.pending :=
      pending_of_consumer consumer
    obtain ⟨ds, t, -, run, settled⟩ := exists_settled prior
      (s := { m with disposing := false }) (consumer.symm ▸ busy) (consumer.symm ▸ stopped)
    have late : t.disposed = true := settled.disposed.trans (gone.trans disposed)
    refine ⟨.disposeSignal receiver :: ds ++ [.get], { t with consumer := .stopped },
      exec_snoc_iff.mpr ⟨t, exec_cons_iff.mpr ⟨_, returns, run⟩, ?_⟩, settled.disposing, rfl,
      ?_, ?_⟩
    · simp [next, settled.consumer, getItem, late]
    · have count := settled.waiters
      rw [signal] at count
      refine count.trans ?_
      rw [← notifies.waiters]
      rfl
    · intro i item full
      exact settled.full i item (notifies.full i item full)

section
variable {hint : Nat} {es : List (Event ι α)}

theorem not_stuck_of_covered {ds : List (Event ι α)}
    (covered : Along (next prior) Covered (newBlockedPriorityQueue hint) es)
    (consumers : ∀ e ∈ ds, e.isConsumers = true)
    (run : exec (next prior) (newBlockedPriorityQueue hint) (es ++ ds) = some t) : ¬ t.Stuck := by
  have along : Along (next prior) Covered (newBlockedPriorityQueue hint) (es ++ ds) :=
    along_append_of_mem covered fun e he _ => covered_of_consumers (consumers e he)
  have nobody : (newBlockedPriorityQueue hint : Queue ι α).Enough :=
    fun _ => by simp [waiters, newBlockedPriorityQueue, Producer.isWaiting]
  obtain ⟨orderly, enough⟩ := exec_invariant_along (P := fun s => s.Orderly ∧ s.Enough)
    (fun _ _ _ h c step =>
      ⟨h.1.steps (steps_of_next step), h.2.steps h.1 c (steps_of_next step)⟩)
    ⟨new_orderly hint, nobody⟩ along run
  exact enough.not_stuck orderly

theorem stuck_of_not_covered {i : ι} (room : 0 < hint) (opened : s.disposed = false)
    (few : s.items.length + s.pending < s.waiters + 1)
    (run : exec (next prior) (newBlockedPriorityQueue hint) es = some s)
    (step : s.next prior (.wait i) = some t) :
    ∃ ds u, (∀ e ∈ ds, e.isConsumers = true) ∧ u.Stuck ∧
      exec (next prior) (newBlockedPriorityQueue hint) (es ++ [.wait i] ++ ds) = some u := by
  cases steps_of_next step with
  | @wait _ item full =>
    have orderly := (orderly_of_run run).steps (steps_of_next step)
    have more : (s.moveTo i (.waiting item)).items.length + (s.moveTo i (.waiting item)).pending <
        (s.moveTo i (.waiting item)).waiters := by
      rw [waiters_wait full]
      exact few
    obtain ⟨ds, u, consumers, drain, stuck⟩ := exists_stuck prior
      (s := s.moveTo i (.waiting item)) (hint_of_run run ▸ room) opened orderly more
    exact ⟨ds, u, consumers, stuck,
      exec_append_iff.mpr ⟨_, exec_snoc_iff.mpr ⟨s, run, step⟩, drain⟩⟩

theorem released_of_enough (room : 0 < hint) (notFull : ¬ s.SomeoneFull)
    (bound : s.waiters ≤ 1 + s.pending)
    (run : exec (next prior) (newBlockedPriorityQueue hint) es = some s)
    {rest : List (Event ι α)}
    (later : exec (next prior) s (.dispose :: rest) = some t)
    (returned : t.disposing = false) (stopped : t.consumer = .stopped) : ¬ t.SomeoneWaits := by
  obtain ⟨d, first, later⟩ := exec_cons_iff.mp later
  have orderly := (orderly_of_run run).steps (steps_of_next first)
  have start : d.Releasing := by
    cases steps_of_next first with
    | dispose =>
      refine ⟨hint_of_run run ▸ room, rfl, notFull, ?_⟩
      rw [disposeItems_pending]
      exact bound
  obtain ⟨-, released⟩ := exec_invariant (P := fun s => s.Orderly ∧ s.Releasing)
    (fun _ _ _ h step => ⟨h.1.steps (steps_of_next step), h.2.steps h.1 (steps_of_next step)⟩)
    ⟨orderly, start⟩ later
  have none := released.waiters
  simp only [returned, Bool.toNat_false, pending, stopped] at none
  intro waits
  exact absurd (waiters_pos_iff.mpr waits) (by omega)

theorem waits_of_not_enough (prior : α → Nat) (idle : s.disposing = false)
    (bad : s.SomeoneFull ∨ 1 + s.pending < s.waiters) :
    ∃ rest t, exec (next prior) s (.dispose :: rest) = some t ∧ t.disposing = false ∧
      t.consumer = .stopped ∧ t.SomeoneWaits := by
  have dispose : s.next prior .dispose = some { s.disposeItems with disposing := true } := by
    simp [next, idle]
  obtain ⟨ds, t, stop, returned, stopped, count, keeps⟩ := exists_stopped prior
    (s := { s.disposeItems with disposing := true }) rfl rfl (disposeItems_consumer s)
  rcases bad with ⟨i, item, full⟩ | many
  · refine ⟨ds ++ [.wait i], t.moveTo i (.waiting item), ?_, returned, stopped,
      ⟨i, by rw [moveTo_same]; rfl⟩⟩
    refine exec_cons_iff.mpr ⟨_, dispose, exec_snoc_iff.mpr ⟨t, stop, ?_⟩⟩
    simp only [next, keeps i item full]
  · refine ⟨ds, t, exec_cons_iff.mpr ⟨_, dispose, stop⟩, returned, stopped,
      waiters_pos_iff.mp ?_⟩
    have same : ({ s.disposeItems with disposing := true } : Queue ι α).waiters = s.waiters := rfl
    rw [count, disposeItems_pending]
    omega

end

end Queue

open Queue

/-- The consumer cannot run into a lost wakeup from any state of a run exactly when there are
signals enough whenever a producer starts to wait. -/
theorem no_lost_wakeup_iff {hint : Nat} (room : 0 < hint) (es : List (Event ι α)) (s : Queue ι α)
    (run : exec (next prior) (newBlockedPriorityQueue hint) es = some s) :
    ((∀ pre post ds t, es = pre ++ post → (∀ e ∈ ds, e.isConsumers = true) →
        exec (next prior) (newBlockedPriorityQueue hint) (pre ++ ds) = some t → ¬ t.Stuck) ↔
      Along (next prior) Covered (newBlockedPriorityQueue hint) es) ∧
    (s.disposing = false →
      ((∀ rest t,
          exec (next prior) (newBlockedPriorityQueue hint) (es ++ .dispose :: rest) = some t →
          t.disposing = false → t.consumer = .stopped → ¬ t.SomeoneWaits) ↔
        ¬ s.SomeoneFull ∧ s.waiters ≤ 1 + s.pending)) := by
  constructor
  · constructor
    · intro safe pre e post m cut before i waits opened
      subst waits
      by_contra few
      rw [cut] at run
      obtain ⟨m', first, later⟩ := exec_append_iff.mp run
      obtain rfl := Option.some.inj (before.symm.trans first)
      obtain ⟨t, step, -⟩ := exec_cons_iff.mp later
      obtain ⟨ds, u, consumers, stuck, drain⟩ :=
        stuck_of_not_covered room opened (Nat.not_le.mp few) before step
      exact safe (pre ++ [.wait i]) post ds u (by simp [cut]) consumers drain stuck
    · intro covered pre post ds t cut consumers run'
      rw [cut] at covered
      exact not_stuck_of_covered (along_append_left covered) consumers run'
  · intro idle
    constructor
    · intro freed
      by_contra bad
      obtain ⟨rest, t, later, returned, stopped, waits⟩ := waits_of_not_enough prior idle
        (by
          by_contra good
          exact bad ⟨fun full => good (Or.inl full), Nat.not_lt.mp fun many => good (Or.inr many)⟩)
      exact freed rest t (exec_append_iff.mpr ⟨s, run, later⟩) returned stopped waits
    · rintro ⟨notFull, bound⟩ rest t whole returned stopped
      obtain ⟨m, before, later⟩ := exec_append_iff.mp whole
      obtain rfl := Option.some.inj (run.symm.trans before)
      exact released_of_enough room notFull bound run later returned stopped

def fills (i : Fin 2) (n : Nat) : List (Event (Fin 2) Nat) :=
  (List.range n).flatMap fun k => [.blockPut i k, .test i, .retest i, .put i]

def empties (n : Nat) : List (Event (Fin 2) Nat) :=
  (List.replicate n [.get, .signal none, .write]).flatten

def findsFull (i : Fin 2) : List (Event (Fin 2) Nat) := [.blockPut i 99, .test i]

theorem no_lost_wakeup_single : ∃ s,
    exec (next fun _ => 1) (newBlockedPriorityQueue 32) (fills 0 1 ++ empties 1) = some s ∧
    ¬ s.Stuck ∧ ∀ rest t, exec (next fun _ => 1) (newBlockedPriorityQueue 32)
      (fills 0 1 ++ empties 1 ++ .dispose :: rest) = some t →
      t.disposing = false → t.consumer = .stopped → ¬ t.SomeoneWaits := by
  obtain ⟨first, second⟩ := @no_lost_wakeup_iff (Fin 2) Nat _ _ (fun _ => 1) 32 (by decide)
    (fills 0 1 ++ empties 1) _ rfl
  refine ⟨_, rfl, ?_, (second rfl).mpr ⟨?_, ?_⟩⟩
  · refine first.mpr (along_of_mem ?_ _) _ [] [] _ (List.append_nil _).symm nofun rfl
    intro e he m i waits
    subst waits
    simp [fills, empties] at he
  · rintro ⟨i, item, full⟩
    obtain rfl | rfl : i = 0 ∨ i = 1 := by omega
    · cases full
    · cases full
  · decide

/-- The consumer takes all items between the length test of a producer and its wait, and then
waits for more. -/
theorem wakeup_lost :
    (∃ t, exec (next fun _ => 1) (newBlockedPriorityQueue 32)
      (fills 0 32 ++ findsFull 0 ++ empties 32 ++ [.get, .wait 0]) = some t ∧ t.Stuck) ∧
    ∃ t, exec (next fun _ => 1) (newBlockedPriorityQueue 32)
      (fills 0 32 ++ findsFull 0 ++ findsFull 1 ++
        [.wait 0, .wait 1, .dispose, .disposeSignal (some 0), .get]) = some t ∧
      t.disposing = false ∧ t.consumer = .stopped ∧ t.SomeoneWaits := by
  constructor
  · obtain ⟨t, run, seen⟩ := Option.map_eq_some_iff.mp (show
      (exec (next fun _ => 1) (newBlockedPriorityQueue 32)
        (fills 0 32 ++ findsFull 0 ++ empties 32 ++ [.get, .wait 0])).map
          (fun t => (t.producers 0, t.items, t.consumer, t.hint)) =
        some (.waiting 99, [], .blocked, 32) by decide +kernel)
    simp only [Prod.mk.injEq] at seen
    obtain ⟨waits, empty, blocked, hint⟩ := seen
    exact ⟨t, run, ⟨0, by rw [waits]; rfl⟩, by rw [empty, hint]; decide, blocked, empty⟩
  · obtain ⟨t, run, seen⟩ := Option.map_eq_some_iff.mp (show
      (exec (next fun _ => 1) (newBlockedPriorityQueue 32)
        (fills 0 32 ++ findsFull 0 ++ findsFull 1 ++
          [.wait 0, .wait 1, .dispose, .disposeSignal (some 0), .get])).map
            (fun t => (t.disposing, t.consumer, t.producers 1)) =
        some (false, .stopped, .waiting 99) by decide +kernel)
    simp only [Prod.mk.injEq] at seen
    obtain ⟨returned, stopped, waits⟩ := seen
    exact ⟨t, run, returned, stopped, ⟨1, by rw [waits]; rfl⟩⟩

end BlockedPriorityQueue
