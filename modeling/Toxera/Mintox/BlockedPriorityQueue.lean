import Mathlib.Algebra.BigOperators.Group.Finset.Basic
import Mathlib.Data.Fintype.Basic
import Toxera.Lib.BinaryHeap
import Toxera.Lib.Exec

/-!
# The queue of packets to write

`mintox/blocked_priority_queue.go`: producers put items into a priority queue with
`BlockPut`, which waits on a channel while the queue is not shorter than `hint`; one
consumer takes the items with `Get` and signals on the channel, without blocking, after
each of them.
-/

namespace BlockedPriorityQueue

open BinaryHeap Exec

universe u v

inductive Producer (α : Type v) where
  | idle
  /-- before the first length test -/
  | testing (item : α)
  /-- behind it, on the way to wait -/
  | full (item : α)
  | waiting (item : α)
  /-- before the second length test -/
  | retesting (item : α)
  | putting (item : α)
  deriving DecidableEq

inductive Consumer (α : Type v) where
  | getting
  /-- in `Get`, on an empty queue -/
  | blocked
  | signalling (item : α)
  | writing (item : α)
  /-- `Get` has failed -/
  | stopped
  deriving DecidableEq

structure Queue (ι : Type u) (α : Type v) where
  hint : Nat
  items : List α
  disposed : Bool
  /-- `Dispose` has yet to signal -/
  disposing : Bool
  producers : ι → Producer α
  consumer : Consumer α
  written : List α

inductive Event (ι : Type u) (α : Type v) where
  | blockPut (i : ι) (item : α)
  | test (i : ι)
  | wait (i : ι)
  | retest (i : ι)
  | put (i : ι)
  /-- `Put` without the length check -/
  | putNow (item : α)
  | get
  /-- to a producer that waits, or to nobody if none does -/
  | signal (receiver : Option ι)
  | write
  | dispose
  | disposeSignal (receiver : Option ι)

def Producer.isWaiting {α : Type v} : Producer α → Bool
  | .waiting _ => true
  | _ => false

def Consumer.inHand {α : Type v} : Consumer α → List α
  | .signalling item => [item]
  | .writing item => [item]
  | _ => []

def Event.isConsumers {ι : Type u} {α : Type v} : Event ι α → Bool
  | .get => true
  | .signal _ => true
  | .write => true
  | _ => false

variable {ι : Type u} {α : Type v}

def newBlockedPriorityQueue (hint : Nat) : Queue ι α where
  hint := hint
  items := []
  disposed := false
  disposing := false
  producers := fun _ => .idle
  consumer := .getting
  written := []

namespace Queue
variable [DecidableEq ι]

def moveTo (s : Queue ι α) (i : ι) (p : Producer α) : Queue ι α :=
  { s with producers := Function.update s.producers i p }

@[simp] theorem moveTo_same (s : Queue ι α) (i : ι) (p : Producer α) :
    (s.moveTo i p).producers i = p := Function.update_self ..

theorem moveTo_other {i j : ι} (other : j ≠ i) (s : Queue ι α) (p : Producer α) :
    (s.moveTo i p).producers j = s.producers j := Function.update_of_ne other ..

section
variable (prior : α → Nat)

def putItem (s : Queue ι α) (item : α) : Queue ι α :=
  if s.disposed then s
  else
    match s.consumer, pop prior (push prior s.items item) with
    | .blocked, some (x, rest) => { s with items := rest, consumer := .signalling x }
    | _, _ => { s with items := push prior s.items item }

def getItem (s : Queue ι α) : Queue ι α :=
  if s.disposed then { s with consumer := .stopped }
  else
    match pop prior s.items with
    | none => { s with consumer := .blocked }
    | some (x, rest) => { s with items := rest, consumer := .signalling x }

def notify [Fintype ι] (s : Queue ι α) : Option ι → Option (Queue ι α)
  | none => if ∀ i, (s.producers i).isWaiting = false then some s else none
  | some i =>
    match s.producers i with
    | .waiting item => some (s.moveTo i (.retesting item))
    | _ => none

def disposeItems (s : Queue ι α) : Queue ι α :=
  { s with
    disposed := true
    items := []
    consumer := match s.consumer with
      | .blocked => .stopped
      | c => c }

def next [Fintype ι] (s : Queue ι α) : Event ι α → Option (Queue ι α)
  | .blockPut i item =>
    match s.producers i with
    | .idle => some (s.moveTo i (.testing item))
    | _ => none
  | .test i =>
    match s.producers i with
    | .testing item =>
      some (s.moveTo i (if s.hint ≤ s.items.length then .full item else .retesting item))
    | _ => none
  | .wait i =>
    match s.producers i with
    | .full item => some (s.moveTo i (.waiting item))
    | _ => none
  | .retest i =>
    match s.producers i with
    | .retesting item =>
      some (s.moveTo i (if s.items.length < s.hint then .putting item else .testing item))
    | _ => none
  | .put i =>
    match s.producers i with
    | .putting item => some ((s.moveTo i .idle).putItem prior item)
    | _ => none
  | .putNow item => some (s.putItem prior item)
  | .get =>
    match s.consumer with
    | .getting => some (s.getItem prior)
    | _ => none
  | .signal receiver =>
    match s.consumer with
    | .signalling item => (s.notify receiver).map fun s => { s with consumer := .writing item }
    | _ => none
  | .write =>
    match s.consumer with
    | .writing item => some { s with consumer := .getting, written := s.written ++ [item] }
    | _ => none
  | .dispose => if s.disposing then none else some { s.disposeItems with disposing := true }
  | .disposeSignal receiver =>
    if s.disposing then (s.notify receiver).map fun s => { s with disposing := false } else none

end

inductive Notifies (s : Queue ι α) : Option ι → Queue ι α → Prop
  | wakes {i : ι} {item : α} : s.producers i = .waiting item →
    Notifies s (some i) (s.moveTo i (.retesting item))
  | lost : (∀ i, (s.producers i).isWaiting = false) → Notifies s none s

/-- A `Put` is refused, hands the item to the consumer, or leaves it in the queue. -/
inductive Puts (prior : α → Nat) (s : Queue ι α) (item : α) : Queue ι α → Prop
  | refused : s.disposed = true → Puts prior s item s
  | handed {x : α} {rest : List α} : s.disposed = false → s.consumer = .blocked →
    pop prior (push prior s.items item) = some (x, rest) →
    Puts prior s item { s with items := rest, consumer := .signalling x }
  | queued : s.disposed = false → s.consumer ≠ .blocked →
    Puts prior s item { s with items := push prior s.items item }

inductive Steps (prior : α → Nat) (s : Queue ι α) : Event ι α → Queue ι α → Prop
  | blockPut {i : ι} {item : α} : s.producers i = .idle →
    Steps prior s (.blockPut i item) (s.moveTo i (.testing item))
  | foundFull {i : ι} {item : α} : s.producers i = .testing item → s.hint ≤ s.items.length →
    Steps prior s (.test i) (s.moveTo i (.full item))
  | foundRoom {i : ι} {item : α} : s.producers i = .testing item → s.items.length < s.hint →
    Steps prior s (.test i) (s.moveTo i (.retesting item))
  | wait {i : ι} {item : α} : s.producers i = .full item →
    Steps prior s (.wait i) (s.moveTo i (.waiting item))
  | stillRoom {i : ι} {item : α} : s.producers i = .retesting item → s.items.length < s.hint →
    Steps prior s (.retest i) (s.moveTo i (.putting item))
  | again {i : ι} {item : α} : s.producers i = .retesting item → s.hint ≤ s.items.length →
    Steps prior s (.retest i) (s.moveTo i (.testing item))
  | put {i : ι} {item : α} {t : Queue ι α} : s.producers i = .putting item →
    Puts prior (s.moveTo i .idle) item t → Steps prior s (.put i) t
  | putNow {item : α} {t : Queue ι α} : Puts prior s item t → Steps prior s (.putNow item) t
  | stops : s.consumer = .getting → s.disposed = true →
    Steps prior s .get { s with consumer := .stopped }
  | blocks : s.consumer = .getting → s.disposed = false → s.items = [] →
    Steps prior s .get { s with consumer := .blocked }
  | takes {x : α} {rest : List α} : s.consumer = .getting → s.disposed = false →
    pop prior s.items = some (x, rest) →
    Steps prior s .get { s with items := rest, consumer := .signalling x }
  | signal {receiver : Option ι} {item : α} {t : Queue ι α} : s.consumer = .signalling item →
    Notifies s receiver t → Steps prior s (.signal receiver) { t with consumer := .writing item }
  | write {item : α} : s.consumer = .writing item →
    Steps prior s .write { s with consumer := .getting, written := s.written ++ [item] }
  | dispose : s.disposing = false →
    Steps prior s .dispose { s.disposeItems with disposing := true }
  | disposeSignal {receiver : Option ι} {t : Queue ι α} : s.disposing = true →
    Notifies s receiver t → Steps prior s (.disposeSignal receiver) { t with disposing := false }

variable {prior : α → Nat} {s t : Queue ι α}

theorem notifies_of_notify [Fintype ι] {receiver : Option ι} (h : s.notify receiver = some t) :
    s.Notifies receiver t := by
  cases receiver with
  | none =>
    unfold notify at h
    split_ifs at h with nobody
    exact Option.some.inj h ▸ .lost nobody
  | some i =>
    simp only [notify] at h
    split at h
    · rename_i item waiting
      exact Option.some.inj h ▸ .wakes waiting
    · cases h

omit [DecidableEq ι] in
theorem putItem_puts (s : Queue ι α) (item : α) : s.Puts prior item (s.putItem prior item) := by
  unfold putItem
  split_ifs with disposed
  · exact .refused disposed
  · replace disposed := Bool.eq_false_iff.mpr disposed
    split
    · rename_i x rest blocked popped
      exact .handed disposed blocked popped
    · rename_i other
      refine .queued disposed fun blocked => ?_
      cases popped : pop prior (push prior s.items item) with
      | none => simpa using congrArg List.length (pop_eq_none.mp popped)
      | some r => exact other r.1 r.2 blocked popped

theorem steps_of_getItem (idle : s.consumer = .getting) : Steps prior s .get (s.getItem prior) := by
  unfold getItem
  split_ifs with disposed
  · exact .stops idle disposed
  · replace disposed := Bool.eq_false_iff.mpr disposed
    split
    · rename_i empty
      exact .blocks idle disposed (pop_eq_none.mp empty)
    · rename_i x rest popped
      exact .takes idle disposed popped

theorem steps_of_next [Fintype ι] {e : Event ι α} (h : s.next prior e = some t) :
    Steps prior s e t := by
  cases e with
  | blockPut i item =>
    simp only [next] at h
    split at h
    · rename_i idle
      exact Option.some.inj h ▸ .blockPut idle
    · cases h
  | test i =>
    simp only [next] at h
    split at h
    · rename_i item testing
      cases h
      split_ifs with long
      · exact .foundFull testing long
      · exact .foundRoom testing (Nat.not_le.mp long)
    · cases h
  | wait i =>
    simp only [next] at h
    split at h
    · rename_i item full
      exact Option.some.inj h ▸ .wait full
    · cases h
  | retest i =>
    simp only [next] at h
    split at h
    · rename_i item retesting
      cases h
      split_ifs with room
      · exact .stillRoom retesting room
      · exact .again retesting (Nat.not_lt.mp room)
    · cases h
  | put i =>
    simp only [next] at h
    split at h
    · rename_i item putting
      cases h
      exact .put putting (putItem_puts _ item)
    · cases h
  | putNow item =>
    cases h
    exact .putNow (putItem_puts s item)
  | get =>
    simp only [next] at h
    split at h
    · rename_i idle
      cases h
      exact steps_of_getItem idle
    · cases h
  | signal receiver =>
    simp only [next] at h
    split at h
    · rename_i item signalling
      obtain ⟨m, sent, rfl⟩ := Option.map_eq_some_iff.mp h
      exact .signal signalling (notifies_of_notify sent)
    · cases h
  | write =>
    simp only [next] at h
    split at h
    · rename_i item writing
      cases h
      exact .write writing
    · cases h
  | dispose =>
    simp only [next] at h
    split_ifs at h with disposing
    cases h
    exact .dispose (Bool.eq_false_iff.mpr disposing)
  | disposeSignal receiver =>
    simp only [next] at h
    split_ifs at h with disposing
    obtain ⟨m, sent, rfl⟩ := Option.map_eq_some_iff.mp h
    exact .disposeSignal disposing (notifies_of_notify sent)

end Queue

end BlockedPriorityQueue
