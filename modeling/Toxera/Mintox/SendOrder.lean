import Toxera.Mintox.ClientRouting
import Toxera.Mintox.QueueWakeups

/-!
# The order of data packets

`SendDataPacket` of `mintox/tcp_client.go` puts packets into the queue of the client, and
`doWriteConn` takes and writes them one by one.
-/

namespace TcpClient

open BinaryHeap BlockedPriorityQueue CryptoCore Exec

def dataPrior (prior : Bool) : Nat := if prior then 1 else 2

theorem dataPrior_ne_zero (prior : Bool) : dataPrior prior ≠ 0 := by cases prior <;> decide

/-- The item that `SendDataPacket` hands to `implSendPacket`, if it does not refuse. -/
def sendDataPacket (status : ClientStatus) (connid : UInt8) (data : Bytes) (prior : Bool) :
    Option SendItem :=
  if data.length > 2048 then none
  else if status ≠ .confirmed then none
  else some ⟨connid :: data, dataPrior prior⟩

/-- A goroutine that sends data packets to one connection with one priority, next to the
writer and to control packets, which `SendCtrlPacket` puts without waiting. -/
def Sends (connid : UInt8) (prior : Bool) : Event Unit SendItem → Prop
  | .blockPut _ item => ∃ data, sendDataPacket .confirmed connid data prior = some item
  | .putNow item => item.prior = 0
  | .dispose => False
  | .disposeSignal _ => False
  | _ => True

def called : Event Unit SendItem → Option SendItem
  | .blockPut _ item => some item
  | _ => none

def calls (es : List (Event Unit SendItem)) : List SendItem := es.filterMap called

def dataPackets (items : List SendItem) : List SendItem := items.filter fun item => item.prior ≠ 0

abbrev SendState := Queue Unit SendItem

def sendNext : SendState → Event Unit SendItem → Option SendState := Queue.next SendItem.prior

/-- What the writer has written, now and if it goes on alone, is in the order of the calls. -/
def WrittenInOrder (hint : Nat) (es : List (Event Unit SendItem)) : Prop :=
  ∀ pre post ds t, es = pre ++ post → (∀ e ∈ ds, e.isConsumers = true) →
    exec sendNext (newBlockedPriorityQueue hint) (pre ++ ds) = some t →
    (dataPackets t.written).Sublist (calls pre)

def AtMostTwoQueued (hint : Nat) (es : List (Event Unit SendItem)) : Prop :=
  ∀ pre post t, es = pre ++ post → exec sendNext (newBlockedPriorityQueue hint) pre = some t →
    t.items.length ≤ 2

theorem dataPackets_append (xs ys : List SendItem) :
    dataPackets (xs ++ ys) = dataPackets xs ++ dataPackets ys := List.filter_append ..

theorem dataPackets_all {xs : List SendItem} (data : ∀ x ∈ xs, x.prior ≠ 0) :
    dataPackets xs = xs :=
  List.filter_eq_self.mpr fun x hx => decide_eq_true (data x hx)

theorem calls_append (es fs : List (Event Unit SendItem)) :
    calls (es ++ fs) = calls es ++ calls fs := List.filterMap_append

theorem calls_consumers {ds : List (Event Unit SendItem)}
    (consumers : ∀ e ∈ ds, e.isConsumers = true) : calls ds = [] := by
  refine List.filterMap_eq_nil_iff.mpr fun e he => ?_
  have := consumers e he
  cases e <;> first | rfl | cases this

theorem sendDataPacket_prior {status : ClientStatus} {connid : UInt8} {data : Bytes} {prior : Bool}
    {item : SendItem} (h : sendDataPacket status connid data prior = some item) :
    item.prior = dataPrior prior := by
  unfold sendDataPacket at h
  split_ifs at h
  exact (congrArg SendItem.prior (Option.some.inj h)).symm

theorem push_dataPackets {p : Nat} {items : List SendItem} {item : SendItem}
    (few : items.length ≤ 1) (priors : ∀ x ∈ items, x.prior = 0 ∨ x.prior = p)
    (this : item.prior = 0 ∨ item.prior = p) :
    dataPackets (push SendItem.prior items item) = dataPackets items ++ dataPackets [item] := by
  rw [← dataPackets_append]
  cases items with
  | nil => rfl
  | cons x rest =>
    obtain rfl : rest = [] := List.length_eq_zero_iff.mp (by simpa using few)
    rw [push_pair]
    split_ifs with before
    · -- only a control packet passes a data packet
      have control : item.prior = 0 := by grind
      have data : x.prior ≠ 0 := by omega
      simp [dataPackets, control, data]
    · rfl

theorem push_priors {P : Nat → Prop} {items : List SendItem} {item : SendItem}
    (priors : ∀ x ∈ items, P x.prior) (this : P item.prior) :
    ∀ x ∈ push SendItem.prior items item, P x.prior := by
  intro x hx
  rcases List.mem_cons.mp ((push_perm items item).mem_iff.mp hx) with rfl | hx
  · exact this
  · exact priors x hx

theorem pop_few {items rest : List SendItem} {x : SendItem} (few : items.length ≤ 2)
    (popped : pop SendItem.prior items = some (x, rest)) : items = x :: rest := by
  cases items with
  | nil => cases popped
  | cons y ys =>
    cases ys with
    | nil =>
      cases popped
      rfl
    | cons z zs => grind [pop_level]

def item : Producer SendItem → List SendItem
  | .idle => []
  | .testing item => [item]
  | .full item => [item]
  | .waiting item => [item]
  | .retesting item => [item]
  | .putting item => [item]

/-- What is written, in hand, queued and about to be put are the calls in their order. -/
structure Lined (p : Nat) (calls : List SendItem) (s : SendState) : Prop where
  opened : s.disposed = false
  priors : ∀ x ∈ s.items, x.prior = 0 ∨ x.prior = p
  producer : ∀ x ∈ item (s.producers ()), x.prior = p
  order : dataPackets (s.written ++ s.consumer.inHand ++ s.items) ++ item (s.producers ()) = calls

variable {p : Nat} {cs : List SendItem} {s t : SendState} {connid : UInt8} {prior : Bool}

theorem Lined.of_line (h : Lined p cs s) (opened : t.disposed = s.disposed)
    (queued : ∀ x ∈ t.items, x ∈ s.items) (same : item (t.producers ()) = item (s.producers ()))
    (line : t.written ++ t.consumer.inHand ++ t.items =
      s.written ++ s.consumer.inHand ++ s.items) : Lined p cs t := by
  refine ⟨opened.trans h.opened, fun x hx => h.priors x (queued x hx), ?_, ?_⟩
  · rw [same]
    exact h.producer
  · rw [same, line]
    exact h.order

theorem Lined.moveTo {i : Unit} {q : Producer SendItem} (h : Lined p cs s)
    (same : item q = item (s.producers i)) : Lined p cs (s.moveTo i q) :=
  h.of_line rfl (fun _ => id) ((congrArg item (Queue.moveTo_same ..)).trans same) rfl

theorem Lined.puts {x : SendItem} (orderly : s.Orderly) (opened : s.disposed = false)
    (priors : ∀ x ∈ s.items, x.prior = 0 ∨ x.prior = p) (this : x.prior = 0 ∨ x.prior = p)
    (producer : ∀ x ∈ item (s.producers ()), x.prior = p)
    (order : dataPackets (s.written ++ s.consumer.inHand ++ s.items) ++ dataPackets [x] ++
      item (s.producers ()) = cs)
    (few : t.items.length ≤ 2) (h : s.Puts SendItem.prior x t) : Lined p cs t := by
  cases h with
  | refused disposed => exact absurd (opened.symm.trans disposed) (by decide)
  | @handed y rest _ blocked popped =>
    -- the queue was empty, and the packet does not stay in it
    rw [(orderly.blocked blocked).1] at popped order
    obtain ⟨rfl, rfl⟩ : x = y ∧ [] = rest := by
      have : some (x, ([] : List SendItem)) = some (y, rest) := popped
      simpa using this
    refine ⟨opened, by simp, producer, ?_⟩
    rw [blocked] at order
    simpa [Consumer.inHand, dataPackets_append] using order
  | queued =>
    have single : s.items.length ≤ 1 := by
      simp only [push_length] at few
      omega
    refine ⟨opened, push_priors (P := fun n => n = 0 ∨ n = p) priors this, producer, ?_⟩
    rw [dataPackets_append, push_dataPackets single priors this, ← List.append_assoc,
      ← dataPackets_append]
    exact order

theorem Lined.call {i : Unit} {x : SendItem} (h : Lined p cs s) (idle : s.producers i = .idle)
    (data : x.prior = p) : Lined p (cs ++ [x]) (s.moveTo i (.testing x)) := by
  have nobody : item (s.producers ()) = [] := by
    rw [idle]
    rfl
  refine ⟨h.opened, h.priors, ?_, ?_⟩
  · rw [Queue.moveTo_same]
    intro y hy
    rw [List.mem_singleton.mp hy]
    exact data
  · have order := h.order
    rw [nobody, List.append_nil] at order
    rw [Queue.moveTo_same]
    exact congrArg (· ++ [x]) order

theorem Lined.quiet {e : Event Unit SendItem} (orderly : s.Orderly)
    (h : Lined (dataPrior prior) cs s) (sends : Sends connid prior e) (none : called e = none)
    (step : s.Steps SendItem.prior e t) (before : s.items.length ≤ 2)
    (after : t.items.length ≤ 2) : Lined (dataPrior prior) cs t := by
  cases step with
  | blockPut => cases none
  | foundFull testing => exact h.moveTo (by rw [testing]; rfl)
  | foundRoom testing => exact h.moveTo (by rw [testing]; rfl)
  | wait full => exact h.moveTo (by rw [full]; rfl)
  | stillRoom retesting => exact h.moveTo (by rw [retesting]; rfl)
  | again retesting => exact h.moveTo (by rw [retesting]; rfl)
  | @put i x _ putting puts =>
    have mine : item (s.producers ()) = [x] := by
      rw [putting]
      rfl
    have data : x.prior = dataPrior prior :=
      h.producer x (by rw [mine]; exact List.mem_singleton_self x)
    have kept : dataPackets [x] = [x] := dataPackets_all (by simp [data, dataPrior_ne_zero])
    refine Lined.puts (s := s.moveTo i .idle) ⟨orderly.1, orderly.2, orderly.3⟩ h.opened h.priors
      (Or.inr data) (by rw [Queue.moveTo_same]; simp [item]) ?_ after puts
    have order := h.order
    rw [mine] at order
    rw [Queue.moveTo_same, kept, item, List.append_nil]
    exact order
  | @putNow x _ puts =>
    have control : dataPackets [x] = [] := by
      have zero : x.prior = 0 := sends
      simp [dataPackets, zero]
    refine Lined.puts orderly h.opened h.priors (Or.inl sends) h.producer ?_ after puts
    rw [control, List.append_nil]
    exact h.order
  | stops _ disposed => exact absurd (h.opened.symm.trans disposed) (by decide)
  | blocks getting => exact h.of_line rfl (fun _ => id) rfl (by rw [getting]; rfl)
  | @takes x rest getting _ popped =>
    have split := pop_few before popped
    refine h.of_line rfl (fun y hy => split ▸ List.mem_cons_of_mem x hy) rfl ?_
    simp [getting, split, Consumer.inHand]
  | @signal receiver x m signalling notifies =>
    obtain ⟨items, disposed, -, -, -, written⟩ := notifies.same
    have mine : item (m.producers ()) = item (s.producers ()) := by
      cases notifies with
      | wakes waiting =>
        rw [Queue.moveTo_same, waiting]
        rfl
      | lost => rfl
    refine h.of_line disposed (fun _ hx => items ▸ hx) mine ?_
    rw [signalling]
    simp only [items, written]
    rfl
  | write writing =>
    refine h.of_line rfl (fun _ => id) rfl ?_
    simp [writing, Consumer.inHand]
  | dispose => exact absurd sends id
  | disposeSignal => exact absurd sends id

theorem Lined.steps {e : Event Unit SendItem} (orderly : s.Orderly)
    (h : Lined (dataPrior prior) cs s) (sends : Sends connid prior e)
    (step : s.Steps SendItem.prior e t) (before : s.items.length ≤ 2)
    (after : t.items.length ≤ 2) : Lined (dataPrior prior) (cs ++ calls [e]) t := by
  cases called_e : called e with
  | none =>
    rw [show calls [e] = [] by simp [calls, called_e], List.append_nil]
    exact h.quiet orderly sends called_e step before after
  | some x =>
    cases step with
    | blockPut idle =>
      obtain ⟨data, sent⟩ := sends
      exact h.call idle (sendDataPacket_prior sent)
    | _ => cases called_e

theorem Lined.start (hint : Nat) : Lined p [] (newBlockedPriorityQueue hint) :=
  ⟨rfl, nofun, nofun, rfl⟩

theorem lined_of_run {hint : Nat} {es : List (Event Unit SendItem)}
    (sends : ∀ e ∈ es, Sends connid prior e) (few : AtMostTwoQueued hint es)
    (run : exec sendNext (newBlockedPriorityQueue hint) es = some s) :
    Lined (dataPrior prior) (calls es) s := by
  induction es using List.reverseRecOn generalizing s with
  | nil =>
    cases run
    exact Lined.start hint
  | append_singleton es e ih =>
    obtain ⟨m, before, step⟩ := exec_snoc_iff.mp run
    have lined := ih (fun f hf => sends f (List.mem_append_left _ hf))
      (fun pre post t cut => few pre (post ++ [e]) t (by rw [cut, List.append_assoc])) before
    rw [calls_append]
    exact lined.steps (Queue.orderly_of_run before) (sends e (by simp)) (Queue.steps_of_next step)
      (few es [e] m rfl before) (few (es ++ [e]) [] s (List.append_nil _).symm run)

theorem consumers_shorten {ds : List (Event Unit SendItem)}
    (consumers : ∀ e ∈ ds, e.isConsumers = true) (run : exec sendNext s ds = some t) :
    t.items.length ≤ s.items.length := by
  refine exec_invariant_along (P := fun t => t.items.length ≤ s.items.length)
    (C := fun _ e => e.isConsumers = true) ?_ (Nat.le_refl _)
    (along_of_mem (fun e he _ => consumers e he) s) run
  intro m e m' short own step
  cases Queue.steps_of_next step with
  | @takes x rest _ _ popped => grind [pop_length]
  | signal _ notifies =>
    simp only [notifies.same.1]
    exact short
  | stops => exact short
  | blocks => exact short
  | write => exact short
  | _ => cases own

theorem inOrder_of_few {hint : Nat} {es : List (Event Unit SendItem)}
    (sends : ∀ e ∈ es, Sends connid prior e) (few : AtMostTwoQueued hint es) :
    WrittenInOrder hint es := by
  rintro pre post ds t rfl consumers run
  have allSends : ∀ e ∈ pre ++ ds, Sends connid prior e := by
    intro e he
    rcases List.mem_append.mp he with old | new
    · exact sends e (List.mem_append_left _ old)
    · have own := consumers e new
      cases e <;> trivial
  have fewer : AtMostTwoQueued hint (pre ++ ds) := by
    intro front back m cut run'
    rcases List.append_eq_append_iff.mp cut with ⟨mid, rfl, tail⟩ | ⟨mid, rfl, -⟩
    · obtain ⟨n, start, drained⟩ := exec_append_iff.mp run'
      exact (consumers_shorten (fun e he => consumers e (tail ▸ List.mem_append_left _ he))
        drained).trans (few pre post n rfl start)
    · exact few front (mid ++ post) m (List.append_assoc ..) run'
  have order := (lined_of_run allSends fewer run).order
  rw [calls_append, calls_consumers consumers, List.append_nil] at order
  rw [← order, dataPackets_append, dataPackets_append, List.append_assoc, List.append_assoc]
  exact List.sublist_append_left ..

theorem exists_round {x : SendItem} {rest : List SendItem} (getting : s.consumer = .getting)
    (opened : s.disposed = false) (popped : pop SendItem.prior s.items = some (x, rest)) :
    ∃ ds t, (∀ e ∈ ds, e.isConsumers = true) ∧ exec sendNext s ds = some t ∧
      t.consumer = .getting ∧ t.disposed = false ∧ t.items = rest ∧
      t.written = s.written ++ [x] := by
  obtain ⟨ds, t, consumers, run, settled⟩ := Queue.exists_settled SendItem.prior
    (s := { s with items := rest, consumer := .signalling x }) nofun nofun
  refine ⟨.get :: ds, t, ?_, exec_cons_iff.mpr ⟨_, Queue.get_takes getting opened popped, run⟩,
    settled.consumer, settled.disposed.trans opened, settled.items, settled.written⟩
  intro e he
  rcases List.mem_cons.mp he with rfl | he
  · rfl
  · exact consumers e he

theorem exists_overtaking {a b c : SendItem} (busy : s.consumer ≠ .blocked)
    (goes : s.consumer ≠ .stopped) (opened : s.disposed = false) (three : s.items = [a, b, c])
    (level : b.prior = c.prior) :
    ∃ ds t, (∀ e ∈ ds, e.isConsumers = true) ∧ exec sendNext s ds = some t ∧
      t.written = s.written ++ s.consumer.inHand ++ [a, c, b] := by
  obtain ⟨ds₀, t₀, own₀, run₀, settled⟩ := Queue.exists_settled SendItem.prior busy goes
  obtain ⟨ds₁, t₁, own₁, run₁, getting₁, opened₁, items₁, written₁⟩ :=
    exists_round settled.consumer (settled.disposed.trans opened)
      (show pop SendItem.prior t₀.items = some (a, [c, b]) by
        rw [settled.items, three, pop_level (by simp [level])]
        rfl)
  obtain ⟨ds₂, t₂, own₂, run₂, getting₂, opened₂, items₂, written₂⟩ :=
    exists_round getting₁ opened₁ (show pop SendItem.prior t₁.items = some (c, [b]) by
      rw [items₁, pop_level (by simp)]
      rfl)
  obtain ⟨ds₃, t₃, own₃, run₃, -, -, -, written₃⟩ :=
    exists_round getting₂ opened₂ (show pop SendItem.prior t₂.items = some (b, []) by
      rw [items₂]
      rfl)
  refine ⟨ds₀ ++ (ds₁ ++ (ds₂ ++ ds₃)), t₃, ?_, ?_, ?_⟩
  · simp only [List.mem_append]
    rintro e (he | he | he | he)
    · exact own₀ e he
    · exact own₁ e he
    · exact own₂ e he
    · exact own₃ e he
  · exact exec_append_iff.mpr ⟨t₀, run₀, exec_append_iff.mpr ⟨t₁, run₁,
      exec_append_iff.mpr ⟨t₂, run₂, run₃⟩⟩⟩
  · rw [written₃, written₂, written₁, settled.written]
    simp

def OnlyData (p : Nat) (s : SendState) : Prop :=
  (∀ x ∈ s.items, x.prior = p) ∧ ∀ x ∈ item (s.producers ()), x.prior = p

theorem OnlyData.puts {x : SendItem} (h : OnlyData p s) (this : x.prior = p)
    (puts : s.Puts SendItem.prior x t) : OnlyData p t := by
  have pushed := push_priors (P := (· = p)) h.1 this
  cases puts with
  | refused => exact h
  | handed _ _ popped =>
    refine ⟨fun y hy => pushed y ?_, h.2⟩
    exact (pop_perm popped).mem_iff.mpr (List.mem_cons_of_mem _ hy)
  | queued => exact ⟨pushed, h.2⟩

theorem OnlyData.steps {e : Event Unit SendItem} (h : OnlyData (dataPrior prior) s)
    (sends : Sends connid prior e) (noCtrl : ∀ x, e ≠ .putNow x)
    (step : s.Steps SendItem.prior e t) : OnlyData (dataPrior prior) t := by
  have moves : ∀ {q : Producer SendItem}, (∀ x ∈ item q, x.prior = dataPrior prior) →
      OnlyData (dataPrior prior) (s.moveTo () q) := by
    intro q this
    refine ⟨h.1, ?_⟩
    rw [Queue.moveTo_same]
    exact this
  cases step with
  | blockPut =>
    obtain ⟨data, sent⟩ := sends
    refine moves fun y hy => ?_
    rw [List.mem_singleton.mp hy]
    exact sendDataPacket_prior sent
  | foundFull testing => exact moves fun y hy => h.2 y (by rw [testing]; exact hy)
  | foundRoom testing => exact moves fun y hy => h.2 y (by rw [testing]; exact hy)
  | wait full => exact moves fun y hy => h.2 y (by rw [full]; exact hy)
  | stillRoom retesting => exact moves fun y hy => h.2 y (by rw [retesting]; exact hy)
  | again retesting => exact moves fun y hy => h.2 y (by rw [retesting]; exact hy)
  | @put i x _ putting puts =>
    exact OnlyData.puts (moves (q := .idle) nofun)
      (h.2 x (by rw [putting]; exact List.mem_singleton_self x)) puts
  | putNow => exact absurd rfl (noCtrl _)
  | takes _ _ popped =>
    exact ⟨fun y hy => h.1 y ((pop_perm popped).mem_iff.mpr (List.mem_cons_of_mem _ hy)), h.2⟩
  | signal _ notifies =>
    refine ⟨notifies.same.1.symm ▸ h.1, ?_⟩
    cases notifies with
    | wakes waiting =>
      intro y hy
      rw [Queue.moveTo_same] at hy
      exact h.2 y (by rw [waiting]; exact hy)
    | lost => exact h.2
  | dispose => exact absurd sends id
  | disposeSignal => exact absurd sends id
  | _ => exact h

theorem onlyData_of_run {hint : Nat} {es : List (Event Unit SendItem)}
    (sends : ∀ e ∈ es, Sends connid prior e) (noCtrl : ∀ e ∈ es, ∀ x, e ≠ .putNow x)
    (run : exec sendNext (newBlockedPriorityQueue hint) es = some s) :
    OnlyData (dataPrior prior) s :=
  exec_invariant_along (C := fun _ e => Sends connid prior e ∧ ∀ x, e ≠ .putNow x)
    (fun _ _ _ h c step => h.steps c.1 c.2 (Queue.steps_of_next step))
    (show OnlyData _ (newBlockedPriorityQueue hint) from ⟨nofun, nofun⟩)
    (along_of_mem (fun e he _ => ⟨sends e he, noCtrl e he⟩) _) run

theorem not_longer {e : Event Unit SendItem} (noPut : ∀ i, e ≠ .put i)
    (noCtrl : ∀ x, e ≠ .putNow x) (step : s.Steps SendItem.prior e t) :
    t.items.length ≤ s.items.length := by
  cases step with
  | put => exact absurd rfl (noPut _)
  | putNow => exact absurd rfl (noCtrl _)
  | takes _ _ popped =>
    rw [pop_length popped]
    exact Nat.le_succ _
  | signal _ notifies => exact notifies.same.1 ▸ Nat.le_refl _
  | dispose => exact Nat.zero_le _
  | disposeSignal _ notifies => exact notifies.same.1 ▸ Nat.le_refl _
  | _ => exact Nat.le_refl _

theorem three_queued {e : Event Unit SendItem} (h : Lined (dataPrior prior) cs s)
    (only : OnlyData (dataPrior prior) s) (noCtrl : ∀ x, e ≠ .putNow x)
    (few : s.items.length ≤ 2) (step : s.Steps SendItem.prior e t) (many : 2 < t.items.length) :
    ∃ a b c, t.items = [a, b, c] ∧ (∀ x ∈ [a, b, c], x.prior = dataPrior prior) ∧
      called e = none ∧ dataPackets (t.written ++ t.consumer.inHand) ++ [a, b, c] = cs := by
  by_cases puts : ∀ i, e ≠ .put i
  · exact absurd (not_longer puts noCtrl step) (by omega)
  · push Not at puts
    obtain ⟨i, rfl⟩ := puts
    cases step with
    | @put _ c _ putting puts =>
      have mine : item (s.producers ()) = [c] := by
        rw [putting]
        rfl
      have data : c.prior = dataPrior prior :=
        only.2 c (by rw [mine]; exact List.mem_singleton_self c)
      cases puts with
      | refused => exact absurd many (Nat.not_lt.mpr few)
      | handed _ _ popped =>
        have one := pop_length popped
        rw [push_length] at one
        exact absurd many (by simp only [Queue.moveTo] at one ⊢; omega)
      | queued =>
        have two : s.items.length = 2 := by
          simp only [push_length, Queue.moveTo] at many
          omega
        obtain ⟨a, b, pair⟩ := List.length_eq_two.mp two
        have priors := only.1
        have last : push SendItem.prior s.items c = s.items ++ [c] :=
          push_last fun y hy => (priors y hy).le.trans data.ge
        have all : ∀ x ∈ [a, b, c], x.prior = dataPrior prior := by
          intro x hx
          rcases List.mem_append.mp (show x ∈ [a, b] ++ [c] from hx) with hx | hx
          · exact priors x (pair ▸ hx)
          · rw [List.mem_singleton.mp hx]
            exact data
        refine ⟨a, b, c, ?_, all, rfl, ?_⟩
        · exact last.trans (by rw [pair]; rfl)
        · have order := h.order
          have kept : dataPackets [a, b] = [a, b] := dataPackets_all fun x hx => by
            rw [priors x (pair ▸ hx)]
            exact dataPrior_ne_zero prior
          rw [mine, pair, dataPackets_append, kept, List.append_assoc] at order
          exact order

theorem few_or_three (hint : Nat) {es : List (Event Unit SendItem)}
    (sends : ∀ e ∈ es, Sends connid prior e) (noCtrl : ∀ e ∈ es, ∀ x, e ≠ .putNow x) :
    AtMostTwoQueued hint es ∨ ∃ pre post t a b c, es = pre ++ post ∧
      exec sendNext (newBlockedPriorityQueue hint) pre = some t ∧ t.items = [a, b, c] ∧
      (∀ x ∈ [a, b, c], x.prior = dataPrior prior) ∧
      dataPackets (t.written ++ t.consumer.inHand) ++ [a, b, c] = calls pre := by
  induction es using List.reverseRecOn with
  | nil =>
    left
    intro pre post t cut run
    obtain ⟨rfl, -⟩ := List.append_eq_nil_iff.mp cut.symm
    cases run
    exact Nat.zero_le 2
  | append_singleton es e ih =>
    have sends' : ∀ f ∈ es, Sends connid prior f := fun f hf => sends f (List.mem_append_left _ hf)
    have noCtrl' : ∀ f ∈ es, ∀ x, f ≠ .putNow x := fun f hf => noCtrl f (List.mem_append_left _ hf)
    rcases ih sends' noCtrl' with few | ⟨pre, post, t, a, b, c, rfl, three⟩
    · by_contra neither
      push Not at neither
      obtain ⟨many, none⟩ := neither
      refine many fun pre post t cut run => ?_
      rcases List.eq_nil_or_concat post with rfl | ⟨front, f, rfl⟩
      · rw [List.append_nil] at cut
        subst cut
        obtain ⟨m, before, step⟩ := exec_snoc_iff.mp run
        by_contra long
        obtain ⟨a, b, c, three, all, quiet, order⟩ := three_queued (lined_of_run sends' few before)
          (onlyData_of_run sends' noCtrl' before) (noCtrl e (by simp))
          (few es [] m (by simp) before) (Queue.steps_of_next step) (Nat.not_le.mp long)
        refine none (es ++ [e]) [] t a b c (by simp) run three all ?_
        rw [order, calls_append]
        simp [calls, quiet]
      · rw [List.concat_eq_append, ← List.append_assoc] at cut
        obtain ⟨rfl, -⟩ := List.append_inj' cut rfl
        exact few pre front t rfl run
    · grind

/-- Data packets of one goroutine are written in the order of its calls if there are never more
than two packets in the queue. -/
theorem written_in_order_iff (hint : Nat) (connid : UInt8) (prior : Bool)
    (es : List (Event Unit SendItem)) (sends : ∀ e ∈ es, Sends connid prior e) :
    (AtMostTwoQueued hint es → WrittenInOrder hint es) ∧
    ((∀ e ∈ es, ∀ item, e ≠ .putNow item) → (calls es).Nodup →
      (WrittenInOrder hint es ↔ AtMostTwoQueued hint es)) := by
  refine ⟨inOrder_of_few sends, fun noCtrl distinct => ⟨fun inOrder => ?_, inOrder_of_few sends⟩⟩
  rcases few_or_three hint sends noCtrl with few | ⟨pre, post, t, a, b, c, rfl, run, three, all,
    order⟩
  · exact few
  · have orderly := Queue.orderly_of_run run
    have opened : t.disposed = false := by
      by_contra disposed
      rw [orderly.empty (by simpa using disposed)] at three
      cases three
    have busy : t.consumer ≠ .blocked := by
      intro blocked
      rw [(orderly.blocked blocked).1] at three
      cases three
    have goes : t.consumer ≠ .stopped := fun stopped =>
      absurd (opened.symm.trans (orderly.stopped stopped)) (by decide)
    obtain ⟨ds, u, consumers, drain, written⟩ := exists_overtaking busy goes opened three
      ((all b (by simp)).trans (all c (by simp)).symm)
    have kept : dataPackets [a, c, b] = [a, c, b] := dataPackets_all fun x hx => by
      rw [all x (by simpa [or_comm] using hx)]
      exact dataPrior_ne_zero prior
    have sorted := inOrder pre post ds u rfl consumers (exec_append_iff.mpr ⟨t, run, drain⟩)
    rw [written, dataPackets_append, kept, ← order, List.append_sublist_append_left] at sorted
    have same : c = b := by grind
    rw [calls_append, ← order, same] at distinct
    have twice := (List.nodup_append.mp (List.nodup_append.mp distinct).1).2.1
    simp at twice

def packet (n : UInt8) : SendItem := ⟨[16, n], 2⟩

def sendsPacket (n : UInt8) : List (Event Unit SendItem) :=
  [.blockPut () (packet n), .test (), .retest (), .put ()]

def writesPacket : List (Event Unit SendItem) := [.get, .signal none, .write]

def twoPackets : List (Event Unit SendItem) :=
  sendsPacket 1 ++ sendsPacket 2 ++ writesPacket ++ writesPacket

theorem sendsPacket_sends (n : UInt8) : ∀ e ∈ sendsPacket n, Sends 16 false e := by
  simp only [sendsPacket, List.mem_cons, List.not_mem_nil, or_false]
  rintro e (rfl | rfl | rfl | rfl)
  · exact ⟨[n], rfl⟩
  all_goals trivial

theorem writesPacket_sends : ∀ e ∈ writesPacket, Sends 16 false e := by
  simp only [writesPacket, List.mem_cons, List.not_mem_nil, or_false]
  rintro e (rfl | rfl | rfl) <;> trivial

theorem written_in_order_two : ∃ t,
    exec sendNext (newBlockedPriorityQueue 32) twoPackets = some t ∧
    t.written = [packet 1, packet 2] ∧ (dataPackets t.written).Sublist (calls twoPackets) := by
  have sends : ∀ e ∈ twoPackets, Sends 16 false e := by
    intro e he
    simp only [twoPackets, List.mem_append] at he
    rcases he with ((he | he) | he) | he
    · exact sendsPacket_sends 1 e he
    · exact sendsPacket_sends 2 e he
    · exact writesPacket_sends e he
    · exact writesPacket_sends e he
  have few : AtMostTwoQueued 32 twoPackets := by
    have short : ∀ n < 15, ((exec sendNext (newBlockedPriorityQueue 32) (twoPackets.take n)).map
        fun t => t.items.length).all (· ≤ 2) = true := by decide
    intro pre post t cut run
    have part : twoPackets.take pre.length = pre := by rw [cut, List.take_left]
    have small : pre.length < 15 := by
      have := congrArg List.length cut
      rw [List.length_append] at this
      have len : twoPackets.length = 14 := rfl
      omega
    have bound := short pre.length small
    rw [part, run] at bound
    simpa using bound
  refine ⟨_, rfl, rfl, ?_⟩
  exact (written_in_order_iff 32 16 false twoPackets sends).1 few twoPackets [] [] _ (by simp)
    nofun rfl

/-- Three packets are put, and then the writer starts. -/
theorem third_packet_overtakes : ∃ t,
    exec sendNext (newBlockedPriorityQueue 32)
      (sendsPacket 1 ++ sendsPacket 2 ++ sendsPacket 3 ++ writesPacket ++ writesPacket ++
        writesPacket) = some t ∧
    t.written = [packet 1, packet 3, packet 2] ∧
    ¬ (dataPackets t.written).Sublist
      (calls (sendsPacket 1 ++ sendsPacket 2 ++ sendsPacket 3)) := by
  refine ⟨_, rfl, rfl, ?_⟩
  intro inOrder
  have same := inOrder.eq_of_length rfl
  exact absurd (congrArg (List.map SendItem.value) same) (by decide)

end TcpClient
