import Mathlib.Data.Finset.Max
import Toxera.Lib.Exec
import Toxera.Mintox.ClientRouting

/-!
# How the TCP client of mintox ends

The goroutines of `runmainproc` in `mintox/tcp_client.go`: the reader, the writer, the
ping loop and the callers of `SendCtrlPacket` and `SendDataPacket`, which meet at the
queue of `mintox/blocked_priority_queue.go`.
-/

namespace TcpClient.WindDown

open CryptoCore Exec

inductive Sender where
  | idle
  | passed (item : SendItem)
  /-- the queue was full, and the caller goes on to receive from `subC` -/
  | parking (item : SendItem)
  | waiting (item : SendItem)
  | awake (item : SendItem)
  | putting (item : SendItem)

inductive Pinger where
  | off
  | due
  | passed
  | sleeping
  | ended
  deriving DecidableEq

inductive Reader where
  | running
  | ended (eof : Bool)
  deriving DecidableEq

inductive Writer where
  /-- in `sendq.Get` -/
  | waiting
  /-- an item is taken and the signal on `subC` is next -/
  | signalling
  | writing
  | ended
  deriving DecidableEq

inductive Main where
  | waiting
  | returned
  | statusSet
  | pingsStopped
  | disposed
  | signalled
  /-- `OnClosed` is called -/
  | closed
  deriving DecidableEq

structure Client where
  status : ClientStatus
  reader : Reader
  writer : Writer
  pinger : Pinger
  main : Main
  queue : SendQueue
  callers : List Sender
  /-- `PingDoneC` is closed -/
  pingDone : Bool

/-- A client that has connected, with the given number of goroutines that may send. -/
def connected (n : Nat) : Client where
  status := .connecting
  reader := .running
  writer := .waiting
  pinger := .off
  main := .waiting
  queue := ⟨[], false⟩
  callers := List.replicate n .idle
  pingDone := false

inductive Act where
  | handshake
  | confirm (pings : Bool)
  | pong (data : Bytes)
  | eof
  | readFail
  | get (i : Nat)
  | signal (woken : Option Nat)
  | getDisposed
  | wrote
  | writeFail
  | pingCheck
  | pingPut (data : Bytes)
  | pingTick
  | pingStop
  | call (k : Nat) (item : SendItem)
  | go (k : Nat)
  | main (woken : Option Nat)

variable {a : Act} {c c' : Sender} {q q' : SendQueue} {s t : Client}

def hint : Nat := 32

def Sender.isWaiting : Sender → Bool
  | .waiting _ => true
  | _ => false

def wake (callers : List Sender) : Option Nat → Option (List Sender)
  | none => if callers.any Sender.isWaiting then none else some callers
  | some k =>
    match callers[k]? with
    | some (.waiting item) => some (callers.set k (.awake item))
    | _ => none

/-- One step of a caller: `Put` for the highest priority, else the loop of `BlockPut`. -/
def senderStep (q : SendQueue) : Sender → Option (SendQueue × Sender)
  | .idle => none
  | .passed item =>
    if item.prior = 0 then some (q.put item, .idle)
    else if hint ≤ q.items.length then some (q, .parking item)
    else some (q, .awake item)
  | .parking item => some (q, .waiting item)
  | .waiting _ => none
  | .awake item => if q.items.length < hint then some (q, .putting item) else some (q, .passed item)
  | .putting item => some (q.put item, .idle)

/-- The check of `SendCtrlPacket` and `SendDataPacket`; a refused call returns its error. The
id of the connection is not counted in the data. -/
def accepts (s : Client) (item : SendItem) : Bool :=
  item.value.length ≤ (if item.prior = 0 then 2048 else 2049) ∧ s.status = .confirmed ∧
    item.prior ≤ 2

def mainStep (s : Client) (woken : Option Nat) : Option Client :=
  match s.main with
  | .waiting =>
    if s.writer = .ended ∧ s.reader ≠ .running then some { s with main := .returned } else none
  | .returned => some { s with status := .disconnected, main := .statusSet }
  | .statusSet => some { s with pingDone := true, main := .pingsStopped }
  | .pingsStopped => some { s with queue := ⟨[], true⟩, main := .disposed }
  | .disposed =>
    (wake s.callers woken).map fun callers => { s with callers := callers, main := .signalled }
  | .signalled => some { s with main := .closed }
  | .closed => none

def step (s : Client) : Act → Option Client
  | .handshake =>
    if s.reader = .running ∧ s.status = .connecting then some { s with status := .unconfirmed }
    else none
  | .confirm pings =>
    if s.reader = .running ∧ s.status = .unconfirmed then
      some { s with status := .confirmed, pinger := if pings then .due else s.pinger }
    else none
  | .pong data =>
    if s.reader = .running ∧ accepts s ⟨data, 0⟩ then
      some { s with queue := s.queue.put ⟨data, 0⟩ }
    else none
  | .eof =>
    if s.reader = .running then some { s with reader := .ended true, status := .disconnected }
    else none
  | .readFail => if s.reader = .running then some { s with reader := .ended false } else none
  | .get i =>
    if s.writer = .waiting ∧ s.queue.disposed = false then
      s.queue.items[i]?.bind fun item =>
        if s.queue.items.all fun x => item.prior ≤ x.prior then
          some { s with
            queue := { s.queue with items := s.queue.items.eraseIdx i }
            writer := .signalling }
        else none
    else none
  | .signal woken =>
    if s.writer = .signalling then
      (wake s.callers woken).map fun callers => { s with callers := callers, writer := .writing }
    else none
  | .getDisposed =>
    if s.writer = .waiting ∧ s.queue.disposed = true then some { s with writer := .ended } else none
  | .wrote => if s.writer = .writing then some { s with writer := .waiting } else none
  | .writeFail => if s.writer = .writing then some { s with writer := .ended } else none
  | .pingCheck =>
    if s.pinger = .due then
      some { s with pinger := if s.status = .confirmed then .passed else .sleeping }
    else none
  | .pingPut data =>
    if s.pinger = .passed then
      some { s with queue := s.queue.put ⟨data, 0⟩, pinger := .sleeping }
    else none
  | .pingTick => if s.pinger = .sleeping then some { s with pinger := .due } else none
  | .pingStop =>
    if s.pinger = .sleeping ∧ s.pingDone = true then some { s with pinger := .ended } else none
  | .call k item =>
    match s.callers[k]? with
    | some .idle =>
      if accepts s item then some { s with callers := s.callers.set k (.passed item) } else some s
    | _ => none
  | .go k =>
    s.callers[k]?.bind fun c => (senderStep s.queue c).map fun r =>
      { s with queue := r.1, callers := s.callers.set k r.2 }
  | .main woken => mainStep s woken

def Sender.able : Sender → Bool
  | .passed _ | .awake _ | .putting _ => true
  | _ => false

/-- The reader has ended on EOF and the writer waits for a packet that nobody can send. -/
structure Stuck (s : Client) : Prop where
  reader : s.reader = .ended true
  writer : s.writer = .waiting
  empty : s.queue.items = []
  undisposed : s.queue.disposed = false
  refused : s.status ≠ .confirmed
  callers : ∀ c ∈ s.callers, c.able = false
  pinger : s.pinger ≠ .passed

theorem refused_of_status (h : s.status ≠ .confirmed) (item : SendItem) :
    accepts s item = false := by
  simp [accepts, h]

theorem senderStep_unable (h : senderStep q c = some (q', c')) (unable : c.able = false) :
    q' = q ∧ c'.able = false := by
  cases c with
  | idle | waiting item => cases h
  | parking item =>
    cases h
    exact ⟨rfl, rfl⟩
  | passed item | awake item | putting item => cases unable

theorem Stuck.stays (h : Stuck s) (waits : s.main = .waiting) (taken : step s a = some t) :
    Stuck t ∧ t.main = .waiting := by
  have running : s.reader ≠ .running := by
    rw [h.reader]
    rintro ⟨⟩
  cases a with
  | handshake | eof | readFail => simp [step, running] at taken
  | confirm pings => simp [step, running] at taken
  | pong data => simp [step, running] at taken
  | get i => simp [step, h.empty] at taken
  | signal woken => simp [step, h.writer] at taken
  | getDisposed => simp [step, h.undisposed] at taken
  | wrote => simp [step, h.writer] at taken
  | writeFail => simp [step, h.writer] at taken
  | pingPut data => simp [step, h.pinger] at taken
  | pingCheck =>
    simp only [step, if_neg h.refused] at taken
    split_ifs at taken
    cases taken
    exact ⟨⟨h.reader, h.writer, h.empty, h.undisposed, h.refused, h.callers, by rintro ⟨⟩⟩, waits⟩
  | pingTick =>
    simp only [step] at taken
    split_ifs at taken
    cases taken
    exact ⟨⟨h.reader, h.writer, h.empty, h.undisposed, h.refused, h.callers, by rintro ⟨⟩⟩, waits⟩
  | pingStop =>
    simp only [step] at taken
    split_ifs at taken
    cases taken
    exact ⟨⟨h.reader, h.writer, h.empty, h.undisposed, h.refused, h.callers, by rintro ⟨⟩⟩, waits⟩
  | call k item =>
    simp only [step, refused_of_status h.refused] at taken
    split at taken
    · cases taken
      exact ⟨h, waits⟩
    · cases taken
  | go k =>
    obtain ⟨c, hc, taken⟩ := Option.bind_eq_some_iff.mp taken
    obtain ⟨⟨q, c'⟩, made, rfl⟩ := Option.map_eq_some_iff.mp taken
    obtain ⟨rfl, unable⟩ := senderStep_unable made (h.callers c (List.mem_of_getElem? hc))
    refine ⟨⟨h.reader, h.writer, h.empty, h.undisposed, h.refused, ?_, h.pinger⟩, waits⟩
    intro x hx
    rcases List.mem_or_eq_of_mem_set hx with old | rfl
    · exact h.callers x old
    · exact unable
  | main woken =>
    simp [step, mainStep, waits, h.writer] at taken

theorem Stuck.forever {acts : List Act} (h : Stuck s) (waits : s.main = .waiting)
    (run : exec step s acts = some t) : Stuck t ∧ t.main = .waiting :=
  exec_invariant (P := fun s => Stuck s ∧ s.main = .waiting)
    (fun _ _ _ h taken => h.1.stays h.2 taken) ⟨h, waits⟩ run

def CanClose (s : Client) : Prop := ∃ acts t, exec step s acts = some t ∧ t.main = .closed

theorem CanClose.of_step (taken : step s a = some t) (h : CanClose t) : CanClose s := by
  obtain ⟨acts, u, run, closed⟩ := h
  exact ⟨a :: acts, u, exec_cons_iff.mpr ⟨t, taken, run⟩, closed⟩

theorem exists_wake (callers : List Sender) : ∃ woken cs, wake callers woken = some cs := by
  cases waits : callers.any Sender.isWaiting with
  | false => exact ⟨none, callers, by simp [wake, waits]⟩
  | true =>
    obtain ⟨c, hc, waiting⟩ := List.any_eq_true.mp waits
    obtain ⟨k, hk⟩ := List.mem_iff_getElem?.mp hc
    cases c with
    | waiting item => exact ⟨some k, callers.set k (.awake item), by simp [wake, hk]⟩
    | idle | passed item | parking item | awake item | putting item => cases waiting

theorem canClose_of_returned (reader : s.reader ≠ .running) (writer : s.writer = .ended) :
    CanClose s := by
  have closed : ∀ s : Client, s.main = .closed → CanClose s := fun s h => ⟨[], s, rfl, h⟩
  have signalled : ∀ s : Client, s.main = .signalled → CanClose s := by
    intro s h
    refine .of_step (a := .main none) (t := { s with main := .closed }) ?_ (closed _ rfl)
    simp [step, mainStep, h]
  have disposed : ∀ s : Client, s.main = .disposed → CanClose s := by
    intro s h
    obtain ⟨woken, cs, woke⟩ := exists_wake s.callers
    refine .of_step (a := .main woken) (t := { s with callers := cs, main := .signalled }) ?_
      (signalled _ rfl)
    simp [step, mainStep, h, woke]
  have pingsStopped : ∀ s : Client, s.main = .pingsStopped → CanClose s := by
    intro s h
    refine .of_step (a := .main none) (t := { s with queue := ⟨[], true⟩, main := .disposed }) ?_
      (disposed _ rfl)
    simp [step, mainStep, h]
  have statusSet : ∀ s : Client, s.main = .statusSet → CanClose s := by
    intro s h
    refine .of_step (a := .main none) (t := { s with pingDone := true, main := .pingsStopped }) ?_
      (pingsStopped _ rfl)
    simp [step, mainStep, h]
  have returned : ∀ s : Client, s.main = .returned → CanClose s := by
    intro s h
    refine .of_step (a := .main none) (t := { s with
      status := .disconnected, main := .statusSet }) ?_ (statusSet _ rfl)
    simp [step, mainStep, h]
  cases h : s.main with
  | waiting =>
    refine .of_step (a := .main none) (t := { s with main := .returned }) ?_ (returned _ rfl)
    simp [step, mainStep, h, reader, writer]
  | returned => exact returned s h
  | statusSet => exact statusSet s h
  | pingsStopped => exact pingsStopped s h
  | disposed => exact disposed s h
  | signalled => exact signalled s h
  | closed => exact closed s h

theorem canClose_of_writing (reader : s.reader ≠ .running) (writer : s.writer = .writing) :
    CanClose s := by
  refine .of_step (a := .writeFail) (t := { s with writer := .ended }) ?_
    (canClose_of_returned reader rfl)
  simp [step, writer]

theorem canClose_of_signalling (reader : s.reader ≠ .running) (writer : s.writer = .signalling) :
    CanClose s := by
  obtain ⟨woken, cs, woke⟩ := exists_wake s.callers
  refine .of_step (a := .signal woken) (t := { s with callers := cs, writer := .writing }) ?_
    (canClose_of_writing reader rfl)
  simp [step, writer, woke]

theorem exists_first {items : List SendItem} (some_ : items ≠ []) :
    ∃ (i : Nat) (item : SendItem), items[i]? = some item ∧ ∀ x ∈ items, item.prior ≤ x.prior := by
  obtain ⟨item, mem, least⟩ := Multiset.exists_min_image (fun x : SendItem => x.prior)
    (s := (items : Multiset SendItem)) (by simpa using some_)
  obtain ⟨i, hi⟩ := List.mem_iff_getElem?.mp (Multiset.mem_coe.mp mem)
  exact ⟨i, item, hi, fun x hx => least x (Multiset.mem_coe.mpr hx)⟩

theorem canClose_of_items (reader : s.reader ≠ .running) (writer : s.writer = .waiting)
    (undisposed : s.queue.disposed = false) (some_ : s.queue.items ≠ []) : CanClose s := by
  obtain ⟨i, item, hi, first⟩ := exists_first some_
  refine .of_step (a := .get i) (t := { s with
    queue := { s.queue with items := s.queue.items.eraseIdx i }, writer := .signalling }) ?_
    (canClose_of_signalling reader rfl)
  simpa [step, writer, undisposed, hi] using first

def Pending (s : Client) : Prop :=
  s.queue.items ≠ [] ∨ (∃ c ∈ s.callers, c.able = true) ∨ s.pinger = .passed

def Draining (s : Client) : Prop := s.writer ≠ .waiting ∨ Pending s

theorem Draining.not_stuck (h : Draining s) : ¬ Stuck s := by
  intro stuck
  rcases h with busy | some_ | ⟨c, hc, able⟩ | passed
  · exact busy stuck.writer
  · exact some_ stuck.empty
  · rw [stuck.callers c hc] at able
    cases able
  · exact stuck.pinger passed

theorem canClose_of_able (reader : s.reader ≠ .running) (writer : s.writer = .waiting)
    (undisposed : s.queue.disposed = false) (empty : s.queue.items = []) {k : Nat}
    (at_ : s.callers[k]? = some c) (able : c.able = true) : CanClose s := by
  have put : ∀ item, s.queue.put item = ⟨[item], false⟩ := fun item => by
    simp [SendQueue.put, undisposed, empty]
  have arrives : ∀ (s' : Client) item callers, s'.reader = s.reader → s'.writer = s.writer →
      CanClose { s' with queue := ⟨[item], false⟩, callers := callers } := by
    intro s' item callers reader' writer'
    exact canClose_of_items (by rw [reader']; exact reader) (writer'.trans writer) rfl (by simp)
  have putting : ∀ (callers : List Sender) item, callers[k]? = some (.putting item) →
      CanClose { s with callers := callers } := by
    intro callers item here
    refine .of_step (a := .go k) (t := { s with
      queue := ⟨[item], false⟩, callers := callers.set k .idle }) ?_ (arrives s item _ rfl rfl)
    simp [step, here, senderStep, put]
  have awake : ∀ (callers : List Sender) item, callers[k]? = some (.awake item) →
      CanClose { s with callers := callers } := by
    intro callers item here
    refine .of_step (a := .go k) (t := { s with callers := callers.set k (.putting item) }) ?_
      (putting _ item ?_)
    · simp [step, here, senderStep, empty, hint]
    · grind
  cases c with
  | idle | parking item | waiting item => cases able
  | putting item => exact putting s.callers item at_
  | awake item => exact awake s.callers item at_
  | passed item =>
    by_cases high : item.prior = 0
    · refine .of_step (a := .go k) (t := { s with
        queue := ⟨[item], false⟩, callers := s.callers.set k .idle }) ?_ (arrives s item _ rfl rfl)
      simp [step, at_, senderStep, high, put]
    · refine .of_step (a := .go k) (t := { s with callers := s.callers.set k (.awake item) }) ?_
        (awake _ item ?_)
      · simp [step, at_, senderStep, high, empty, hint]
      · grind

theorem Draining.canClose (h : Draining s) (reader : s.reader ≠ .running)
    (undisposed : s.writer = .waiting → s.queue.disposed = false) : CanClose s := by
  cases writer : s.writer with
  | ended => exact canClose_of_returned reader writer
  | writing => exact canClose_of_writing reader writer
  | signalling => exact canClose_of_signalling reader writer
  | waiting =>
    have undisposed := undisposed writer
    by_cases empty : s.queue.items = []
    · rcases h with busy | some_ | ⟨c, hc, able⟩ | passed
      · exact absurd writer busy
      · exact absurd empty some_
      · obtain ⟨k, hk⟩ := List.mem_iff_getElem?.mp hc
        exact canClose_of_able reader writer undisposed empty hk able
      · refine .of_step (a := .pingPut [4]) (t := { s with
          queue := ⟨[⟨[4], 0⟩], false⟩, pinger := .sleeping }) ?_
          (canClose_of_items reader writer rfl (by simp))
        simp [step, passed, SendQueue.put, undisposed, empty]
    · exact canClose_of_items reader writer undisposed empty

structure Ordered (s : Client) : Prop where
  main : s.main ≠ .waiting → s.writer = .ended ∧ s.reader ≠ .running
  disposed : s.queue.disposed = true → s.main ≠ .waiting
  eof : s.reader = .ended true → s.status = .disconnected

/-- At EOF the writer is not left waiting for a packet, and after it a write succeeds only
while there is another one. -/
def Ends (s : Client) : Act → Prop
  | .eof => Draining s
  | .wrote => s.reader = .ended true → Pending s
  | _ => True

theorem put_disposed (q : SendQueue) (item : SendItem) : (q.put item).disposed = q.disposed := by
  unfold SendQueue.put
  split_ifs <;> rfl

theorem put_items (undisposed : q.disposed = false) (item : SendItem) :
    (q.put item).items ≠ [] := by
  simp [SendQueue.put, undisposed]

theorem senderStep_disposed (h : senderStep q c = some (q', c')) : q'.disposed = q.disposed := by
  cases c with
  | idle | waiting item => cases h
  | passed item =>
    simp only [senderStep] at h
    split_ifs at h <;> cases h
    · exact put_disposed q item
    · rfl
    · rfl
  | parking item =>
    cases h
    rfl
  | awake item => grind [senderStep]
  | putting item =>
    cases h
    exact put_disposed q item

theorem senderStep_drains (undisposed : q.disposed = false) (h : senderStep q c = some (q', c')) :
    (q.items ≠ [] → q'.items ≠ []) ∧ (c.able = true → c'.able = true ∨ q'.items ≠ []) := by
  cases c with
  | idle | waiting item => cases h
  | passed item =>
    simp only [senderStep] at h
    split_ifs at h with high full <;> cases h
    · exact ⟨fun _ => put_items undisposed item, fun _ => Or.inr (put_items undisposed item)⟩
    · refine ⟨id, fun _ => Or.inr fun empty => ?_⟩
      rw [empty] at full
      exact absurd full (by decide)
    · exact ⟨id, fun _ => Or.inl rfl⟩
  | parking item =>
    cases h
    exact ⟨id, fun able => by cases able⟩
  | awake item =>
    simp only [senderStep] at h
    split_ifs at h <;> cases h
    · exact ⟨id, fun _ => Or.inl rfl⟩
    · exact ⟨id, fun _ => Or.inl rfl⟩
  | putting item =>
    cases h
    exact ⟨fun _ => put_items undisposed item, fun _ => Or.inr (put_items undisposed item)⟩

theorem mainStep_ordered {woken : Option Nat} (h : Ordered s) (taken : mainStep s woken = some t) :
    Ordered t ∧ t.writer = .ended ∧ t.reader = s.reader ∧ s.writer = .ended := by
  unfold mainStep at taken
  split at taken
  · split_ifs at taken with ended
    cases taken
    exact ⟨⟨fun _ => ended, fun _ => by rintro ⟨⟩, h.eof⟩, ended.1, rfl, ended.1⟩
  all_goals rename_i at_
  all_goals have ended := h.main (by rw [at_]; rintro ⟨⟩)
  · cases taken
    exact ⟨⟨fun _ => ended, fun _ => by rintro ⟨⟩, fun _ => rfl⟩, ended.1, rfl, ended.1⟩
  · cases taken
    exact ⟨⟨fun _ => ended, fun _ => by rintro ⟨⟩, h.eof⟩, ended.1, rfl, ended.1⟩
  · cases taken
    exact ⟨⟨fun _ => ended, fun _ => by rintro ⟨⟩, h.eof⟩, ended.1, rfl, ended.1⟩
  · obtain ⟨callers, -, rfl⟩ := Option.map_eq_some_iff.mp taken
    exact ⟨⟨fun _ => ended, fun _ => by rintro ⟨⟩, h.eof⟩, ended.1, rfl, ended.1⟩
  · cases taken
    exact ⟨⟨fun _ => ended, fun _ => by rintro ⟨⟩, h.eof⟩, ended.1, rfl, ended.1⟩
  · cases taken

theorem step_ordered (h : Ordered s) (taken : step s a = some t) : Ordered t := by
  cases a with
  | main woken => exact (mainStep_ordered h taken).1
  | call k item =>
    simp only [step] at taken
    split at taken
    · split_ifs at taken
      · cases taken
        exact ⟨h.main, h.disposed, h.eof⟩
      · cases taken
        exact h
    · cases taken
  | go k =>
    obtain ⟨c, -, taken⟩ := Option.bind_eq_some_iff.mp taken
    obtain ⟨⟨q, c'⟩, made, rfl⟩ := Option.map_eq_some_iff.mp taken
    refine ⟨h.main, ?_, h.eof⟩
    simp only [senderStep_disposed made]
    exact h.disposed
  | get i =>
    simp only [step] at taken
    split_ifs at taken with ready
    obtain ⟨item, -, taken⟩ := Option.bind_eq_some_iff.mp taken
    split_ifs at taken
    cases taken
    exact ⟨fun past => absurd (h.main past).1 (by rw [ready.1]; rintro ⟨⟩), h.disposed, h.eof⟩
  | signal woken =>
    simp only [step] at taken
    split_ifs at taken with ready
    obtain ⟨callers, -, rfl⟩ := Option.map_eq_some_iff.mp taken
    exact ⟨fun past => absurd (h.main past).1 (by rw [ready]; rintro ⟨⟩), h.disposed, h.eof⟩
  | wrote =>
    simp only [step] at taken
    split_ifs at taken with ready
    cases taken
    exact ⟨fun past => absurd (h.main past).1 (by rw [ready]; rintro ⟨⟩), h.disposed, h.eof⟩
  | getDisposed | writeFail =>
    simp only [step] at taken
    split_ifs at taken
    cases taken
    exact ⟨fun past => ⟨rfl, (h.main past).2⟩, h.disposed, h.eof⟩
  | handshake | confirm pings =>
    simp only [step] at taken
    split_ifs at taken with ready
    all_goals
      cases taken
      exact ⟨h.main, h.disposed, fun eof => absurd (ready.1.symm.trans eof) (by rintro ⟨⟩)⟩
  | eof =>
    simp only [step] at taken
    split_ifs at taken with ready
    cases taken
    exact ⟨fun past => absurd ready (h.main past).2, h.disposed, fun _ => rfl⟩
  | readFail =>
    simp only [step] at taken
    split_ifs at taken with ready
    cases taken
    exact ⟨fun past => absurd ready (h.main past).2, h.disposed, by rintro ⟨⟩⟩
  | pong data | pingPut data =>
    simp only [step] at taken
    split_ifs at taken
    cases taken
    refine ⟨h.main, ?_, h.eof⟩
    simp only [put_disposed]
    exact h.disposed
  | pingCheck | pingTick | pingStop =>
    simp only [step] at taken
    split_ifs at taken
    all_goals
      cases taken
      exact ⟨h.main, h.disposed, h.eof⟩

theorem Ordered.undisposed (h : Ordered s) (writer : s.writer = .waiting) :
    s.queue.disposed = false := by
  by_contra disposed
  have ended := (h.main (h.disposed (Bool.eq_true_of_not_eq_false disposed))).1
  rw [writer] at ended
  cases ended

theorem Draining.of_same (h : Draining s) (writer : t.writer = s.writer) (queue : t.queue = s.queue)
    (callers : t.callers = s.callers) (pinger : s.pinger = .passed → t.pinger = .passed) :
    Draining t := by
  unfold Draining Pending
  rw [writer, queue, callers]
  exact h.imp_right (Or.imp_right (Or.imp_right pinger))

theorem step_draining (h : Ordered s) (before : s.reader = .ended true → Draining s)
    (ends : Ends s a) (taken : step s a = some t) (eof : t.reader = .ended true) : Draining t := by
  cases a with
  | main woken =>
    refine Or.inl ?_
    rw [(mainStep_ordered h taken).2.1]
    rintro ⟨⟩
  | eof =>
    simp only [step] at taken
    split_ifs at taken
    cases taken
    have drains : Draining s := ends
    exact drains.of_same rfl rfl rfl id
  | readFail =>
    simp only [step] at taken
    split_ifs at taken
    cases taken
    cases eof
  | handshake | confirm pings | pong data =>
    simp only [step] at taken
    split_ifs at taken with ready
    all_goals
      cases taken
      exact absurd (ready.1.symm.trans eof) (by rintro ⟨⟩)
  | get i =>
    simp only [step] at taken
    split_ifs at taken
    obtain ⟨item, -, taken⟩ := Option.bind_eq_some_iff.mp taken
    split_ifs at taken
    cases taken
    exact Or.inl (by rintro ⟨⟩)
  | signal woken =>
    simp only [step] at taken
    split_ifs at taken
    obtain ⟨callers, -, rfl⟩ := Option.map_eq_some_iff.mp taken
    exact Or.inl (by rintro ⟨⟩)
  | getDisposed | writeFail =>
    simp only [step] at taken
    split_ifs at taken
    cases taken
    exact Or.inl (by rintro ⟨⟩)
  | wrote =>
    simp only [step] at taken
    split_ifs at taken
    cases taken
    exact Or.inr (ends eof)
  | pingCheck | pingTick | pingStop =>
    simp only [step] at taken
    split_ifs at taken with ready
    all_goals
      cases taken
      refine (before eof).of_same rfl rfl rfl fun passed => ?_
      simp_all
  | pingPut data =>
    simp only [step] at taken
    split_ifs at taken
    cases taken
    by_cases writer : s.writer = .waiting
    · exact Or.inr (Or.inl (put_items (h.undisposed writer) _))
    · exact Or.inl writer
  | call k item =>
    simp only [step] at taken
    split at taken
    · split_ifs at taken with accepted
      · cases taken
        have status : s.status ≠ .confirmed := by
          rw [h.eof eof]
          rintro ⟨⟩
        rw [refused_of_status status] at accepted
        cases accepted
      · cases taken
        exact before eof
    · cases taken
  | go k =>
    obtain ⟨c, hc, taken⟩ := Option.bind_eq_some_iff.mp taken
    obtain ⟨⟨q, c'⟩, made, rfl⟩ := Option.map_eq_some_iff.mp taken
    by_cases writer : s.writer = .waiting
    · obtain ⟨keeps, able⟩ := senderStep_drains (h.undisposed writer) made
      obtain ⟨inside, same⟩ := List.getElem?_eq_some_iff.mp hc
      rcases before eof with busy | some_ | ⟨x, hx, hable⟩ | passed
      · exact absurd writer busy
      · exact Or.inr (Or.inl (keeps some_))
      · obtain ⟨j, hj⟩ := List.mem_iff_getElem?.mp hx
        by_cases hjk : j = k
        · subst j
          obtain rfl := Option.some.inj (hj.symm.trans hc)
          rcases able hable with still | put
          · exact Or.inr (Or.inr (Or.inl ⟨c', List.mem_set inside _, still⟩))
          · exact Or.inr (Or.inl put)
        · refine Or.inr (Or.inr (Or.inl ⟨x, List.mem_iff_getElem?.mpr ⟨j, ?_⟩, hable⟩))
          rw [List.getElem?_set_ne (Ne.symm hjk)]
          exact hj
      · exact Or.inr (Or.inr (Or.inr passed))
    · exact Or.inl writer

theorem stuck_of_not_pending (h : Ordered s) (eof : s.reader = .ended true)
    (writer : s.writer = .waiting) (none_ : ¬ Pending s) : Stuck s := by
  unfold Pending at none_
  push Not at none_
  refine ⟨eof, writer, none_.1, h.undisposed writer, ?_, fun c hc => ?_, none_.2.2⟩
  · rw [h.eof eof]
    rintro ⟨⟩
  · exact Bool.eq_false_of_not_eq_true (none_.2.1 c hc)

theorem connected_ordered (n : Nat) : Ordered (connected n) :=
  ⟨fun past => absurd rfl past, by rintro ⟨⟩, by rintro ⟨⟩⟩

theorem stuck_of_not_ends (h : Ordered s) (taken : step s a = some t) (not_ : ¬ Ends s a) :
    t.reader = .ended true ∧ Stuck t := by
  have ordered := step_ordered h taken
  unfold Ends at not_
  split at not_
  · simp only [step] at taken
    split_ifs at taken
    cases taken
    obtain ⟨writer, none_⟩ := not_or.mp not_
    exact ⟨rfl, stuck_of_not_pending ordered rfl (not_not.mp writer) none_⟩
  · simp only [step] at taken
    split_ifs at taken
    cases taken
    obtain ⟨eof, none_⟩ := Classical.not_imp.mp not_
    exact ⟨eof, stuck_of_not_pending ordered eof rfl none_⟩
  · exact absurd trivial not_

/-- After EOF a run is never stuck and can always go on to `OnClosed`, exactly if at EOF the
writer is not left waiting for a packet and after it a write succeeds only while there is
another one. -/
theorem winds_down_iff {n : Nat} {acts : List Act} {s : Client}
    (run : exec step (connected n) acts = some s) :
    (∀ pre post m, acts = pre ++ post → exec step (connected n) pre = some m →
      m.reader = .ended true → ¬ Stuck m ∧ CanClose m) ↔ Along step Ends (connected n) acts := by
  constructor
  · intro winds pre e post m cut before
    rw [cut] at run
    obtain ⟨m₁, hm₁, rest⟩ := exec_append_iff.mp run
    obtain rfl := Option.some.inj (hm₁.symm.trans before)
    obtain ⟨m', taken, -⟩ := exec_cons_iff.mp rest
    have ordered := exec_invariant (fun _ _ _ h taken => step_ordered h taken)
      (connected_ordered n) hm₁
    by_contra not_
    obtain ⟨eof, stuck⟩ := stuck_of_not_ends ordered taken not_
    exact (winds (pre ++ [e]) post m' (by simp [cut])
      (exec_snoc_iff.mpr ⟨m₁, hm₁, taken⟩) eof).1 stuck
  · intro ends pre post m cut before eof
    rw [cut] at ends
    obtain ⟨ordered, drains⟩ := exec_invariant_along
      (P := fun s => Ordered s ∧ (s.reader = .ended true → Draining s))
      (fun _ _ _ h ends taken => ⟨step_ordered h.1 taken, step_draining h.1 h.2 ends taken⟩)
      ⟨connected_ordered n, by rintro ⟨⟩⟩ (along_append_left ends) before
    have running : m.reader ≠ .running := by
      rw [eof]
      rintro ⟨⟩
    exact ⟨(drains eof).not_stuck, (drains eof).canClose running ordered.undisposed⟩

def eofWhileWriting : List Act :=
  [.handshake, .confirm true, .pingCheck, .pingPut [4, 1], .get 0, .signal none, .eof]

theorem eof_while_writing_ends :
    ∃ s, exec step (connected 1) eofWhileWriting = some s ∧ s.reader = .ended true ∧
      ¬ Stuck s ∧ CanClose s := by
  have reader : (exec step (connected 1) eofWhileWriting).map (fun s => s.reader) =
      some (.ended true) := by decide
  obtain ⟨s, run, eof⟩ := Option.map_eq_some_iff.mp reader
  have ends : Along step Ends (connected 1) eofWhileWriting := by
    refine along_of_check (c := fun s a => match a with
      | .eof => decide (s.writer ≠ .waiting)
      | .wrote => false
      | _ => true) ?_ (by decide)
    intro m e meets
    unfold Ends
    split
    · exact Or.inl (of_decide_eq_true meets)
    · cases meets
    · trivial
  exact ⟨s, run, eof, (winds_down_iff run).mpr ends eofWhileWriting [] s (by simp) run eof⟩

def eofWhileWaiting : List Act :=
  [.handshake, .confirm true, .pingCheck, .pingPut [4, 1], .get 0, .signal none, .wrote, .eof]

/-- Nothing that the client can do from then on gets `runmainproc` out of `wg.Wait`. -/
theorem eof_while_waiting_stuck :
    ∃ s, exec step (connected 1) eofWhileWaiting = some s ∧ Stuck s ∧
      ∀ acts t, exec step s acts = some t → t.main = .waiting := by
  have loops : (exec step (connected 1) eofWhileWaiting).map
      (fun s => (s.reader, s.writer, s.pinger, s.main)) =
      some (.ended true, .waiting, .sleeping, .waiting) := by decide
  have shared : (exec step (connected 1) eofWhileWaiting).map
      (fun s => (s.queue.items.length, s.queue.disposed, s.callers.all fun c => c.able = false)) =
      some (0, false, true) := by decide
  obtain ⟨s, run, loops⟩ := Option.map_eq_some_iff.mp loops
  rw [run, Option.map_some] at shared
  have ordered := exec_invariant (fun _ _ _ h taken => step_ordered h taken)
    (connected_ordered 1) run
  simp only [Prod.mk.injEq, Option.some.injEq, List.length_eq_zero_iff, List.all_eq_true,
    decide_eq_true_eq] at loops shared
  obtain ⟨reader, writer, pinger, waits⟩ := loops
  obtain ⟨empty, -, callers⟩ := shared
  have none_ : ¬ Pending s := by
    rintro (some_ | ⟨c, hc, able⟩ | passed)
    · exact some_ empty
    · rw [callers c hc] at able
      cases able
    · rw [pinger] at passed
      cases passed
  have stuck := stuck_of_not_pending ordered reader writer none_
  exact ⟨s, run, stuck, fun acts t later => (stuck.forever waits later).2⟩

end TcpClient.WindDown
