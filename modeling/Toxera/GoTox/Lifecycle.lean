import Toxera.Lib.Exec
import Toxera.GoTox.TcpClient

/-!
# Connecting and closing

`Connect`, `Close`, `startIO`, `sendPlaintext`, `handleDisconnect` and the three loops of
`go-tox-tcpclient/tcpclient.go` as they share the client: every section under the lock and
every call into the network is a step of its own, and the steps of any number of calls
interleave.
-/

namespace GoTox.Lifecycle

open CryptoCore Exec

/-- Where a call of `Connect` is; the connection it has dialed is known by its number. -/
inductive Stage where
  | idle
  | dialed (n : Nat)
  | connecting (n : Nat)
  | wrote (n : Nat)
  | unconfirmed (n : Nat)
  | answered
  /-- the status is set and `startIO` is the next step -/
  | confirmed
  | started
  /-- the connection is to be closed after an error -/
  | broken (n : Nat)
  /-- the status is to be reset after an error -/
  | failing
  deriving DecidableEq

inductive Writer where
  | waiting
  | writing (plain : Bytes)
  /-- the connection has been read under the lock -/
  | sending (n : Nat)
  /-- a write has failed and `handleDisconnect` is the next step -/
  | failed
  | ended
  deriving DecidableEq

/-- A read loop or a ping loop. -/
inductive Loop where
  | running
  | failed
  | ended
  deriving DecidableEq

structure Client where
  status : ClientStatus
  /-- `doneCh` is closed -/
  done : Bool
  conn : Option Nat
  dialed : Nat
  closed : Nat → Bool
  writeCh : List Bytes
  calls : Nat → Stage
  writers : List Writer
  readers : List Loop
  pingers : List Loop
  /-- what the write loops have taken from the channel -/
  taken : List Bytes

def new : Client where
  status := .noStatus
  done := false
  conn := none
  dialed := 0
  closed := fun _ => false
  writeCh := []
  calls := fun _ => .idle
  writers := []
  readers := []
  pingers := []
  taken := []

inductive ConnectAct where
  | dial (ok : Bool)
  | enter
  | write (ok : Bool)
  | unconfirm
  | read (ok : Bool)
  | confirm
  /-- `startIO` -/
  | startLoops
  | ping (plain : Bytes) (queued : Bool)
  | closeConn
  | fail

inductive WriterAct where
  | take
  | stop
  | skip
  | hold
  | write (ok : Bool)
  | disconnect

variable {a : WriterAct} {c : TCPClient} {k n w : Nat} {l l' : Writer} {plain : Bytes}
  {queued : Bool} {rest : List Bytes} {s s' t : Client} {stage stage' : Stage}

inductive LoopAct where
  | fail
  | stop
  | disconnect

inductive Act where
  | connect (k : Nat) (a : ConnectAct)
  | close
  | send (plain : Bytes) (queued : Bool)
  | writer (w : Nat) (a : WriterAct)
  | reader (r : Nat) (a : LoopAct)
  | pinger (p : Nat) (a : LoopAct)

/-- The two branches of the select: the channel takes the packet, or `doneCh` is closed. -/
def sendPlaintext (s : Client) (plain : Bytes) (queued : Bool) : Option Client :=
  if queued then
    if s.writeCh.length < 64 then some { s with writeCh := s.writeCh ++ [plain] } else none
  else if s.done then some s else none

def Client.closeConn (s : Client) (n : Nat) : Client :=
  { s with closed := Function.update s.closed n true }

/-- The socket of the current connection is closed, if there is one. -/
def Client.closeCurrent (s : Client) : Client :=
  match s.conn with
  | none => s
  | some n => s.closeConn n

/-- One step of `Connect`. -/
def connectStep (s : Client) : Stage → ConnectAct → Option (Client × Stage)
  | .idle, .dial ok =>
    if ok then some ({ s with dialed := s.dialed + 1 }, .dialed s.dialed) else some (s, .failing)
  | .dialed n, .enter => some ({ s with conn := some n, status := .connecting }, .connecting n)
  | .connecting n, .write ok =>
    if ok then if s.closed n then none else some (s, .wrote n) else some (s, .broken n)
  | .wrote n, .unconfirm => some ({ s with status := .unconfirmed }, .unconfirmed n)
  | .unconfirmed n, .read ok =>
    if ok then if s.closed n then none else some (s, .answered) else some (s, .broken n)
  | .answered, .confirm => some ({ s with status := .confirmed }, .confirmed)
  | .confirmed, .startLoops =>
    some ({ s with
      writers := s.writers ++ [.waiting]
      readers := s.readers ++ [.running]
      pingers := s.pingers ++ [.running] }, .started)
  | .started, .ping plain queued => (sendPlaintext s plain queued).map fun s' => (s', .idle)
  | .broken n, .closeConn => some (s.closeConn n, .failing)
  | .failing, .fail => some ({ s with status := .disconnected }, .idle)
  | _, _ => none

/-- The section of `Close` under the lock. -/
def close (s : Client) : Client :=
  { s.closeCurrent with done := true, status := .disconnected }

def handleDisconnect (s : Client) : Client :=
  { s.closeCurrent with done := true, conn := none, status := .disconnected }

/-- One step of a write loop; the loop may stop when `doneCh` is closed, also while there are
packets to take. -/
def writerStep (s : Client) : Writer → WriterAct → Option (Client × Writer)
  | .waiting, .take =>
    match s.writeCh with
    | [] => none
    | plain :: rest => some ({ s with writeCh := rest, taken := s.taken ++ [plain] }, .writing plain)
  | .waiting, .stop => if s.done then some (s, .ended) else none
  | .writing plain, .skip => if maxPacketSize < plain.length then some (s, .waiting) else none
  | .writing plain, .hold =>
    if maxPacketSize < plain.length then none
    else match s.conn with
      | none => some (s, .ended)
      | some n => some (s, .sending n)
  | .sending n, .write ok =>
    if ok then if s.closed n then none else some (s, .waiting) else some (s, .failed)
  | .failed, .disconnect => some (handleDisconnect s, .ended)
  | _, _ => none

/-- The read loop does not look at `doneCh`; packets that it dispatches change nothing here
but through `sendPlaintext`. -/
def readerStep (s : Client) : Loop → LoopAct → Option (Client × Loop)
  | .running, .fail => some (s, .failed)
  | .failed, .disconnect => some (handleDisconnect s, .ended)
  | _, _ => none

def pingerStep (s : Client) : Loop → LoopAct → Option (Client × Loop)
  | .running, .fail => some (s, .failed)
  | .running, .stop => if s.done then some (s, .ended) else none
  | .failed, .disconnect => some (handleDisconnect s, .ended)
  | _, _ => none

def step (s : Client) : Act → Option Client
  | .connect k a =>
    (connectStep s (s.calls k) a).map fun r =>
      { r.1 with calls := Function.update r.1.calls k r.2 }
  | .close => some (close s)
  | .send plain queued => sendPlaintext s plain queued
  | .writer w a =>
    s.writers[w]?.bind fun l => (writerStep s l a).map fun r =>
      { r.1 with writers := r.1.writers.set w r.2 }
  | .reader r a =>
    s.readers[r]?.bind fun l => (readerStep s l a).map fun x =>
      { x.1 with readers := x.1.readers.set r x.2 }
  | .pinger p a =>
    s.pingers[p]?.bind fun l => (pingerStep s l a).map fun x =>
      { x.1 with pingers := x.1.pingers.set p x.2 }

def isConnected (s : Client) : Bool := s.status = .confirmed

theorem sendPlaintext_cases (h : sendPlaintext s plain queued = some t) :
    t = { s with writeCh := s.writeCh ++ [plain] } ∨ s.done = true ∧ t = s := by
  unfold sendPlaintext at h
  split_ifs at h with hq room done
  · exact Or.inl (Option.some.inj h).symm
  · exact Or.inr ⟨done, (Option.some.inj h).symm⟩

/-- `doneCh` is open, there is a connection, and its loops run or are about to be started. -/
structure Live (s : Client) : Prop where
  opened : s.done = false
  conn : s.conn ≠ none
  loops : (∃ k, s.calls k = .confirmed) ∨
    (s.writers ≠ [] ∧ ∀ w ∈ s.writers, w ≠ .ended) ∧ s.readers ≠ [] ∧ ∀ r ∈ s.readers, r ≠ .ended

/-- A call of `Connect` that has set the connection and not yet started its loops. -/
def Stage.entered : Stage → Bool
  | .connecting _ | .wrote _ | .unconfirmed _ | .answered | .confirmed => true
  | _ => false

/-- While `doneCh` is open no loop has ended and the connection is still there. -/
structure Sound (s : Client) : Prop where
  writers : s.done = false → ∀ w ∈ s.writers, w ≠ .ended
  readers : s.done = false → ∀ r ∈ s.readers, r ≠ .ended
  conn : s.done = false → (s.writers ≠ [] ∨ ∃ k, (s.calls k).entered = true) → s.conn ≠ none
  loops : s.status = .confirmed →
    (∃ k, s.calls k = .confirmed) ∨ s.writers ≠ [] ∧ s.readers ≠ []

theorem Sound.live (h : Sound s) (confirmed : s.status = .confirmed) (opened : s.done = false) :
    Live s := by
  have loops := h.loops confirmed
  refine ⟨opened, h.conn opened ?_, ?_⟩
  · rcases loops with ⟨k, hk⟩ | ⟨some_, -⟩
    · exact Or.inr ⟨k, by rw [hk]; rfl⟩
    · exact Or.inl some_
  · rcases loops with starting | ⟨writers, readers⟩
    · exact Or.inl starting
    · exact Or.inr ⟨⟨writers, h.writers opened⟩, readers, h.readers opened⟩

theorem new_sound : Sound new where
  writers := fun _ _ h => by cases h
  readers := fun _ _ h => by cases h
  conn := by
    rintro - (some_ | ⟨k, hk⟩)
    · exact absurd rfl some_
    · cases hk
  loops := fun h => by cases h

theorem Sound.call (h : Sound s) (calls : s'.calls = s.calls) (done : s'.done = s.done)
    (writers : s'.writers = s.writers) (readers : s'.readers = s.readers)
    (conn : s.conn ≠ none → s'.conn ≠ none)
    (entered : stage.entered = true → s'.conn ≠ none ∨ (s.calls k).entered = true)
    (status : s'.status = .confirmed →
      stage = .confirmed ∨ s.status = .confirmed ∧ s.calls k ≠ .confirmed) :
    Sound { s' with calls := Function.update s'.calls k stage } := by
  refine ⟨?_, ?_, ?_, ?_⟩
  · intro opened
    simp only [writers]
    exact h.writers (done.symm.trans opened)
  · intro opened
    simp only [readers]
    exact h.readers (done.symm.trans opened)
  · intro opened used
    have opened : s.done = false := done.symm.trans opened
    rcases used with some_ | ⟨j, hj⟩
    · simp only [writers] at some_
      exact conn (h.conn opened (Or.inl some_))
    · by_cases same : j = k
      · subst j
        simp only [Function.update_self] at hj
        rcases entered hj with there | before
        · exact there
        · exact conn (h.conn opened (Or.inr ⟨k, before⟩))
      · simp only [Function.update_of_ne same, calls] at hj
        exact conn (h.conn opened (Or.inr ⟨j, hj⟩))
  · intro confirmed
    rcases status confirmed with rfl | ⟨before, other⟩
    · exact Or.inl ⟨k, by simp⟩
    · rcases h.loops before with ⟨j, hj⟩ | loops
      · have hne : j ≠ k := by
          rintro rfl
          exact other hj
        exact Or.inl ⟨j, by simp [Function.update_of_ne hne, calls, hj]⟩
      · grind

theorem Sound.pass (h : Sound s) (at_ : s.calls k = stage') (calls : s'.calls = s.calls)
    (done : s'.done = s.done) (writers : s'.writers = s.writers) (readers : s'.readers = s.readers)
    (conn : s'.conn = s.conn) (entered : stage.entered = true → stage'.entered = true)
    (status : s'.status = .confirmed → s.status = .confirmed) (other : stage' ≠ .confirmed) :
    Sound { s' with calls := Function.update s'.calls k stage } := by
  refine h.call calls done writers readers (by rw [conn]; exact id) ?_ ?_
  · intro in_
    rw [at_]
    exact Or.inr (entered in_)
  · grind

theorem Sound.startLoops (h : Sound s) (at_ : s.calls k = .confirmed) :
    Sound { s with
      writers := s.writers ++ [.waiting]
      readers := s.readers ++ [.running]
      pingers := s.pingers ++ [.running]
      calls := Function.update s.calls k .started } := by
  refine ⟨?_, ?_, ?_, ?_⟩
  · intro opened w hw
    rcases List.mem_append.mp hw with old | new
    · exact h.writers opened w old
    · rw [List.mem_singleton.mp new]
      rintro ⟨⟩
  · intro opened r hr
    rcases List.mem_append.mp hr with old | new
    · exact h.readers opened r old
    · rw [List.mem_singleton.mp new]
      rintro ⟨⟩
  · intro opened _
    exact h.conn opened (Or.inr ⟨k, by rw [at_]; rfl⟩)
  · intro _
    exact Or.inr ⟨by simp, by simp⟩

theorem Sound.connect (h : Sound s) {a : ConnectAct} (taken : step s (.connect k a) = some t) :
    Sound t := by
  obtain ⟨⟨s', stage⟩, made, rfl⟩ := Option.map_eq_some_iff.mp taken
  unfold connectStep at made
  split at made
  · -- dial
    rename_i ok at_
    split_ifs at made <;> cases made
    · exact h.pass at_ rfl rfl rfl rfl rfl (by rintro ⟨⟩) id (by rintro ⟨⟩)
    · exact h.pass at_ rfl rfl rfl rfl rfl (by rintro ⟨⟩) id (by rintro ⟨⟩)
  · -- the connection is set
    cases made
    exact h.call rfl rfl rfl rfl (fun _ => by rintro ⟨⟩) (fun _ => Or.inl (by rintro ⟨⟩))
      (by rintro ⟨⟩)
  · -- write
    rename_i n ok at_
    split_ifs at made <;> cases made
    · exact h.pass at_ rfl rfl rfl rfl rfl (fun _ => rfl) id (by rintro ⟨⟩)
    · exact h.pass at_ rfl rfl rfl rfl rfl (by rintro ⟨⟩) id (by rintro ⟨⟩)
  · rename_i n at_
    cases made
    exact h.pass at_ rfl rfl rfl rfl rfl (fun _ => rfl) (by rintro ⟨⟩) (by rintro ⟨⟩)
  · -- read
    rename_i n ok at_
    split_ifs at made <;> cases made
    · exact h.pass at_ rfl rfl rfl rfl rfl (fun _ => rfl) id (by rintro ⟨⟩)
    · exact h.pass at_ rfl rfl rfl rfl rfl (by rintro ⟨⟩) id (by rintro ⟨⟩)
  · -- the status is set
    rename_i at_
    cases made
    exact h.call rfl rfl rfl rfl id (fun _ => Or.inr (by rw [at_]; rfl)) fun _ => Or.inl rfl
  · rename_i at_
    cases made
    exact h.startLoops at_
  · rename_i plain queued at_
    obtain ⟨s'', sent, same⟩ := Option.map_eq_some_iff.mp made
    cases same
    rcases sendPlaintext_cases sent with rfl | ⟨-, rfl⟩
    · exact h.pass at_ rfl rfl rfl rfl rfl (by rintro ⟨⟩) id (by rintro ⟨⟩)
    · exact h.pass at_ rfl rfl rfl rfl rfl (by rintro ⟨⟩) id (by rintro ⟨⟩)
  · rename_i n at_
    cases made
    exact h.pass at_ rfl rfl rfl rfl rfl (by rintro ⟨⟩) id (by rintro ⟨⟩)
  · rename_i at_
    cases made
    exact h.pass at_ rfl rfl rfl rfl rfl (by rintro ⟨⟩) (by rintro ⟨⟩) (by rintro ⟨⟩)
  · cases made

theorem Sound.of_done (done : s.done = true) (status : s.status ≠ .confirmed) : Sound s := by
  have never : s.done ≠ false := by
    rw [done]
    exact Bool.noConfusion
  exact ⟨fun h => absurd h never, fun h => absurd h never, fun h => absurd h never,
    fun h => absurd h status⟩

/-- What a step of a loop leaves alone but for the channel and the loop itself. -/
structure Untouched (s s' : Client) : Prop where
  status : s'.status = s.status
  done : s'.done = s.done
  conn : s'.conn = s.conn
  calls : s'.calls = s.calls
  writers : s'.writers = s.writers
  readers : s'.readers = s.readers

theorem writerStep_cases (made : writerStep s l a = some (s', l')) :
    (Untouched s s' ∧ (l' = .ended → s.done = true ∨ s.conn = none)) ∨ s' = handleDisconnect s := by
  unfold writerStep at made
  split at made
  · split at made
    · cases made
    · cases made
      exact Or.inl ⟨⟨rfl, rfl, rfl, rfl, rfl, rfl⟩, by rintro ⟨⟩⟩
  · split_ifs at made with done
    cases made
    exact Or.inl ⟨⟨rfl, rfl, rfl, rfl, rfl, rfl⟩, fun _ => Or.inl done⟩
  · split_ifs at made
    cases made
    exact Or.inl ⟨⟨rfl, rfl, rfl, rfl, rfl, rfl⟩, by rintro ⟨⟩⟩
  · split_ifs at made
    split at made
    · rename_i gone
      cases made
      exact Or.inl ⟨⟨rfl, rfl, rfl, rfl, rfl, rfl⟩, fun _ => Or.inr gone⟩
    · cases made
      exact Or.inl ⟨⟨rfl, rfl, rfl, rfl, rfl, rfl⟩, by rintro ⟨⟩⟩
  · split_ifs at made
    · cases made
      exact Or.inl ⟨⟨rfl, rfl, rfl, rfl, rfl, rfl⟩, by rintro ⟨⟩⟩
    · cases made
      exact Or.inl ⟨⟨rfl, rfl, rfl, rfl, rfl, rfl⟩, by rintro ⟨⟩⟩
  · cases made
    exact Or.inr rfl
  · cases made

theorem readerStep_cases {l l' : Loop} {a : LoopAct} (made : readerStep s l a = some (s', l')) :
    s' = s ∧ l' ≠ .ended ∨ s' = handleDisconnect s := by
  unfold readerStep at made
  split at made
  · grind
  · cases made
    exact Or.inr rfl
  · cases made

theorem pingerStep_cases {l l' : Loop} {a : LoopAct} (made : pingerStep s l a = some (s', l')) :
    s' = s ∨ s' = handleDisconnect s := by
  unfold pingerStep at made
  split at made
  · cases made
    exact Or.inl rfl
  · split_ifs at made
    cases made
    exact Or.inl rfl
  · cases made
    exact Or.inr rfl
  · cases made

theorem Sound.setWriter (h : Sound s) (same : Untouched s s') (ends : l = .ended → s.done = true) :
    Sound { s' with writers := s'.writers.set w l } := by
  refine ⟨?_, ?_, ?_, ?_⟩
  · intro opened l' hl
    have still : s.done = false := same.done.symm.trans opened
    rcases List.mem_or_eq_of_mem_set hl with old | rfl
    · rw [same.writers] at old
      exact h.writers still l' old
    · grind
  · simp only [same.done, same.readers]
    exact h.readers
  · simp only [same.done, same.writers, same.calls, same.conn, ne_eq, List.set_eq_nil_iff]
    exact h.conn
  · simp only [same.status, same.calls, same.writers, same.readers, ne_eq, List.set_eq_nil_iff]
    exact h.loops

theorem Sound.setReader (h : Sound s) {r : Nat} {l : Loop} (ends : l ≠ .ended) :
    Sound { s with readers := s.readers.set r l } := by
  refine ⟨h.writers, ?_, h.conn, ?_⟩
  · intro opened l' hl
    rcases List.mem_or_eq_of_mem_set hl with old | rfl
    · exact h.readers opened l' old
    · exact ends
  · simp only [ne_eq, List.set_eq_nil_iff]
    exact h.loops

theorem step_sound {a : Act} (h : Sound s) (taken : step s a = some t) : Sound t := by
  cases a with
  | connect k a => exact h.connect taken
  | close =>
    cases taken
    exact .of_done rfl (by rintro ⟨⟩)
  | send plain queued =>
    rcases sendPlaintext_cases taken with rfl | ⟨-, rfl⟩
    · exact ⟨h.writers, h.readers, h.conn, h.loops⟩
    · exact h
  | writer w a =>
    obtain ⟨l, hl, taken⟩ := Option.bind_eq_some_iff.mp taken
    obtain ⟨⟨s', l'⟩, made, rfl⟩ := Option.map_eq_some_iff.mp taken
    rcases writerStep_cases made with ⟨same, ends⟩ | rfl
    · refine h.setWriter same fun ended => ?_
      -- while `doneCh` is open the connection of a running loop is there
      by_contra opened
      have some_ : s.writers ≠ [] := List.ne_nil_of_mem (List.mem_of_getElem? hl)
      exact h.conn (Bool.eq_false_of_not_eq_true opened) (Or.inl some_)
        ((ends ended).resolve_left opened)
    · exact .of_done rfl (by rintro ⟨⟩)
  | reader r a =>
    obtain ⟨l, -, taken⟩ := Option.bind_eq_some_iff.mp taken
    obtain ⟨⟨s', l'⟩, made, rfl⟩ := Option.map_eq_some_iff.mp taken
    rcases readerStep_cases made with ⟨rfl, ends⟩ | rfl
    · exact h.setReader ends
    · exact .of_done rfl (by rintro ⟨⟩)
  | pinger p a =>
    obtain ⟨l, -, taken⟩ := Option.bind_eq_some_iff.mp taken
    obtain ⟨⟨s', l'⟩, made, rfl⟩ := Option.map_eq_some_iff.mp taken
    rcases pingerStep_cases made with rfl | rfl
    · exact ⟨h.writers, h.readers, h.conn, h.loops⟩
    · exact .of_done rfl (by rintro ⟨⟩)

/-- `Connect` sets the status while `doneCh` is open. -/
def InTime (s : Client) : Act → Prop
  | .connect _ .confirm => s.done = false
  | _ => True

theorem connectStep_confirmed {a : ConnectAct} (made : connectStep s stage a = some (s', stage')) :
    s'.done = s.done ∧ (s'.status = .confirmed → s.status = .confirmed ∨ a = .confirm) ∧
      (a = .confirm → s'.status = .confirmed) := by
  unfold connectStep at made
  split at made
  case h_8 plain queued =>
    obtain ⟨s'', sent, same⟩ := Option.map_eq_some_iff.mp made
    cases same
    rcases sendPlaintext_cases sent with rfl | ⟨-, rfl⟩
    · exact ⟨rfl, Or.inl, by rintro ⟨⟩⟩
    · exact ⟨rfl, Or.inl, by rintro ⟨⟩⟩
  all_goals try split_ifs at made
  all_goals cases made
  all_goals simp [Client.closeConn]

theorem step_confirmed {a : Act} (taken : step s a = some t) (confirmed : t.status = .confirmed) :
    t.done = s.done ∧ (s.status = .confirmed ∨ ∃ k, a = .connect k .confirm) := by
  cases a with
  | connect k a =>
    obtain ⟨⟨s', stage⟩, made, rfl⟩ := Option.map_eq_some_iff.mp taken
    obtain ⟨done, before, -⟩ := connectStep_confirmed made
    exact ⟨done, (before confirmed).imp_right fun h => ⟨k, by rw [h]⟩⟩
  | close =>
    cases taken
    cases confirmed
  | send plain queued =>
    rcases sendPlaintext_cases taken with rfl | ⟨-, rfl⟩
    · exact ⟨rfl, Or.inl confirmed⟩
    · exact ⟨rfl, Or.inl confirmed⟩
  | writer w a =>
    obtain ⟨l, -, taken⟩ := Option.bind_eq_some_iff.mp taken
    obtain ⟨⟨s', l'⟩, made, rfl⟩ := Option.map_eq_some_iff.mp taken
    rcases writerStep_cases made with ⟨same, -⟩ | rfl
    · exact ⟨same.done, Or.inl (same.status.symm.trans confirmed)⟩
    · cases confirmed
  | reader r a =>
    obtain ⟨l, -, taken⟩ := Option.bind_eq_some_iff.mp taken
    obtain ⟨⟨s', l'⟩, made, rfl⟩ := Option.map_eq_some_iff.mp taken
    rcases readerStep_cases made with ⟨rfl, -⟩ | rfl
    · exact ⟨rfl, Or.inl confirmed⟩
    · cases confirmed
  | pinger p a =>
    obtain ⟨l, -, taken⟩ := Option.bind_eq_some_iff.mp taken
    obtain ⟨⟨s', l'⟩, made, rfl⟩ := Option.map_eq_some_iff.mp taken
    rcases pingerStep_cases made with rfl | rfl
    · exact ⟨rfl, Or.inl confirmed⟩
    · cases confirmed

/-- A plaintext that is handed over goes into the channel, and a write loop that is at its
select takes it, with everything before it, while the socket takes what it writes. -/
def Delivers (s : Client) : Prop :=
  ∀ plain queued t, sendPlaintext s plain queued = some t →
    t.writeCh = s.writeCh ++ [plain] ∧
    ∀ w n, s.writers[w]? = some Writer.waiting → s.conn = some n → s.closed n = false →
      ∃ acts : List WriterAct, ∃ u, exec step t (acts.map (Act.writer w)) = some u ∧
        u.taken = s.taken ++ s.writeCh ++ [plain]

theorem step_writer (at_ : s.writers[w]? = some l) (made : writerStep s l a = some (s', l')) :
    step s (.writer w a) = some { s' with writers := s'.writers.set w l' } := by
  simp [step, at_, made]

/-- A write loop has taken a packet and is where the last argument says. -/
def Client.took (s : Client) (w : Nat) (plain : Bytes) (rest : List Bytes) (l : Writer) : Client :=
  { s with writeCh := rest, taken := s.taken ++ [plain], writers := s.writers.set w l }

theorem step_took {x : Writer} (at_ : s.writers[w]? = some x)
    (made : writerStep (s.took w plain rest l) l a = some (s.took w plain rest l, l')) :
    step (s.took w plain rest l) (.writer w a) = some (s.took w plain rest l') := by
  obtain ⟨inside, -⟩ := List.getElem?_eq_some_iff.mp at_
  have here : (s.took w plain rest l).writers[w]? = some l := by
    simp [Client.took, inside]
  rw [step_writer here made]
  simp [Client.took]

theorem write_next (queue : s.writeCh = plain :: rest) (waits : s.writers[w]? = some .waiting)
    (conn : s.conn = some n) (opened : s.closed n = false) :
    ∃ acts : List WriterAct, exec step s (acts.map (Act.writer w)) =
      some { s with writeCh := rest, taken := s.taken ++ [plain] } := by
  have back : s.took w plain rest .waiting =
      { s with writeCh := rest, taken := s.taken ++ [plain] } := by
    obtain ⟨inside, same⟩ := List.getElem?_eq_some_iff.mp waits
    rw [Client.took, ← same, List.set_getElem_self]
  have take : step s (.writer w .take) = some (s.took w plain rest (.writing plain)) := by
    have made : writerStep s .waiting .take =
        some ({ s with writeCh := rest, taken := s.taken ++ [plain] }, .writing plain) := by
      simp only [writerStep, queue]
    exact step_writer waits made
  by_cases large : maxPacketSize < plain.length
  · have skip : step (s.took w plain rest (.writing plain)) (.writer w .skip) =
        some (s.took w plain rest .waiting) := step_took waits (if_pos large)
    refine ⟨[.take, .skip], ?_⟩
    simp only [List.map_cons, List.map_nil, exec, take, Option.bind_some, skip, back]
  · have hold : step (s.took w plain rest (.writing plain)) (.writer w .hold) =
        some (s.took w plain rest (.sending n)) := by
      refine step_took waits ?_
      simp only [writerStep, if_neg large]
      simp only [Client.took, conn]
    have write : step (s.took w plain rest (.sending n)) (.writer w (.write true)) =
        some (s.took w plain rest .waiting) := by
      refine step_took waits ?_
      simp [writerStep, Client.took, opened]
    refine ⟨[.take, .hold, .write true], ?_⟩
    simp only [List.map_cons, List.map_nil, exec, take, Option.bind_some, hold, write, back]

theorem write_all (waits : s.writers[w]? = some .waiting) (conn : s.conn = some n)
    (opened : s.closed n = false) :
    ∃ acts : List WriterAct, exec step s (acts.map (Act.writer w)) =
      some { s with writeCh := [], taken := s.taken ++ s.writeCh } := by
  generalize queue : s.writeCh = packets
  induction packets generalizing s with
  | nil =>
    refine ⟨[], ?_⟩
    rw [List.append_nil, ← queue]
    rfl
  | cons plain rest ih =>
    obtain ⟨first, run⟩ := write_next queue waits conn opened
    obtain ⟨later, run'⟩ := ih (s := { s with writeCh := rest, taken := s.taken ++ [plain] })
      waits conn opened rfl
    refine ⟨first ++ later, ?_⟩
    rw [List.map_append]
    refine exec_append_iff.mpr ⟨_, run, run'.trans ?_⟩
    simp

theorem delivers_of_open (opened : s.done = false) : Delivers s := by
  intro plain queued t sent
  rcases sendPlaintext_cases sent with rfl | ⟨done, -⟩
  · refine ⟨rfl, fun w n waits conn socket => ?_⟩
    obtain ⟨acts, run⟩ := write_all (s := { s with writeCh := s.writeCh ++ [plain] }) waits conn
      socket
    exact ⟨acts, _, run, (List.append_assoc _ _ _).symm⟩
  · rw [opened] at done
    cases done

theorem step_inTime {a : Act} (before : s.status = .confirmed → s.done = false)
    (inTime : InTime s a) (taken : step s a = some t) (confirmed : t.status = .confirmed) :
    t.done = false := by
  obtain ⟨done, was | ⟨k, rfl⟩⟩ := step_confirmed taken confirmed
  · exact done.trans (before was)
  · exact done.trans inTime

/-- In a run, whenever `IsConnected` says so the session is live and plaintexts are handed to
its write loop, exactly if no call of `Connect` sets the status after `doneCh` was closed. -/
theorem connected_live_iff {acts : List Act} {s : Client} (run : exec step new acts = some s) :
    (∀ pre post m, acts = pre ++ post → exec step new pre = some m → isConnected m = true →
      Live m ∧ Delivers m) ↔ Along step InTime new acts := by
  constructor
  · intro live pre e post m cut before
    rw [cut] at run
    obtain ⟨m₁, hm₁, rest⟩ := exec_append_iff.mp run
    obtain rfl := Option.some.inj (hm₁.symm.trans before)
    obtain ⟨m', taken, -⟩ := exec_cons_iff.mp rest
    unfold InTime
    split
    · -- the status after this step is confirmed
      obtain ⟨⟨s', stage⟩, made, same⟩ := Option.map_eq_some_iff.mp taken
      obtain ⟨done, -, sets⟩ := connectStep_confirmed made
      have status : m'.status = .confirmed := by
        rw [← same]
        exact sets rfl
      have opened := (live (pre ++ [_]) post m' (by simp [cut])
        (exec_snoc_iff.mpr ⟨m₁, hm₁, taken⟩) (decide_eq_true status)).1.opened
      rw [← same] at opened
      exact done.symm.trans opened
    · trivial
  · intro inTime pre post m cut before connected
    have confirmed : m.status = .confirmed := of_decide_eq_true connected
    rw [cut] at inTime
    have invariant : Sound m ∧ (m.status = .confirmed → m.done = false) :=
      exec_invariant_along (P := fun m => Sound m ∧ (m.status = .confirmed → m.done = false))
        (fun _ _ _ h inTime taken => ⟨step_sound h.1 taken, step_inTime h.2 inTime taken⟩)
        ⟨new_sound, fun h => by cases h⟩ (along_append_left inTime) before
    have opened := invariant.2 confirmed
    exact ⟨invariant.1.live confirmed opened, delivers_of_open opened⟩

/-- A call of `Connect` in which every step succeeds. -/
def connects (k : Nat) : List Act :=
  [.connect k (.dial true), .connect k .enter, .connect k (.write true), .connect k .unconfirm,
    .connect k (.read true), .connect k .confirm, .connect k .startLoops]

instance (s : Client) : (a : Act) → Decidable (InTime s a)
  | .connect _ .confirm => inferInstanceAs (Decidable (_ = _))
  | .connect _ (.dial _) | .connect _ .enter | .connect _ (.write _) | .connect _ .unconfirm
  | .connect _ (.read _) | .connect _ .startLoops | .connect _ (.ping _ _) | .connect _ .closeConn
  | .connect _ .fail | .close | .send _ _ | .writer _ _ | .reader _ _ | .pinger _ _ =>
    inferInstanceAs (Decidable True)

theorem first_connect_live :
    ∃ s, exec step new (connects 0) = some s ∧ isConnected s = true ∧ Live s ∧ Delivers s := by
  have status : (exec step new (connects 0)).map (fun s => s.status) = some .confirmed := by decide
  obtain ⟨s, run, status⟩ := Option.map_eq_some_iff.mp status
  have connected : isConnected s = true := decide_eq_true status
  refine ⟨s, run, connected, ?_⟩
  exact (connected_live_iff run).mpr (along_of_decide (by decide)) (connects 0) [] s (by simp) run
    connected

/-- Connect, close, and connect again. -/
def reconnects : List Act :=
  connects 0 ++ [.connect 0 (.ping [4] true), .close, .writer 0 .stop, .reader 0 .fail,
    .reader 0 .disconnect] ++ connects 0 ++ [.writer 1 .stop]

/-- The client says that it is connected while both of its write loops have ended, and a
plaintext is dropped. -/
theorem reconnected_client_dead :
    ∃ s, exec step new reconnects = some s ∧ isConnected s = true ∧ ¬ Live s ∧
      s.writers = [.ended, .ended] ∧ sendPlaintext s [0] false = some s := by
  have fields : (exec step new reconnects).map (fun s => (s.status, s.done, s.writers)) =
      some (.confirmed, true, [.ended, .ended]) := by decide
  obtain ⟨s, run, fields⟩ := Option.map_eq_some_iff.mp fields
  obtain ⟨status, fields⟩ := Prod.mk.inj fields
  obtain ⟨done, writers⟩ := Prod.mk.inj fields
  refine ⟨s, run, decide_eq_true status, fun live => ?_, writers, ?_⟩
  · have opened := live.opened
    rw [done] at opened
    cases opened
  · simp [sendPlaintext, done]

end GoTox.Lifecycle
