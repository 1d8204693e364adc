import Toxera.Tbtun.Server

/-!
# The two streams of a tunnel

Each end of a tunnel reads its TCP connection and sends what it has read as packets, and
writes what arrives in packets to its TCP connection (`serv_tcp_conn` and
`OnFriendLosslessPacket` of `tbtunc`, `copyTcp2Tox` and `OnFriendLosslessPacket` of
`tbtuns`).
-/

namespace Tbtun.Stream

open Exec

/-- Where the loop that copies the TCP connection into packets stands; only the client waits
for an `ack` before it. -/
inductive Loop where
  | waiting | reading | sending (data : Bytes) | ended | returned
  deriving DecidableEq

structure End where
  loop : Loop
  read : Bytes
  written : Bytes
  sock : Bool
  writable : Bool
  /-- the end is in the table where packets look it up -/
  listed : Bool
  closec : Bool
  closes : Bool
  deriving DecidableEq

inductive Item where
  | data (data : Bytes)
  | close
  deriving DecidableEq

inductive Side where
  | client | server
  deriving DecidableEq

structure State where
  client : End
  server : End
  up : List Item
  down : List Item
  /-- the client handles a close packet and has not yet set `closes` -/
  closing : Bool
  deriving DecidableEq

inductive Event where
  | acked
  | gaveUp
  | read (side : Side) (data : Bytes)
  | readErr (side : Side)
  | send (side : Side) (ok : Bool)
  | finish (side : Side) (ok : Bool)
  | arrive (side : Side) (wn : Nat)
  | closed
  | timeout

variable {events : List Event} {xs : List Bool}

def End.takeIn (c : End) (data : Bytes) : Option End :=
  if c.loop = .reading ∧ c.sock = true ∧ data.length ≤ 999 then
    some { c with loop := .sending data, read := c.read ++ data }
  else none

def End.readErr (c : End) : Option End :=
  if c.loop = .reading then some { c with loop := .ended } else none

/-- `c.Write` of which `wn` bytes go out: a connection that did not take all takes no more. -/
def End.write (c : End) (data : Bytes) (wn : Nat) : End :=
  if c.sock && c.writable then
    { c with written := c.written ++ data.take wn, writable := decide (data.length ≤ wn) }
  else c

def End.onData (c : End) (data : Bytes) (wn : Nat) : End :=
  if c.listed then c.write data wn else c

def queued (ok : Bool) (p : Item) (queue : List Item) : List Item :=
  if ok then queue ++ [p] else queue

def State.acked (s : State) : Option State :=
  if s.client.loop = .waiting then some { s with client := { s.client with loop := .reading } }
  else none

def State.gaveUp (s : State) : Option State :=
  if s.client.loop = .waiting then
    some { s with client := { s.client with loop := .returned, sock := false, listed := false } }
  else none

def State.clientSend (s : State) (ok : Bool) : Option State :=
  match s.client.loop with
  | .sending data =>
    some { s with
      client := { s.client with loop := .reading }
      up := queued ok (.data data) s.up }
  | _ => none

/-- What `serv_tcp_conn` does after its loop; the connection is closed when it returns. -/
def State.clientFinish (s : State) (ok : Bool) : Option State :=
  if s.client.loop = .ended then
    if s.client.closes then
      some { s with client := { s.client with loop := .returned, sock := false } }
    else some { s with
      client := { s.client with loop := .returned, sock := false, closec := true, listed := false }
      up := queued ok .close s.up }
  else none

def State.clientPacket (s : State) (wn : Nat) : Item → State
  | .data data => { s with client := s.client.onData data wn }
  | .close =>
    if s.client.listed then
      { s with client := { s.client with listed := false, sock := false }, closing := true }
    else s

def State.atClient (s : State) (wn : Nat) : Option State :=
  if s.closing then none
  else match s.down with
    | [] => none
    | p :: rest => some { s.clientPacket wn p with down := rest }

def State.closed (s : State) : Option State :=
  if s.closing then
    some { s with client := { s.client with closes := true }, closing := false }
  else none

def State.timeout (s : State) : Option State :=
  if s.client.loop = .waiting ∨ s.client.closec = true ∨ s.client.closes = true then none
  else some { s with client := { s.client with sock := false } }

def State.serverSend (s : State) (ok : Bool) : Option State :=
  match s.server.loop with
  | .sending data =>
    some { s with
      server := { s.server with loop := if ok then .reading else .ended }
      down := queued ok (.data data) s.down }
  | _ => none

def State.serverFinish (s : State) (ok : Bool) : Option State :=
  if s.server.loop = .ended then
    some { s with
      server := { s.server with loop := .returned, closes := true }
      down := if s.server.closec then s.down else queued ok .close s.down }
  else none

def State.serverPacket (s : State) (wn : Nat) : Item → State
  | .data data => { s with server := s.server.onData data wn }
  | .close =>
    if s.server.listed then
      { s with server := { s.server with closec := true, listed := false, sock := false } }
    else s

def State.atServer (s : State) (wn : Nat) : Option State :=
  match s.up with
  | [] => none
  | p :: rest => some { s.serverPacket wn p with up := rest }

def State.next (s : State) : Event → Option State
  | .acked => s.acked
  | .gaveUp => s.gaveUp
  | .read .client data => (s.client.takeIn data).map fun c => { s with client := c }
  | .read .server data => (s.server.takeIn data).map fun c => { s with server := c }
  | .readErr .client => s.client.readErr.map fun c => { s with client := c }
  | .readErr .server => s.server.readErr.map fun c => { s with server := c }
  | .send .client ok => s.clientSend ok
  | .send .server ok => s.serverSend ok
  | .finish .client ok => s.clientFinish ok
  | .finish .server ok => s.serverFinish ok
  | .arrive .client wn => s.atClient wn
  | .arrive .server wn => s.atServer wn
  | .closed => s.closed
  | .timeout => s.timeout

def newEnd (loop : Loop) : End := ⟨loop, [], [], true, true, true, false, false⟩

def connected : State := ⟨newEnd .waiting, newEnd .reading, [], [], false⟩

def Item.payload : Item → Bytes
  | .data bytes => bytes
  | .close => []

def payload (queue : List Item) : Bytes := queue.flatMap Item.payload

@[simp] theorem payload_nil : payload [] = [] := rfl

@[simp] theorem payload_cons (p : Item) (queue : List Item) :
    payload (p :: queue) = p.payload ++ payload queue := rfl

@[simp] theorem payload_append (xs ys : List Item) :
    payload (xs ++ ys) = payload xs ++ payload ys := List.flatMap_append

def End.Takes (c : End) : Prop := c.listed = true ∧ c.sock = true ∧ c.writable = true

structure Quiet (c c' : End) : Prop where
  read : c'.read = c.read
  written : c'.written = c.written
  takes : c'.Takes → c.Takes

/-- A step at the end `c`, from which packets go `out` and to which packets come `inn`; the label
is the outcome of a send that carries data. -/
inductive Local (c : End) (out inn : List Item) :
    Option Bool → End → List Item → List Item → Prop
  | read {data c'} : c.takeIn data = some c' → Local c out inn none c' out inn
  | pushed {data} : c.loop = .sending data →
    Local c out inn (some true) { c with loop := .reading } (out ++ [.data data]) inn
  | dropped {data} : c.loop = .sending data →
    Local c out inn (some false) { c with loop := .reading } out inn
  | stopped {c' out'} : Quiet c c' → c'.loop = .ended ∨ c'.loop = .returned →
    out' = out ∨ out' = out ++ [.close] → Local c out inn none c' out' inn
  | quiet {c'} : Quiet c c' → c'.loop = c.loop ∨ (c.loop = .waiting ∧ c'.loop = .reading) →
    Local c out inn none c' out inn
  | data {bytes rest} (wn : Nat) : inn = .data bytes :: rest →
    Local c out inn none (c.onData bytes wn) out rest
  | close {c' rest} : inn = .close :: rest → Quiet c c' → c'.loop = c.loop →
    Local c out inn none c' out rest

variable {s t : State} {e : Event} {ok : Bool} {wn : Nat}

theorem Quiet.refl (c : End) : Quiet c c := ⟨rfl, rfl, fun h => h⟩

theorem local_of_readErr {c c' : End} {out inn : List Item} (h : c.readErr = some c') :
    Local c out inn none c' out inn := by
  unfold End.readErr at h
  split_ifs at h
  cases h
  exact .stopped ⟨rfl, rfl, fun h => h⟩ (Or.inl rfl) (Or.inl rfl)

theorem queued_cases (ok : Bool) (p : Item) (queue : List Item) :
    queued ok p queue = queue ∨ queued ok p queue = queue ++ [p] := by
  cases ok with
  | true => exact Or.inr rfl
  | false => exact Or.inl rfl

abbrev State.ClientStep (s t : State) (sent : Option Bool) : Prop :=
  Local s.client s.up s.down sent t.client t.up t.down ∧ t.server = s.server

theorem step_of_acked (h : s.acked = some t) : s.ClientStep t none := by
  unfold State.acked at h
  split_ifs at h with waiting
  cases h
  exact ⟨.quiet ⟨rfl, rfl, fun h => h⟩ (Or.inr ⟨waiting, rfl⟩), rfl⟩

theorem step_of_gaveUp (h : s.gaveUp = some t) : s.ClientStep t none := by
  unfold State.gaveUp at h
  split_ifs at h
  cases h
  exact ⟨.stopped ⟨rfl, rfl, fun h => by cases h.1⟩ (Or.inr rfl) (Or.inl rfl), rfl⟩

theorem step_of_clientSend (h : s.clientSend ok = some t) : s.ClientStep t (some ok) := by
  unfold State.clientSend at h
  split at h
  case h_2 => cases h
  case h_1 bytes loop =>
    cases h
    cases ok with
    | true => exact ⟨.pushed loop, rfl⟩
    | false => exact ⟨.dropped loop, rfl⟩

theorem step_of_clientFinish (h : s.clientFinish ok = some t) : s.ClientStep t none := by
  unfold State.clientFinish at h
  split_ifs at h
  · cases h
    exact ⟨.stopped ⟨rfl, rfl, fun h => by cases h.2.1⟩ (Or.inr rfl) (Or.inl rfl), rfl⟩
  · cases h
    exact ⟨.stopped ⟨rfl, rfl, fun h => by cases h.1⟩ (Or.inr rfl) (queued_cases ..), rfl⟩

theorem step_of_atClient (h : s.atClient wn = some t) : s.ClientStep t none := by
  unfold State.atClient at h
  split_ifs at h
  cases queue : s.down with
  | nil => rw [queue] at h; cases h
  | cons p rest =>
    rw [queue] at h
    cases h
    cases p with
    | data bytes => exact ⟨.data wn queue, rfl⟩
    | close =>
      rw [State.clientPacket]
      split_ifs
      · exact ⟨.close queue ⟨rfl, rfl, fun h => by cases h.1⟩ rfl, rfl⟩
      · exact ⟨.close queue (Quiet.refl _) rfl, rfl⟩

theorem step_of_closed (h : s.closed = some t) : s.ClientStep t none := by
  unfold State.closed at h
  split_ifs at h
  cases h
  exact ⟨.quiet ⟨rfl, rfl, fun h => h⟩ (Or.inl rfl), rfl⟩

theorem step_of_timeout (h : s.timeout = some t) : s.ClientStep t none := by
  unfold State.timeout at h
  split_ifs at h
  cases h
  exact ⟨.quiet ⟨rfl, rfl, fun h => by cases h.2.1⟩ (Or.inl rfl), rfl⟩

abbrev State.ServerStep (s t : State) : Prop :=
  (∃ sent, sent ≠ some false ∧ Local s.server s.down s.up sent t.server t.down t.up) ∧
    t.client = s.client

theorem serverStep_of_local (h : Local s.server s.down s.up none t.server t.down t.up)
    (same : t.client = s.client) : s.ServerStep t :=
  ⟨⟨none, by simp, h⟩, same⟩

theorem step_of_serverSend (h : s.serverSend ok = some t) : s.ServerStep t := by
  unfold State.serverSend at h
  split at h
  case h_2 => cases h
  case h_1 bytes loop =>
    cases h
    cases ok with
    | true => exact ⟨⟨some true, by simp, .pushed loop⟩, rfl⟩
    | false =>
      exact serverStep_of_local (.stopped ⟨rfl, rfl, fun h => h⟩ (Or.inl rfl) (Or.inl rfl)) rfl

theorem step_of_serverFinish (h : s.serverFinish ok = some t) : s.ServerStep t := by
  unfold State.serverFinish at h
  split_ifs at h
  · cases h
    exact serverStep_of_local (.stopped ⟨rfl, rfl, fun h => h⟩ (Or.inr rfl) (Or.inl rfl)) rfl
  · cases h
    exact serverStep_of_local
      (.stopped ⟨rfl, rfl, fun h => h⟩ (Or.inr rfl) (queued_cases ..)) rfl

theorem step_of_atServer (h : s.atServer wn = some t) : s.ServerStep t := by
  unfold State.atServer at h
  cases queue : s.up with
  | nil => rw [queue] at h; cases h
  | cons p rest =>
    rw [queue] at h
    cases h
    cases p with
    | data bytes => exact serverStep_of_local (.data wn queue) rfl
    | close =>
      rw [State.serverPacket]
      split_ifs
      · exact serverStep_of_local (.close queue ⟨rfl, rfl, fun h => by cases h.1⟩ rfl) rfl
      · exact serverStep_of_local (.close queue (Quiet.refl _) rfl) rfl

def clientSent : Event → Option Bool
  | .send .client ok => some ok
  | _ => none

theorem step_of_next (h : s.next e = some t) :
    s.ClientStep t (clientSent e) ∨ (clientSent e = none ∧ s.ServerStep t) := by
  cases e with
  | acked => exact Or.inl (step_of_acked h)
  | gaveUp => exact Or.inl (step_of_gaveUp h)
  | closed => exact Or.inl (step_of_closed h)
  | timeout => exact Or.inl (step_of_timeout h)
  | read side data =>
    cases side with
    | client =>
      obtain ⟨c, read, rfl⟩ := Option.map_eq_some_iff.mp h
      exact Or.inl ⟨.read read, rfl⟩
    | server =>
      obtain ⟨c, read, rfl⟩ := Option.map_eq_some_iff.mp h
      exact Or.inr ⟨rfl, serverStep_of_local (.read read) rfl⟩
  | readErr side =>
    cases side with
    | client =>
      obtain ⟨c, read, rfl⟩ := Option.map_eq_some_iff.mp h
      exact Or.inl ⟨local_of_readErr read, rfl⟩
    | server =>
      obtain ⟨c, read, rfl⟩ := Option.map_eq_some_iff.mp h
      exact Or.inr ⟨rfl, serverStep_of_local (local_of_readErr read) rfl⟩
  | send side ok =>
    cases side with
    | client => exact Or.inl (step_of_clientSend h)
    | server => exact Or.inr ⟨rfl, step_of_serverSend h⟩
  | finish side ok =>
    cases side with
    | client => exact Or.inl (step_of_clientFinish h)
    | server => exact Or.inr ⟨rfl, step_of_serverFinish h⟩
  | arrive side wn =>
    cases side with
    | client => exact Or.inl (step_of_atClient h)
    | server => exact Or.inr ⟨rfl, step_of_atServer h⟩

def End.SentAll (c : End) (sent : Bytes) : Prop :=
  match c.loop with
  | .waiting => sent = c.read
  | .reading => sent = c.read
  | .sending data => sent ++ data = c.read
  | .ended => True
  | .returned => True

/-- `sent` was sent by this end, and as long as `whole` nothing in between was left out. -/
structure Source (whole : Prop) (c : End) (sent : Bytes) : Prop where
  front : sent <+: c.read
  all : whole → c.SentAll sent

structure Sink (c : End) (got : Bytes) : Prop where
  front : c.written <+: got
  all : c.Takes → c.written = got

def Flow (whole : Prop) (c : End) (queue : List Item) (d : End) : Prop :=
  ∃ got, Sink d got ∧ Source whole c (got ++ payload queue)

variable {whole whole' : Prop} {c c' d : End} {out out' inn inn' : List Item} {o : Option Bool}
  {sent got data : Bytes}

theorem Flow.written_le (h : Flow whole c out d) : d.written <+: c.read := by
  obtain ⟨got, sink, source⟩ := h
  exact sink.front.trans ((List.prefix_append ..).trans source.front)

theorem Sink.quiet (h : Sink c got) (quiet : Quiet c c') : Sink c' got := by
  refine ⟨?_, fun takes => quiet.written.trans (h.all (quiet.takes takes))⟩
  rw [quiet.written]
  exact h.front

theorem Sink.skip (h : Sink c got) (deaf : ¬ c.Takes) : Sink c (got ++ data) :=
  ⟨h.front.trans (List.prefix_append ..), fun takes => absurd takes deaf⟩

theorem Sink.onData (h : Sink c got) (data : Bytes) (wn : Nat) :
    Sink (c.onData data wn) (got ++ data) := by
  unfold End.onData End.write
  split_ifs with listed takes
  · rw [Bool.and_eq_true] at takes
    have all := h.all ⟨listed, takes⟩
    refine ⟨?_, fun full => ?_⟩
    · show c.written ++ data.take wn <+: got ++ data
      rw [all, List.prefix_append_right_inj]
      exact List.take_prefix ..
    · show c.written ++ data.take wn = got ++ data
      rw [all, List.take_of_length_le (of_decide_eq_true full.2.2)]
  · exact h.skip fun all => takes (by rw [all.2.1, all.2.2]; rfl)
  · exact h.skip fun all => listed all.1

theorem quiet_takeIn (h : c.takeIn data = some c') :
    c.loop = .reading ∧ c'.loop = .sending data ∧ c'.read = c.read ++ data ∧
      c'.written = c.written ∧ (c'.Takes → c.Takes) := by
  unfold End.takeIn at h
  split_ifs at h with can
  cases h
  exact ⟨can.1, rfl, rfl, rfl, fun h => h⟩

theorem Local.sink (step : Local d out inn o c' out' inn') (h : Flow whole c inn d) :
    Flow whole c inn' c' := by
  obtain ⟨got, sink, source⟩ := h
  cases step with
  | read took =>
    obtain ⟨-, -, -, written, takes⟩ := quiet_takeIn took
    refine ⟨got, ⟨?_, fun t => written.trans (sink.all (takes t))⟩, source⟩
    rw [written]
    exact sink.front
  | pushed => exact ⟨got, ⟨sink.front, sink.all⟩, source⟩
  | dropped => exact ⟨got, ⟨sink.front, sink.all⟩, source⟩
  | stopped quiet => exact ⟨got, sink.quiet quiet, source⟩
  | quiet quiet => exact ⟨got, sink.quiet quiet, source⟩
  | @data bytes _ wn first =>
    refine ⟨got ++ bytes, sink.onData bytes wn, ?_⟩
    rw [first, payload_cons, ← List.append_assoc] at source
    exact source
  | close first quiet =>
    refine ⟨got, sink.quiet quiet, ?_⟩
    rw [first] at source
    exact source

theorem Source.stop (h : Source whole c sent) (read : c'.read = c.read)
    (loop : c'.loop = .ended ∨ c'.loop = .returned) : Source whole' c' sent := by
  refine ⟨read ▸ h.front, fun _ => ?_⟩
  rcases loop with ended | returned
  · rw [End.SentAll, ended]
    trivial
  · rw [End.SentAll, returned]
    trivial

theorem Source.same (h : Source whole c sent) (read : c'.read = c.read)
    (loop : c'.loop = c.loop ∨ (c.loop = .waiting ∧ c'.loop = .reading))
    (less : whole' → whole) : Source whole' c' sent := by
  refine ⟨read ▸ h.front, fun w => ?_⟩
  have all := h.all (less w)
  rcases loop with same | ⟨waiting, reading⟩
  · rw [End.SentAll, same, read]
    exact all
  · grind [End.SentAll, read]

theorem Source.takeIn (h : Source whole c sent) (took : c.takeIn data = some c')
    (less : whole' → whole) : Source whole' c' sent := by
  obtain ⟨reading, sending, read, -, -⟩ := quiet_takeIn took
  refine ⟨h.front.trans (read ▸ List.prefix_append ..), fun w => ?_⟩
  have all := h.all (less w)
  rw [End.SentAll, reading] at all
  rw [End.SentAll, sending, read]
  exact congrArg (· ++ data) all

theorem Source.pushed (h : Source whole c sent) (loop : c.loop = .sending data) (w : whole) :
    Source whole' { c with loop := .reading } (sent ++ data) := by
  have all := h.all w
  rw [End.SentAll, loop] at all
  exact ⟨all ▸ List.prefix_refl _, fun _ => all⟩

theorem Source.onData (h : Source whole c sent) (less : whole' → whole) (data : Bytes) (wn : Nat) :
    Source whole' (c.onData data wn) sent := by
  unfold End.onData End.write
  split_ifs
  all_goals exact h.same rfl (Or.inl rfl) less

theorem Local.source (step : Local c out inn o c' out' inn') (less : whole' → whole)
    (sends : o = some true → whole) (gap : o = some false → ¬ whole') (h : Flow whole c out d) :
    Flow whole' c' out' d := by
  obtain ⟨got, sink, source⟩ := h
  cases step with
  | read took => exact ⟨got, sink, source.takeIn took less⟩
  | @pushed bytes loop =>
    refine ⟨got, sink, ?_⟩
    rw [payload_append, ← List.append_assoc, payload_cons, payload_nil, List.append_nil]
    exact source.pushed loop (sends rfl)
  | dropped => exact ⟨got, sink, source.front, fun w => absurd w (gap rfl)⟩
  | stopped quiet loop queue =>
    refine ⟨got, sink, ?_⟩
    have same : payload out' = payload out := by
      rcases queue with rfl | rfl
      · rfl
      · rw [payload_append, payload_cons, payload_nil, Item.payload, List.append_nil,
          List.append_nil]
    rw [same]
    exact source.stop quiet.read loop
  | quiet quiet loop => exact ⟨got, sink, source.same quiet.read loop less⟩
  | data wn => exact ⟨got, sink, source.onData less _ wn⟩
  | close _ quiet loop => exact ⟨got, sink, source.same quiet.read (Or.inl loop) less⟩

theorem flow_new (loop loop' : Loop) (whole : Prop) (start : loop = .waiting ∨ loop = .reading) :
    Flow whole (newEnd loop) [] (newEnd loop') := by
  refine ⟨[], ⟨List.prefix_refl _, fun _ => rfl⟩, List.prefix_refl _, fun _ => ?_⟩
  rcases start with rfl | rfl <;> rfl

theorem flow_down (run : exec State.next connected events = some t) :
    Flow True t.server t.down t.client := by
  refine exec_invariant (P := fun s => Flow True s.server s.down s.client) ?_
    (flow_new _ _ True (Or.inr rfl)) run
  intro s e t h step
  rcases step_of_next step with ⟨step, same⟩ | ⟨-, ⟨sent, whole, step⟩, same⟩
  · rw [same]
    exact step.sink h
  · rw [same]
    exact step.source (fun w => w) (fun _ => trivial) (fun gap => absurd gap whole) h

def clientSends (events : List Event) : List Bool := events.filterMap clientSent

def NoneAfterFailure (pattern : List Bool) : Prop :=
  ∀ before after, pattern = before ++ true :: after → false ∉ before

theorem NoneAfterFailure.left {ys : List Bool} (h : NoneAfterFailure (xs ++ ys)) :
    NoneAfterFailure xs := by
  rintro before after rfl
  exact h before (after ++ ys) (by simp)

theorem NoneAfterFailure.last (h : NoneAfterFailure (xs ++ [true])) :
    false ∉ xs := h xs [] rfl

theorem flow_up (run : exec State.next connected events = some t)
    (good : NoneAfterFailure (clientSends events)) :
    Flow (false ∉ clientSends events) t.client t.up t.server := by
  refine exec_history (P := fun es s => NoneAfterFailure (clientSends es) →
    Flow (false ∉ clientSends es) s.client s.up s.server)
    (fun _ => flow_new _ _ _ (Or.inl rfl)) ?_ run good
  intro es s e t _ ih step good
  have snoc : clientSends (es ++ [e]) = clientSends es ++ (clientSent e).toList := by
    grind [clientSends, clientSent]
  rw [snoc] at good ⊢
  have before := ih good.left
  have less : false ∉ clientSends es ++ (clientSent e).toList → false ∉ clientSends es :=
    fun all here => all (List.mem_append_left _ here)
  rcases step_of_next step with ⟨step, same⟩ | ⟨silent, ⟨sent, -, step⟩, same⟩
  · rw [same]
    refine step.source less (fun sent => ?_) (fun failed all => ?_) before
    · rw [sent] at good
      exact good.last
    · rw [failed] at all
      exact all (by simp)
  · rw [same]
    rw [silent, Option.toList_none, List.append_nil]
    exact step.sink before

def feed (chunk : Bytes × Bool) : List Event := [.read .client chunk.1, .send .client chunk.2]

def taken (chunks : List (Bytes × Bool)) : List Bytes := (chunks.filter Prod.snd).map Prod.fst

theorem exec_feed (chunks : List (Bytes × Bool)) (small : ∀ chunk ∈ chunks, chunk.1.length ≤ 999)
    (s : State) (reading : s.client.loop = .reading) (sock : s.client.sock = true) : ∃ t,
    exec State.next s (chunks.flatMap feed) = some t ∧
    t.client.read = s.client.read ++ chunks.flatMap Prod.fst ∧
    t.up = s.up ++ (taken chunks).map .data ∧ t.server = s.server := by
  induction chunks generalizing s with
  | nil => exact ⟨s, rfl, by simp, by simp [taken], rfl⟩
  | cons chunk rest ih =>
    obtain ⟨data, ok⟩ := chunk
    have fits : data.length ≤ 999 := small (data, ok) (by simp)
    obtain ⟨t, run, read, up, server⟩ := ih (fun chunk h => small chunk (by simp [h])) { s with
      client := { s.client with read := s.client.read ++ data }
      up := queued ok (.data data) s.up } reading sock
    refine ⟨t, ?_, by simpa using read, ?_, server⟩
    · rw [List.flatMap_cons, exec_append_iff]
      refine ⟨_, ?_, run⟩
      simp [feed, exec, State.next, End.takeIn, State.clientSend, reading, sock, fits]
    · rw [up]
      cases ok <;> simp [taken, queued]

theorem exec_arrive (chunks : List Bytes) (s : State) (up : s.up = chunks.map .data)
    (takes : s.server.Takes) : ∃ t,
    exec State.next s (chunks.map fun data => .arrive .server data.length) = some t ∧
    t.client = s.client ∧ t.server.written = s.server.written ++ chunks.flatten := by
  induction chunks generalizing s with
  | nil => exact ⟨s, rfl, rfl, by simp⟩
  | cons data rest ih =>
    obtain ⟨listed, sock, writable⟩ := takes
    obtain ⟨t, run, client, written⟩ := ih { s with
      server := { s.server with written := s.server.written ++ data }
      up := rest.map .data } rfl ⟨listed, sock, writable⟩
    refine ⟨t, ?_, client, ?_⟩
    · rw [List.map_cons, exec_cons_iff]
      refine ⟨_, ?_, run⟩
      simp [State.next, State.atServer, up, State.serverPacket, End.onData, End.write, listed, sock,
        writable]
    · simpa using written

theorem clientSends_feed (chunks : List (Bytes × Bool)) :
    clientSends (chunks.flatMap feed) = chunks.map Prod.snd := by
  induction chunks with
  | nil => rfl
  | cons chunk rest ih =>
    rw [clientSends, List.flatMap_cons, List.filterMap_append]
    exact congrArg (chunk.2 :: ·) ih

theorem clientSends_arrive (chunks : List Bytes) :
    clientSends (chunks.map fun data => .arrive .server data.length) = [] := by
  simp [clientSends, clientSent]

theorem zeros_read (before : List Bool) :
    (before.map fun ok => (([0] : Bytes), ok)).flatMap Prod.fst =
      List.replicate before.length 0 := by
  induction before with
  | nil => rfl
  | cons ok rest ih => rw [List.map_cons, List.flatMap_cons, ih]; rfl

theorem zeros_taken (before : List Bool) :
    (taken (before.map fun ok => (([0] : Bytes), ok))).flatten =
      List.replicate (before.count true) 0 := by
  induction before with
  | nil => rfl
  | cons ok rest ih =>
    cases ok with
    | false => exact ih
    | true =>
      rw [List.count_cons_self, List.replicate_succ, ← ih]
      rfl

theorem not_prefix_of_lt {m n : Nat} (h : m < n) :
    ¬ List.replicate m (0 : UInt8) ++ [1] <+: List.replicate n 0 ++ [1] := by
  rintro ⟨rest, same⟩
  have here := congrArg (·[m]?) same
  simp [List.getElem?_append, h] at here

theorem exists_gap {before : List Bool} (failed : false ∈ before) : ∃ events t,
    exec State.next connected events = some t ∧ clientSends events = before ++ [true] ∧
    ¬ t.server.written <+: t.client.read := by
  let chunks : List (Bytes × Bool) := before.map (fun ok => ([0], ok)) ++ [([1], true)]
  have small : ∀ chunk ∈ chunks, chunk.1.length ≤ 999 := by
    intro chunk h
    rcases List.mem_append.mp h with zero | one
    · grind
    · grind
  obtain ⟨m, fed, read, up, server⟩ :=
    exec_feed chunks small { connected with client := newEnd .reading } rfl rfl
  obtain ⟨t, run, client, written⟩ :=
    exec_arrive (taken chunks) m up (server ▸ ⟨rfl, rfl, rfl⟩)
  refine ⟨.acked :: (chunks.flatMap feed ++
    (taken chunks).map fun data => .arrive .server data.length), t, ?_, ?_, ?_⟩
  · exact exec_cons_iff.mpr ⟨_, rfl, exec_append_iff.mpr ⟨_, fed, run⟩⟩
  · show clientSends (_ ++ _) = _
    rw [clientSends, List.filterMap_append, ← clientSends, ← clientSends, clientSends_feed,
      clientSends_arrive]
    simp [chunks, Function.comp_def]
  · have all : t.client.read = List.replicate before.length 0 ++ [1] := by
      rw [client, read, List.flatMap_append, zeros_read]
      rfl
    have some_ : t.server.written = List.replicate (before.count true) 0 ++ [1] := by
      rw [written, server, taken, List.filter_append, List.map_append, List.flatten_append,
        ← taken, zeros_taken]
      rfl
    rw [all, some_]
    refine not_prefix_of_lt (Nat.lt_of_le_of_ne List.count_le_length fun full => ?_)
    cases List.count_eq_length.mp full false failed

/-- The bytes written at each end are at all times the first bytes read at the other, for every
run in which the sends of the client turn out as in the pattern, exactly when none of them
succeeds after one that failed. -/
theorem gap_free_iff (pattern : List Bool) :
    (∀ events t, exec State.next connected events = some t → clientSends events <+: pattern →
      t.server.written <+: t.client.read ∧ t.client.written <+: t.server.read) ↔
    NoneAfterFailure pattern := by
  constructor
  · rintro free before after rfl failed
    obtain ⟨events, t, run, sends, gap⟩ := exists_gap failed
    refine gap (free events t run ?_).1
    rw [sends]
    exact ⟨after, by simp⟩
  · intro good events t run front
    obtain ⟨rest, rfl⟩ := front
    exact ⟨(flow_up run good.left).written_le, (flow_down run).written_le⟩

/-- The first chunk is not sent, the second one is. -/
theorem second_chunk_written_first : ∃ t,
    exec State.next connected [.acked, .read .client [1], .send .client false,
      .read .client [2], .send .client true, .arrive .server 1] = some t ∧
    t.client.read = [1, 2] ∧ t.server.written = [2] ∧
    ¬ t.server.written <+: t.client.read := by
  refine ⟨{ connected with
    client := { newEnd .reading with read := [1, 2] }
    server := { newEnd .reading with written := [2] } }, ?_, rfl, rfl, ?_⟩
  · decide +kernel
  · decide

end Tbtun.Stream
