import Mathlib.Algebra.Ring.Int.Defs
import Mathlib.Algebra.Ring.Nat
import Mathlib.Data.List.Basic
import Toxera.Lib.Exec

/-!
# Sockets of relayhub

`relayhub/socket.go` splits a byte stream over relayed connections, each of which the
relay limits to a number of bytes.
-/

namespace Relayhub

variable {x : Int}

abbrev Bytes := List UInt8

def int64 (x : Int) : Int := x.bmod (2 ^ 64)

theorem int64_of_fits (lo : -2 ^ 63 ≤ x) (hi : x < 2 ^ 63) : int64 x = x :=
  Int.bmod_eq_of_le (by omega) (by omega)

theorem int64_wraps (lo : 2 ^ 63 ≤ x) (hi : x < 2 ^ 64 + 2 ^ 63) : int64 x = x - 2 ^ 64 := by
  rw [int64, Int.bmod_def]
  split_ifs <;> omega

theorem int64_zero : int64 0 = 0 := int64_of_fits (by decide) (by decide)

theorem int64_lt (x : Int) : int64 x < 2 ^ 63 :=
  Int.bmod_lt (by decide)

@[simp] theorem int64_add_left (x y : Int) : int64 (int64 x + y) = int64 (x + y) :=
  Int.bmod_add_bmod

@[simp] theorem int64_add_right (x y : Int) : int64 (x + int64 y) = int64 (x + y) :=
  Int.add_bmod_bmod

def binaryMaxVarintLen64 : Nat := 10

def putUvarint : Nat → Nat → Bytes
  | 0, _ => []
  | n + 1, v =>
    if v < 128 then [UInt8.ofNat v]
    else UInt8.ofNat (v % 128 + 128) :: putUvarint n (v / 128)

def encodeVarint (v : Nat) : Bytes := putUvarint binaryMaxVarintLen64 v

def pbMessage (data : Bytes) : Bytes := encodeVarint data.length ++ data

/-- The sending side of a connection: all bytes put on it, those among them that
`Write` was given, and whether this end has closed it. -/
structure Wire where
  sent : Bytes
  payload : Bytes
  closed : Bool
  deriving DecidableEq

/-- A connection is its place in the order of opening and the bytes of the other end
that are still to be read, after which it ends. -/
structure RelayedConn where
  wire : Nat
  unread : Bytes
  deriving DecidableEq

structure RelaySocket where
  id : Bytes
  ch : List RelayedConn
  /-- `client` is not nil -/
  client : Bool
  dstPeer : Bytes
  limitBytes : Int
  cur : Option RelayedConn
  writeOnCur : Int
  /-- `ctx` is done -/
  ctxDone : Bool
  /-- `connOnce` has run -/
  connOnce : Bool
  closed : Bool
  readTotal : Int
  writeTotal : Int
  rotCount : Int
  closeSignal : Bool
  /-- every connection of the socket, in the order of opening -/
  wires : List Wire
  deriving DecidableEq

inductive Err where
  | closedPipe
  | eof
  | noRelayClient
  | connectThroughRelay
  | sendSocketID
  /-- an error of the connection itself -/
  | conn
  deriving DecidableEq, Repr

/-- A client is given by the `Limit.Data` that the relay has announced to it, if any. -/
def limitOf : Option (Option UInt64) → Int
  | some (some data) => int64 data.toNat
  | some none => 0
  | none => 0

def newRelaySocketWithID (id : Bytes) (client : Option (Option UInt64)) : RelaySocket where
  id := id
  ch := []
  client := client.isSome
  dstPeer := []
  limitBytes := limitOf client
  cur := none
  writeOnCur := 0
  ctxDone := false
  connOnce := false
  closed := false
  readTotal := 0
  writeTotal := 0
  rotCount := 0
  closeSignal := false
  wires := []

namespace RelaySocket

def chCap : Nat := 8

def closeConn (s : RelaySocket) (c : RelayedConn) : RelaySocket :=
  { s with wires := s.wires.modify c.wire fun w => { w with closed := true } }

def connClosed (s : RelaySocket) (c : RelayedConn) : Bool :=
  match s.wires[c.wire]? with
  | none => false
  | some w => w.closed

def giveUp (s : RelaySocket) (c : RelayedConn) : RelaySocket :=
  { s.closeConn c with cur := none, rotCount := int64 (s.rotCount + 1) }

structure Dial where
  connected : Bool
  /-- the bytes that the write of the first message accepts before it fails -/
  failsAfter : Option Nat
  /-- what the other end will send -/
  unread : Bytes

/-- The part that `Connect` and `rotateWrite` share: a connection through the relay
that starts with the socket id. -/
def openConn (s : RelaySocket) (dial : Dial) : RelaySocket × Option Err :=
  if dial.connected = false then (s, some .connectThroughRelay)
  else
    match dial.failsAfter with
    | some n =>
      ({ s with wires := s.wires ++ [⟨(pbMessage s.id).take n, [], true⟩] }, some .sendSocketID)
    | none =>
      ({ s with
          wires := s.wires ++ [⟨pbMessage s.id, [], false⟩]
          cur := some ⟨s.wires.length, dial.unread⟩
          writeOnCur := (s.id.length + 1 : Nat) }, none)

def aimAt (s : RelaySocket) (ctxDone : Bool) (dst : Bytes) : RelaySocket :=
  { s with
    connOnce := true
    ctxDone := if s.connOnce then s.ctxDone else ctxDone
    dstPeer := dst }

def connect (s : RelaySocket) (ctxDone : Bool) (dst : Bytes) (dial : Dial) :
    Option (RelaySocket × Option Err) :=
  if s.client then some ((s.aimAt ctxDone dst).openConn dial) else none

def retireCur (s : RelaySocket) : RelaySocket :=
  match s.cur with
  | some c => { s.closeConn c with rotCount := int64 (s.rotCount + 1) }
  | none => s

def rotateWrite (s : RelaySocket) (dial : Dial) : RelaySocket × Option Err :=
  if s.client then s.retireCur.openConn dial else (s.retireCur, some .noRelayClient)

def MustRotate (s : RelaySocket) : Prop :=
  s.cur = none ∨ (0 < s.limitBytes ∧ s.limitBytes ≤ s.writeOnCur)

instance (s : RelaySocket) : Decidable s.MustRotate :=
  inferInstanceAs (Decidable (_ ∨ _))

def prepareWrite (s : RelaySocket) (dial : Dial) : RelaySocket × Option Err :=
  if s.MustRotate then s.rotateWrite dial else (s, none)

def avail (s : RelaySocket) (len : Nat) : Int :=
  if 0 < s.limitBytes ∧ int64 (s.limitBytes - s.writeOnCur) < len then
    int64 (s.limitBytes - s.writeOnCur)
  else len

def put (s : RelaySocket) (c : RelayedConn) (b : Bytes) : RelaySocket :=
  { s with
    wires := s.wires.modify c.wire fun w =>
      { w with sent := w.sent ++ b, payload := w.payload ++ b }
    writeOnCur := int64 (s.writeOnCur + b.length)
    writeTotal := int64 (s.writeTotal + b.length) }

def writeOnConn (s : RelaySocket) (p : Bytes) (failsAfter : Option Nat) :
    Option (RelaySocket × Nat × Option Err) :=
  match s.cur with
  | none => none
  | some c =>
    if 0 ≤ s.avail p.length ∧ s.avail p.length ≤ p.length then
      let chunk := p.take (s.avail p.length).toNat
      match if s.connClosed c then some 0 else failsAfter with
      | none => some (s.put c chunk, chunk.length, none)
      | some n =>
        some ((s.put c (chunk.take n)).giveUp c, (chunk.take n).length, some .conn)
    else none

def write (s : RelaySocket) (p : Bytes) (dial : Dial) (failsAfter : Option Nat) :
    Option (RelaySocket × Nat × Option Err) :=
  if s.closed then some (s, 0, some .closedPipe)
  else
    match s.prepareWrite dial with
    | (s, some err) => some (s, 0, some err)
    | (s, none) => s.writeOnConn p failsAfter

def remaining (s : RelaySocket) : Int :=
  if s.limitBytes ≤ 0 then 2 ^ 62 else int64 (s.limitBytes - s.writeOnCur)

def countRead (s : RelaySocket) (n : Nat) : RelaySocket :=
  { s with readTotal := int64 (s.readTotal + n) }

def skip (s : RelaySocket) (c : RelayedConn) (n : Nat) : RelaySocket :=
  { s with cur := some { c with unread := c.unread.drop n } }

def signalClose (s : RelaySocket) : RelaySocket := { s with closeSignal := true }

def dispatchIncoming (s : RelaySocket) (unread : Bytes) : RelaySocket :=
  if s.ch.length < chCap then
    { s with ch := s.ch ++ [⟨s.wires.length, unread⟩], wires := s.wires ++ [⟨[], [], false⟩] }
  else { s with wires := s.wires ++ [⟨[], [], true⟩] }

def sockPrefix : Bytes := [115, 111, 99, 107, 48, 46] -- sock0.
def closePrefix : Bytes := [99, 108, 111, 115, 101, 46] -- close.

def sockID : Bytes := sockPrefix ++ List.replicate 25 48

/-- The first six bytes of the id are replaced; a shorter id is sliced out of range. -/
def closeID (s : RelaySocket) : Option Bytes :=
  if s.id.length < 6 then none else some (closePrefix ++ s.id.drop 6)

def sendClose (s : RelaySocket) (dial : Dial) : Option RelaySocket :=
  if s.dstPeer ≠ [] ∧ s.client then
    s.closeID.map fun closeID =>
      if dial.connected = false then s
      else
        let message := pbMessage closeID
        { s with wires := s.wires ++ [⟨message.take (dial.failsAfter.getD message.length), [], true⟩] }
  else some s

def close (s : RelaySocket) (dial : Dial) : Option RelaySocket :=
  if s.closed then some s
  else
    (sendClose { s with closed := true } dial).map fun s =>
      match s.cur with
      | none => { s with ctxDone := true }
      | some c => { s.closeConn c with ctxDone := true, cur := none }

end RelaySocket

/-- A socket with the buffer size of the `Read` that is under way, and what the calls
of `Read` have returned. -/
structure Endpoint where
  sock : RelaySocket
  reading : Option Nat
  returned : List (Bytes × Option Err)
  deriving DecidableEq

variable {e e' : Endpoint}

def newEndpoint (id : Bytes) (client : Option (Option UInt64)) : Endpoint :=
  ⟨newRelaySocketWithID id client, none, []⟩

inductive Pick where
  | conn
  | closeSignal
  | ctxDone
  deriving DecidableEq

instance Pick.decidableForall {P : Pick → Prop} [∀ pick, Decidable (P pick)] : Decidable (∀ pick, P pick) :=
  decidable_of_iff (P .conn ∧ P .closeSignal ∧ P .ctxDone)
    ⟨fun ⟨h₁, h₂, h₃⟩ pick => by cases pick <;> assumption, fun h => ⟨h _, h _, h _⟩⟩

/-- How a read of the connection ends: with more to come, at the end, or in an error. -/
inductive ReadEnd where
  | more
  | eof
  | failed
  deriving DecidableEq

inductive ReadStep where
  | begin (size : Nat)
  | acceptNext (pick : Pick)
  /-- the connection returns so many bytes -/
  | readCur (n : Nat) (how : ReadEnd)
  deriving DecidableEq

namespace Endpoint

def ret (e : Endpoint) (sock : RelaySocket) (b : Bytes) (err : Option Err) : Endpoint :=
  ⟨sock, none, e.returned ++ [(b, err)]⟩

def beginRead (e : Endpoint) (size : Nat) : Option Endpoint :=
  if e.reading ≠ none then none
  else if e.sock.closed then some (e.ret e.sock [] (some .closedPipe))
  else some { e with reading := some size }

def acceptNext (e : Endpoint) (pick : Pick) : Option Endpoint :=
  if e.reading = none ∨ e.sock.cur ≠ none then none
  else if e.sock.client = false then some (e.ret e.sock [] (some .noRelayClient))
  else
    match pick with
    | .conn =>
      match e.sock.ch with
      | [] => none
      | c :: ch => some { e with sock := { e.sock with ch := ch, cur := some c } }
    | .closeSignal =>
      if e.sock.closeSignal then
        some (e.ret { e.sock with closeSignal := false } [] (some .eof))
      else none
    | .ctxDone => if e.sock.ctxDone then some (e.ret e.sock [] (some .eof)) else none

/-- At the end of a connection `Read` returns what came with the end, and goes on with the next
connection if nothing did. -/
def readCur (e : Endpoint) (n : Nat) (how : ReadEnd) : Option Endpoint :=
  match e.reading, e.sock.cur with
  | some size, some c =>
    if size < n ∨ c.unread.length < n then none
    else
      let sock := e.sock.countRead n
      match how with
      | .more => some (e.ret (sock.skip c n) (c.unread.take n) none)
      | .failed => some (e.ret (sock.skip c n) (c.unread.take n) (some .conn))
      | .eof =>
        if n < c.unread.length ∧ sock.connClosed c = false then none
        else if 0 < n then some (e.ret (sock.giveUp c) (c.unread.take n) none)
        else some { e with sock := sock.giveUp c }
  | _, _ => none

def readStep (e : Endpoint) : ReadStep → Option Endpoint
  | .begin size => e.beginRead size
  | .acceptNext pick => e.acceptNext pick
  | .readCur n how => e.readCur n how

def delivered (e : Endpoint) : Bytes := (e.returned.map Prod.fst).flatten

end Endpoint

namespace Endpoint

inductive Reads (e : Endpoint) : ReadStep → Endpoint → Prop
  | refused {size : Nat} : e.sock.closed = true →
    Reads e (.begin size) (e.ret e.sock [] (some .closedPipe))
  | begun {size : Nat} : e.sock.closed = false → Reads e (.begin size) { e with reading := some size }
  | noClient {pick : Pick} : e.sock.client = false →
    Reads e (.acceptNext pick) (e.ret e.sock [] (some .noRelayClient))
  | accepted {c : RelayedConn} {ch : List RelayedConn} : e.sock.cur = none → e.sock.ch = c :: ch →
    Reads e (.acceptNext .conn) { e with sock := { e.sock with ch := ch, cur := some c } }
  | closeSignal : e.sock.cur = none → e.sock.closeSignal = true →
    Reads e (.acceptNext .closeSignal) (e.ret { e.sock with closeSignal := false } [] (some .eof))
  | ctxDone : e.sock.cur = none → e.sock.ctxDone = true →
    Reads e (.acceptNext .ctxDone) (e.ret e.sock [] (some .eof))
  | part {c : RelayedConn} {n : Nat} {how : ReadEnd} {err : Option Err} : e.sock.cur = some c →
    n ≤ c.unread.length → err ≠ some .eof →
    Reads e (.readCur n how) (e.ret ((e.sock.countRead n).skip c n) (c.unread.take n) err)
  | lastPart {c : RelayedConn} {n : Nat} : e.sock.cur = some c →
    (n < c.unread.length → e.sock.connClosed c = true) →
    Reads e (.readCur n .eof) (e.ret ((e.sock.countRead n).giveUp c) (c.unread.take n) none)
  | ended {c : RelayedConn} : e.sock.cur = some c →
    (0 < c.unread.length → e.sock.connClosed c = true) →
    Reads e (.readCur 0 .eof) { e with sock := (e.sock.countRead 0).giveUp c }

theorem reads_of_beginRead {size : Nat} (h : e.beginRead size = some e') :
    e.Reads (.begin size) e' := by
  unfold beginRead at h
  split_ifs at h with _ closed
  · cases h
    exact .refused closed
  · cases h
    exact .begun (Bool.eq_false_iff.mpr closed)

theorem reads_of_acceptNext {pick : Pick} (h : e.acceptNext pick = some e') :
    e.Reads (.acceptNext pick) e' := by
  unfold acceptNext at h
  split at h
  · cases h
  · rename_i enabled
    have idle : e.sock.cur = none := not_not.mp (not_or.mp enabled).2
    split at h
    · rename_i noClient
      cases h
      exact .noClient noClient
    · cases pick with
      | conn =>
        simp only at h
        split at h
        · cases h
        · rename_i waiting
          cases h
          exact .accepted idle waiting
      | closeSignal =>
        simp only at h
        split_ifs at h with raised
        cases h
        exact .closeSignal idle raised
      | ctxDone =>
        simp only at h
        split_ifs at h with done
        cases h
        exact .ctxDone idle done

theorem reads_of_readCur {n : Nat} {how : ReadEnd} (h : e.readCur n how = some e') :
    e.Reads (.readCur n how) e' := by
  unfold readCur at h
  split at h
  · rename_i size c _ cur
    split at h
    · cases h
    · rename_i enough
      have le : n ≤ c.unread.length := Nat.not_lt.mp (not_or.mp enough).2
      cases how with
      | more =>
        cases h
        exact .part cur le (by simp)
      | failed =>
        cases h
        exact .part cur le (by simp)
      | eof =>
        simp only at h
        split_ifs at h with early pos
        · cases h
          exact .lastPart cur fun less => Bool.of_not_eq_false fun opened => early ⟨less, opened⟩
        · obtain rfl : n = 0 := Nat.eq_zero_of_not_pos pos
          cases h
          exact .ended cur fun less => Bool.of_not_eq_false fun opened => early ⟨less, opened⟩
  · cases h

theorem reads_of_readStep {step : ReadStep} (h : e.readStep step = some e') : e.Reads step e' := by
  cases step with
  | begin size => exact reads_of_beginRead h
  | acceptNext pick => exact reads_of_acceptNext h
  | readCur n how => exact reads_of_readCur h

end Endpoint

inductive Event where
  | connect (ctxDone : Bool) (dst : Bytes) (dial : RelaySocket.Dial)
  | write (p : Bytes) (dial : RelaySocket.Dial) (failsAfter : Option Nat)
  | read (step : ReadStep)
  | dispatchIncoming (unread : Bytes)
  | signalClose
  /-- the context given to `Connect` ends -/
  | cancel
  | close (dial : RelaySocket.Dial)

def next (e : Endpoint) : Event → Option Endpoint
  | .connect ctxDone dst dial =>
    (e.sock.connect ctxDone dst dial).map fun r => { e with sock := r.1 }
  | .write p dial failsAfter => (e.sock.write p dial failsAfter).map fun r => { e with sock := r.1 }
  | .read step => e.readStep step
  | .dispatchIncoming unread => some { e with sock := e.sock.dispatchIncoming unread }
  | .signalClose => some { e with sock := e.sock.signalClose }
  | .cancel => some { e with sock := { e.sock with ctxDone := true } }
  | .close dial => (e.sock.close dial).map fun sock => { e with sock := sock }

end Relayhub
