import Toxera.Mintox.Channel
import Toxera.Relayhub.Socket

/-!
# The noise connection of relayhub

`noiseConn` of `relayhub/noise.go` cuts what is written into messages that the cipher
takes, and keeps what a reader did not ask for.
-/

namespace Relayhub

open Exec Packet Channel

structure Cipher where
  encrypt : Nat → Bytes → Bytes
  decrypt : Nat → Bytes → Option Bytes

structure Cipher.Lawful (C : Cipher) : Prop where
  decrypt_encrypt : ∀ k m, C.decrypt k (C.encrypt k m) = some m
  encrypt_length : ∀ k m, (C.encrypt k m).length = m.length + 16

structure NoiseConn where
  enc : Nat
  dec : Nat
  buf : Bytes
  deriving DecidableEq

variable {arrived c m p rest : Bytes} {ms : List Bytes} {n : NoiseConn}

inductive NoiseErr where
  | frameTooLarge
  | decrypt
  deriving DecidableEq

def maxPlain : Nat := 65535 - 16

namespace NoiseConn

variable (C : Cipher)

/-- The loop of `Write`: the bytes that it puts on the connection, and its return value. -/
def writeLoop : Nat → NoiseConn → Bytes → Bytes × Nat × NoiseConn
  | 0, n, _ => ([], 0, n)
  | fuel + 1, n, p =>
    if 0 < p.length then
      let chunk := if maxPlain < p.length then p.take maxPlain else p
      let ciphertext := C.encrypt n.enc chunk
      let r := writeLoop fuel { n with enc := n.enc + 1 } (p.drop chunk.length)
      (putUint16 (UInt16.ofNat ciphertext.length) ++ ciphertext ++ r.1, chunk.length + r.2.1, r.2.2)
    else ([], 0, n)

def write (n : NoiseConn) (p : Bytes) : Bytes × Nat × NoiseConn :=
  writeLoop C p.length n p

/-- What `Read` copies into a buffer of the given size, and what remains of the bytes that
have arrived. -/
def read (n : NoiseConn) (arrived : Bytes) (size : Nat) :
    Option (Except NoiseErr Bytes × NoiseConn × Bytes) :=
  if 0 < n.buf.length then
    let cp := n.buf.take size
    some (.ok cp, { n with buf := n.buf.drop cp.length }, arrived)
  else if arrived.length < 2 then none
  else
    let msgLen := (uint16 arrived).toNat
    let arrived := arrived.drop 2
    if 65535 < msgLen then some (.error .frameTooLarge, n, arrived)
    else if arrived.length < msgLen then none
    else
      match C.decrypt n.dec (arrived.take msgLen) with
      | none => some (.error .decrypt, n, arrived.drop msgLen)
      | some plaintext =>
        let cp := plaintext.take size
        let buf := if cp.length < plaintext.length then plaintext.drop cp.length else n.buf
        some (.ok cp, { n with dec := n.dec + 1, buf := buf }, arrived.drop msgLen)

end NoiseConn

/-- The two ends, the bytes on their way, and what was written and read so far. -/
structure Link where
  writer : NoiseConn
  reader : NoiseConn
  inFlight : Bytes
  arrived : Bytes
  wire : Bytes
  written : Bytes
  reads : List (Except NoiseErr Bytes)
  deriving DecidableEq

def newLink : Link := ⟨⟨0, 0, []⟩, ⟨0, 0, []⟩, [], [], [], [], []⟩

inductive LinkEvent where
  | write (p : Bytes)
  | deliver (n : Nat)
  | read (size : Nat)

namespace Link

def returned (s : Link) : Bytes :=
  (s.reads.map fun | .ok b => b | .error _ => []).flatten

def next (C : Cipher) (s : Link) : LinkEvent → Option Link
  | .write p =>
    let r := s.writer.write C p
    some { s with
      writer := r.2.2
      inFlight := s.inFlight ++ r.1
      wire := s.wire ++ r.1
      written := s.written ++ p }
  | .deliver n =>
    some { s with arrived := s.arrived ++ s.inFlight.take n, inFlight := s.inFlight.drop n }
  | .read size =>
    (s.reader.read C s.arrived size).map fun r =>
      { s with reader := r.2.1, arrived := r.2.2, reads := s.reads ++ [r.1] }

end Link

def encrypted (C : Cipher) : Nat → List Bytes → List Bytes
  | _, [] => []
  | k, m :: ms => C.encrypt k m :: encrypted C (k + 1) ms

theorem encrypted_append (C : Cipher) (k : Nat) (ms ns : List Bytes) :
    encrypted C k (ms ++ ns) = encrypted C k ms ++ encrypted C (k + ms.length) ns := by
  induction ms generalizing k with
  | nil => rfl
  | cons m ms ih => grind [encrypted]

theorem mem_encrypted {C : Cipher} {k : Nat} (h : c ∈ encrypted C k ms) :
    ∃ m ∈ ms, ∃ k', c = C.encrypt k' m := by
  induction ms generalizing k with
  | nil => cases h
  | cons m ms ih =>
    rcases List.mem_cons.mp h with rfl | h
    · exact ⟨m, List.mem_cons_self, k, rfl⟩
    · grind

def framed (C : Cipher) (k : Nat) (ms : List Bytes) : Bytes :=
  ((encrypted C k ms).map frame).flatten

theorem framed_append (C : Cipher) (k : Nat) (ms ns : List Bytes) :
    framed C k (ms ++ ns) = framed C k ms ++ framed C (k + ms.length) ns := by
  rw [framed, encrypted_append, List.map_append, List.flatten_append]
  rfl

def Fits (m : Bytes) : Prop := 0 < m.length ∧ m.length ≤ maxPlain

theorem Fits.encrypt_length {C : Cipher} (law : C.Lawful) (h : Fits m) (k : Nat) :
    (C.encrypt k m).length ≤ 65535 := by
  have := h.2
  rw [law.encrypt_length]
  simp only [maxPlain] at this
  omega

theorem drop_length_take (b : Bytes) (n : Nat) : b.drop (b.take n).length = b.drop n := by
  rw [List.length_take]
  rcases Nat.le_total n b.length with h | h
  · rw [Nat.min_eq_left h]
  · rw [Nat.min_eq_right h, List.drop_length, List.drop_of_length_le h]

theorem writeLoop_spec (C : Cipher) {fuel : Nat} (n : NoiseConn) (enough : p.length ≤ fuel) :
    ∃ chunks : List Bytes, chunks.flatten = p ∧ (∀ m ∈ chunks, Fits m) ∧
      n.writeLoop C fuel p =
        (framed C n.enc chunks, p.length, { n with enc := n.enc + chunks.length }) := by
  induction fuel generalizing n p with
  | zero =>
    obtain rfl := List.length_eq_zero_iff.mp (Nat.le_zero.mp enough)
    exact ⟨[], rfl, by simp, rfl⟩
  | succ fuel ih =>
    rw [NoiseConn.writeLoop]
    by_cases more : 0 < p.length
    · have cut : (if maxPlain < p.length then p.take maxPlain else p) = p.take maxPlain := by
        split_ifs with long
        · rfl
        · exact (List.take_of_length_le (Nat.not_lt.mp long)).symm
      have fits : Fits (p.take maxPlain) := by
        rw [Fits, List.length_take, maxPlain]
        omega
      have less : (p.drop maxPlain).length ≤ fuel := by
        rw [List.length_drop, maxPlain]
        omega
      obtain ⟨chunks, rest, all, eq⟩ := ih { n with enc := n.enc + 1 } less
      refine ⟨p.take maxPlain :: chunks, ?_, ?_, ?_⟩
      · rw [List.flatten_cons, rest, List.take_append_drop]
      · intro m hm
        rcases List.mem_cons.mp hm with rfl | hm
        · exact fits
        · exact all m hm
      · simp only [if_pos more, cut, drop_length_take, eq, Prod.mk.injEq, NoiseConn.mk.injEq,
          List.length_cons, and_true]
        refine ⟨rfl, ?_, by omega⟩
        rw [List.length_take, List.length_drop]
        omega
    · obtain rfl : p = [] := by simpa using more
      exact ⟨[], rfl, by simp, rfl⟩

/-- The messages that were decrypted and those on their way make up all that was written;
the former are returned except for what is kept in the buffer. -/
structure Streams (C : Cipher) (s : Link) (done pending : List Bytes) : Prop where
  fits : ∀ m ∈ done ++ pending, Fits m
  dec : s.reader.dec = done.length
  enc : s.writer.enc = (done ++ pending).length
  wire : s.wire = framed C 0 (done ++ pending)
  left : s.arrived ++ s.inFlight = framed C done.length pending
  returned : s.returned ++ s.reader.buf = done.flatten
  written : s.written = (done ++ pending).flatten
  ok : ∀ r ∈ s.reads, ∃ b, r = .ok b

section

variable {C : Cipher} {s t : Link} {done pending : List Bytes}

theorem newLink_streams (C : Cipher) : Streams C newLink [] [] :=
  ⟨by simp, rfl, rfl, rfl, rfl, rfl, rfl, by simp [newLink]⟩

theorem Streams.write (h : Streams C s done pending) (step : s.next C (.write p) = some t) :
    ∃ chunks, Streams C t done (pending ++ chunks) := by
  obtain ⟨chunks, split, fits, eq⟩ := writeLoop_spec C s.writer (le_refl p.length)
  have all : done ++ (pending ++ chunks) = done ++ pending ++ chunks :=
    (List.append_assoc ..).symm
  simp only [Link.next, NoiseConn.write, eq] at step
  cases step
  refine ⟨chunks, ?_, h.dec, ?_, ?_, ?_, h.returned, ?_, h.ok⟩
  · intro m hm
    rw [all] at hm
    exact (List.mem_append.mp hm).elim (h.fits m) (fits m)
  · rw [all, List.length_append, ← h.enc]
  · rw [all, framed_append, Nat.zero_add, ← h.wire, ← h.enc]
  · rw [framed_append, ← h.left, ← List.length_append, ← h.enc, List.append_assoc]
  · rw [all, List.flatten_append, ← h.written, split]

theorem Streams.deliver (h : Streams C s done pending) {n : Nat}
    (step : s.next C (.deliver n) = some t) : Streams C t done pending := by
  cases step
  refine ⟨h.fits, h.dec, h.enc, h.wire, ?_, h.returned, h.written, h.ok⟩
  rw [List.append_assoc, List.take_append_drop, h.left]

theorem Streams.takeFrame (law : C.Lawful) (h : Streams C s done pending)
    (taken : Channel.takeFrame s.arrived = some (c, rest)) :
    ∃ m ms, pending = m :: ms ∧ c = C.encrypt done.length m ∧
      rest ++ s.inFlight = framed C (done.length + 1) ms := by
  have whole := frames.stable taken s.inFlight
  rw [h.left] at whole
  cases pending with
  | nil => cases whole
  | cons m ms =>
    have short : (C.encrypt done.length m).length < 65536 :=
      Nat.lt_succ_of_le ((h.fits m (by simp)).encrypt_length law _)
    have first := takeFrame_frame short (framed C (done.length + 1) ms)
    obtain ⟨rfl, eq⟩ := Prod.mk.inj (Option.some.inj (whole.symm.trans first))
    exact ⟨m, ms, rfl, rfl, eq⟩

theorem NoiseConn.read_buffered (kept : n.buf ≠ []) (arrived : Bytes) (size : Nat) :
    n.read C arrived size =
      some (.ok (n.buf.take size), { n with buf := n.buf.drop size }, arrived) := by
  rw [NoiseConn.read, if_pos (List.length_pos_of_ne_nil kept)]
  simp only [drop_length_take]

theorem NoiseConn.read_waits (empty : n.buf = []) (waits : Channel.takeFrame arrived = none)
    (size : Nat) : n.read C arrived size = none := by
  rw [NoiseConn.read, if_neg (by simp [empty])]
  by_cases two : arrived.length < 2
  · rw [if_pos two]
  · have missing : (arrived.drop 2).length < (uint16 arrived).toNat := by
      rw [List.length_drop]
      have := (takeFrame_eq_none.mp waits).resolve_left two
      omega
    have max := (uint16 arrived).toNat_lt
    rw [if_neg two]
    simp only [if_neg (by omega : ¬ 65535 < (uint16 arrived).toNat), if_pos missing]

theorem NoiseConn.read_message (empty : n.buf = [])
    (taken : Channel.takeFrame arrived = some (c, rest)) (opens : C.decrypt n.dec c = some m)
    (size : Nat) :
    n.read C arrived size =
      some (.ok (m.take size), { n with dec := n.dec + 1, buf := m.drop size }, rest) := by
  obtain ⟨two, len, cut⟩ := takeFrame_eq_some taken
  have max := (uint16 arrived).toNat_lt
  have whole : ¬ (arrived.drop 2).length < (uint16 arrived).toNat := by
    rw [cut, List.length_append, len]
    omega
  have buf : (if (m.take size).length < m.length then m.drop (m.take size).length else n.buf) =
      m.drop size := by
    rw [drop_length_take]
    split_ifs with more
    · rfl
    · rw [List.length_take] at more
      rw [empty, List.drop_of_length_le (by omega)]
  rw [NoiseConn.read, if_neg (by simp [empty]), if_neg (by omega)]
  dsimp only
  rw [if_neg (by omega), if_neg whole, len, cut, List.take_left, List.drop_left, opens]
  simp only [buf]

theorem Streams.read_cases (law : C.Lawful) (h : Streams C s done pending) (size : Nat) :
    (s.reader.buf ≠ [] ∧ s.reader.read C s.arrived size =
      some (.ok (s.reader.buf.take size),
        { s.reader with buf := s.reader.buf.drop size }, s.arrived)) ∨
    (s.reader.buf = [] ∧ Channel.takeFrame s.arrived = none ∧
      s.reader.read C s.arrived size = none) ∨
    ∃ m ms rest, s.reader.buf = [] ∧ pending = m :: ms ∧
      rest ++ s.inFlight = framed C (done.length + 1) ms ∧
      s.reader.read C s.arrived size =
        some (.ok (m.take size), { s.reader with dec := s.reader.dec + 1, buf := m.drop size },
          rest) := by
  by_cases kept : s.reader.buf = []
  · cases taken : Channel.takeFrame s.arrived with
    | none => exact Or.inr (Or.inl ⟨kept, rfl, NoiseConn.read_waits kept taken size⟩)
    | some r =>
      obtain ⟨m, ms, rfl, sealed, eq⟩ := h.takeFrame law taken
      have opens : C.decrypt s.reader.dec r.1 = some m := by
        rw [sealed, h.dec, law.decrypt_encrypt]
      exact Or.inr (Or.inr ⟨m, ms, r.2, kept, rfl, eq,
        NoiseConn.read_message kept taken opens size⟩)
  · exact Or.inl ⟨kept, NoiseConn.read_buffered kept _ size⟩

theorem Link.returned_snoc {b : Bytes} (reads : t.reads = s.reads ++ [.ok b]) :
    t.returned = s.returned ++ b := by
  rw [Link.returned, reads, List.map_append, List.flatten_append]
  simp [Link.returned]

theorem Streams.unread (h : Streams C s done pending) :
    s.written = s.returned ++ (s.reader.buf ++ pending.flatten) := by
  rw [h.written, List.flatten_append, ← h.returned, List.append_assoc]

/-- A `Read` that does not wait returns the next bytes, at least one if it is asked for any. -/
structure Reads (C : Cipher) (s : Link) (size : Nat) (t : Link) (b : Bytes) : Prop where
  streams : ∃ done pending, Streams C t done pending
  returned : t.returned = s.returned ++ b
  nonempty : 0 < size → b ≠ []
  written : t.written = s.written
  inFlight : t.inFlight = s.inFlight

def Link.afterRead (s : Link) (b : Bytes) (reader : NoiseConn) (arrived : Bytes) : Link :=
  { s with reader := reader, arrived := arrived, reads := s.reads ++ [.ok b] }

theorem Streams.ok_snoc (h : Streams C s done pending) (b : Bytes) :
    ∀ r ∈ s.reads ++ [.ok b], ∃ b, r = Except.ok b := by
  intro r hr
  rcases List.mem_append.mp hr with hr | hr
  · exact h.ok r hr
  · exact ⟨b, List.mem_singleton.mp hr⟩

theorem Streams.read_buffer (h : Streams C s done pending) (size : Nat) :
    Streams C (s.afterRead (s.reader.buf.take size)
      { s.reader with buf := s.reader.buf.drop size } s.arrived) done pending := by
  refine ⟨h.fits, h.dec, h.enc, h.wire, h.left, ?_, h.written, h.ok_snoc _⟩
  rw [Link.returned_snoc rfl, List.append_assoc]
  exact (congrArg _ (List.take_append_drop ..)).trans h.returned

theorem Streams.read_next (h : Streams C s done (m :: ms)) (empty : s.reader.buf = [])
    (left : rest ++ s.inFlight = framed C (done.length + 1) ms) (size : Nat) :
    Streams C (s.afterRead (m.take size)
      { s.reader with dec := s.reader.dec + 1, buf := m.drop size } rest) (done ++ [m]) ms := by
  have all : done ++ [m] ++ ms = done ++ m :: ms := by simp
  refine ⟨?_, ?_, ?_, ?_, ?_, ?_, ?_, h.ok_snoc _⟩
  · rw [all]
    exact h.fits
  · rw [List.length_append, ← h.dec]
    rfl
  · rw [all]
    exact h.enc
  · rw [all]
    exact h.wire
  · rw [List.length_append]
    exact left
  · have before := h.returned
    rw [empty, List.append_nil] at before
    rw [Link.returned_snoc rfl, List.append_assoc, before, List.flatten_append,
      List.flatten_singleton]
    exact congrArg _ (List.take_append_drop ..)
  · rw [all]
    exact h.written

theorem Streams.read (law : C.Lawful) (h : Streams C s done pending) {size : Nat}
    (step : s.next C (.read size) = some t) : ∃ b, Reads C s size t b := by
  have nonempty {m : Bytes} (some_left : m ≠ []) (asked : 0 < size) : m.take size ≠ [] := by
    rw [ne_eq, List.take_eq_nil_iff, not_or]
    exact ⟨by omega, some_left⟩
  rw [Link.next] at step
  rcases h.read_cases law size with ⟨kept, read⟩ | ⟨-, -, read⟩ |
    ⟨m, ms, rest, empty, rfl, left, read⟩
  · rw [read] at step
    cases step
    exact ⟨s.reader.buf.take size, ⟨_, _, h.read_buffer size⟩, Link.returned_snoc rfl,
      nonempty kept, rfl, rfl⟩
  · rw [read] at step
    cases step
  · rw [read] at step
    cases step
    have fits := h.fits m (by simp)
    exact ⟨m.take size, ⟨_, _, h.read_next empty left size⟩, Link.returned_snoc rfl,
      nonempty (List.ne_nil_of_length_pos fits.1), rfl, rfl⟩

theorem Streams.can_read (law : C.Lawful) (h : Streams C s done pending) (arrived : s.inFlight = [])
    (more : s.returned ≠ s.written) (size : Nat) : ∃ t, s.next C (.read size) = some t := by
  rcases h.read_cases law size with ⟨-, read⟩ | ⟨empty, waits, -⟩ | ⟨m, ms, rest, -, -, -, read⟩
  · exact ⟨_, by rw [Link.next, read]; rfl⟩
  · have left := h.left
    rw [arrived, List.append_nil] at left
    cases pending with
    | nil =>
      refine absurd ?_ more
      rw [h.unread, empty]
      simp
    | cons m ms =>
      have short : (C.encrypt done.length m).length < 65536 :=
        Nat.lt_succ_of_le ((h.fits m (by simp)).encrypt_length law _)
      have first := takeFrame_frame short (framed C (done.length + 1) ms)
      rw [left] at waits
      cases waits.symm.trans first
  · exact ⟨_, by rw [Link.next, read]; rfl⟩

theorem Streams.drains (law : C.Lawful) (h : Streams C s done pending) (arrived : s.inFlight = [])
    {sizes : List Nat}
    (enough : s.written.length ≤ s.returned.length + (sizes.filter (0 < ·)).length) :
    ∃ front back t, sizes = front ++ back ∧
      exec (Link.next C) s (front.map .read) = some t ∧ t.returned = s.written := by
  induction sizes generalizing s done pending with
  | nil =>
    refine ⟨[], [], s, rfl, rfl, ?_⟩
    rw [h.unread, List.length_append] at enough
    have nothing : s.reader.buf ++ pending.flatten = [] :=
      List.length_eq_zero_iff.mp (by simpa using enough)
    rw [h.unread, nothing, List.append_nil]
  | cons size sizes ih =>
    by_cases more : s.returned = s.written
    · exact ⟨[], size :: sizes, s, rfl, rfl, more⟩
    · obtain ⟨t, step⟩ := h.can_read law arrived more size
      obtain ⟨b, ⟨done', pending', h'⟩, returned, nonempty, written, inFlight⟩ := h.read law step
      have enough' : t.written.length ≤ t.returned.length + (sizes.filter (0 < ·)).length := by
        rw [written, returned, List.length_append]
        by_cases asked : 0 < size
        · have := List.length_pos_iff.mpr (nonempty asked)
          rw [List.filter_cons_of_pos (by simpa using asked), List.length_cons] at enough
          omega
        · grind
      obtain ⟨front, back, u, rfl, run, all⟩ := ih h' (inFlight.trans arrived) enough'
      exact ⟨size :: front, back, u, rfl, exec_cons_iff.mpr ⟨t, step, run⟩, all.trans written⟩

end

def LinkEvent.payload : LinkEvent → Bytes
  | .write p => p
  | .deliver _ => []
  | .read _ => []

theorem streams_of_exec {C : Cipher} (law : C.Lawful) {es : List LinkEvent} {s : Link}
    (run : exec (Link.next C) newLink es = some s) :
    (∃ done pending, Streams C s done pending) ∧
      s.written = (es.map LinkEvent.payload).flatten := by
  refine exec_history (P := fun es s => (∃ done pending, Streams C s done pending) ∧
    s.written = (es.map LinkEvent.payload).flatten) ⟨⟨[], [], newLink_streams C⟩, rfl⟩ ?_ run
  rintro es s e t - ⟨⟨done, pending, h⟩, written⟩ step
  rw [List.map_append, List.flatten_append, ← written]
  cases e with
  | write p =>
    obtain ⟨chunks, h'⟩ := h.write step
    cases step
    exact ⟨⟨done, _, h'⟩, by simp [LinkEvent.payload]⟩
  | deliver n =>
    refine ⟨⟨done, pending, h.deliver step⟩, ?_⟩
    cases step
    simp [LinkEvent.payload]
  | read size =>
    obtain ⟨b, reads⟩ := h.read law step
    exact ⟨reads.streams, by simpa [LinkEvent.payload] using reads.written⟩

/-- Along every run no read fails and the bytes read are a prefix of the bytes written. -/
theorem noise_is_stream {C : Cipher} (law : C.Lawful) {es : List LinkEvent} {s : Link}
    (run : exec (Link.next C) newLink es = some s) :
    (∀ r ∈ s.reads, ∃ b, r = .ok b) ∧
    s.returned <+: (es.map LinkEvent.payload).flatten ∧
    (∃ ciphertexts : List Bytes, s.wire = (ciphertexts.map frame).flatten ∧
      ∀ c ∈ ciphertexts, c.length ≤ 65535) ∧
    ∀ sizes : List Nat,
      (es.map LinkEvent.payload).flatten.length ≤
        s.returned.length + (sizes.filter (0 < ·)).length →
      ∃ front back t, sizes = front ++ back ∧
        exec (Link.next C) s (.deliver s.inFlight.length :: front.map .read) = some t ∧
        t.returned = (es.map LinkEvent.payload).flatten := by
  obtain ⟨⟨done, pending, h⟩, written⟩ := streams_of_exec law run
  rw [← written]
  refine ⟨h.ok, ⟨_, h.unread.symm⟩, ⟨_, h.wire, ?_⟩, ?_⟩
  · intro c hc
    obtain ⟨m, hm, k, rfl⟩ := mem_encrypted hc
    exact (h.fits m hm).encrypt_length law k
  · intro sizes enough
    have step : s.next C (.deliver s.inFlight.length) =
        some { s with arrived := s.arrived ++ s.inFlight, inFlight := [] } := by
      rw [Link.next, List.take_length, List.drop_length]
    obtain ⟨front, back, t, split, reads, all⟩ := (h.deliver step).drains law rfl enough
    exact ⟨front, back, t, split, exec_cons_iff.mpr ⟨_, step, reads⟩, all⟩

def copyCipher : Cipher where
  encrypt _ m := m ++ List.replicate 16 0
  decrypt _ c := some (c.take (c.length - 16))

theorem copyCipher_lawful : copyCipher.Lawful where
  decrypt_encrypt k m := by simp [copyCipher]
  encrypt_length k m := by simp [copyCipher]

theorem noise_is_stream_short :
    copyCipher.Lawful ∧
    ∃ s, exec (Link.next copyCipher) newLink
        [.write [1, 2, 3], .write [], .deliver 21, .read 0, .read 2] = some s ∧
      s.returned = [1, 2] ∧ s.returned <+: [1, 2, 3] := by
  have observed : (exec (Link.next copyCipher) newLink
      [.write [1, 2, 3], .write [], .deliver 21, .read 0, .read 2]).map Link.returned =
        some [1, 2] := by decide +kernel
  obtain ⟨s, run, returned⟩ := Option.map_eq_some_iff.mp observed
  exact ⟨copyCipher_lawful, s, run, returned, (noise_is_stream copyCipher_lawful run).2.1⟩

end Relayhub
