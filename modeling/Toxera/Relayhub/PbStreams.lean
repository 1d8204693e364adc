import Toxera.Lib.Dialogue
import Toxera.Relayhub.Incoming

/-!
# Length-prefixed messages on a stream

`readVarint`, `readOnePb` and `writePbMessage` of relayhub as programs that take their
bytes from a stream: the length is read byte by byte, and the message in one read of that
length.
-/

namespace Relayhub.Streams

open Dialogue Duplex

variable {bs : Bytes} {c : Conn UInt8 String} {fuel i n x : Nat} {messages : List Bytes}
  {α γ : Type}

abbrev Call := Dialogue.Call UInt8 String String

def eof : String := "EOF"
def unexpectedEOF : String := "unexpected EOF"
def varintOverflow : String := "binary: varint overflows a 64-bit integer"
def tooLarge : String := "protobuf message too large"

def readByte : Call UInt8 := do
  let buf ← Call.get 1
  return buf.headD 0

/-- The loop of `binary.ReadUvarint` at the byte with the given index, with what is read so far.
-/
def readVarintLoop : Nat → Nat → Nat → Call UInt64
  | 0, _, _ => throw varintOverflow
  | fuel + 1, i, x => do
    let b ← readByte.adapt fun err => if 0 < i ∧ err = eof then unexpectedEOF else err
    if b < 128 then
      if i = binaryMaxVarintLen64 - 1 ∧ 1 < b then throw varintOverflow
      else return UInt64.ofNat (x + b.toNat * 128 ^ i)
    else readVarintLoop fuel (i + 1) (x + b.toNat % 128 * 128 ^ i)

def readVarint : Call UInt64 := readVarintLoop binaryMaxVarintLen64 0 0

def readOnePb : Call Bytes := do
  let l ← readVarint
  if 4096 < l.toNat then throw tooLarge
  Call.get l.toNat

def writePbMessage (data : Bytes) : Call Unit := Call.put (pbMessage data)

theorem reads_byte (b : UInt8) : Consumes readByte.run [b] (.ok b) := by
  refine Consumes.bind_last (Consumes.get rfl) ?_
  exact .done _

theorem reads_varintLoop {v : Nat} (digits : Varint.Base128 bs v) (room : bs.length ≤ fuel)
    (last : fuel + i = binaryMaxVarintLen64) (fits : x + v * 128 ^ i < 2 ^ 64) :
    Consumes (readVarintLoop fuel i x).run bs (.ok (UInt64.ofNat (x + v * 128 ^ i))) := by
  induction digits generalizing fuel i x with
  | @last b high =>
    obtain ⟨fuel, rfl⟩ := Nat.exists_eq_succ_of_ne_zero (Nat.ne_of_gt room)
    -- a tenth digit above 1 would not fit
    have digit : ¬ (i = binaryMaxVarintLen64 - 1 ∧ 1 < b) := by
      rintro ⟨rfl, big⟩
      have : 1 < b.toNat := big
      rw [show binaryMaxVarintLen64 - 1 = 9 from rfl] at fits
      omega
    refine Consumes.bind_last ((reads_byte b).adapt _) ?_
    rw [if_pos high, if_neg digit]
    exact .done _
  | @more b bs v high digits ih =>
    obtain ⟨fuel, rfl⟩ := Nat.exists_eq_succ_of_ne_zero (Nat.ne_of_gt (Nat.zero_lt_of_lt room))
    rw [← List.singleton_append]
    refine Consumes.bind_ok ((reads_byte b).adapt _) ?_
    rw [if_neg high, ← Varint.shift_digit]
    rw [← Varint.shift_digit] at fits
    exact ih (Nat.le_of_succ_le_succ room) (by omega) fits

theorem reads_varint {v : UInt64} (spells : Varint.Spells bs v.toNat) :
    Consumes readVarint.run bs (.ok v) := by
  have fits : 0 + v.toNat * 128 ^ 0 < 2 ^ 64 := by
    rw [Nat.zero_add, pow_zero, Nat.mul_one]
    exact v.toNat_lt
  have h := reads_varintLoop spells.digits spells.short rfl fits
  rwa [Nat.zero_add, pow_zero, Nat.mul_one, UInt64.ofNat_toNat] at h

theorem reads_length (fits : n < 2 ^ 64) :
    Consumes readVarint.run (encodeVarint n) (.ok (UInt64.ofNat n)) := by
  refine reads_varint ?_
  rw [UInt64.toNat_ofNat_of_lt' fits]
  exact encodeVarint_spells fits

theorem reads_onePb {data : Bytes} (short : data.length ≤ 4096) :
    Consumes readOnePb.run (pbMessage data) (.ok data) := by
  have fits : data.length < 2 ^ 64 := lt_of_le_of_lt short (by decide)
  refine Consumes.bind_ok (reads_length fits) ?_
  rw [UInt64.toNat_ofNat_of_lt' fits, if_neg (Nat.not_lt.mpr short)]
  exact Consumes.get rfl

theorem reads_tooLarge (long : 4096 < n) (fits : n < 2 ^ 64) :
    Consumes readOnePb.run (encodeVarint n) (.error tooLarge) := by
  refine Consumes.bind_last (reads_length fits) ?_
  rw [UInt64.toNat_ofNat_of_lt' fits, if_pos long]
  exact .done _

theorem readByte_empty (none_ : c.unread = []) :
    ∃ err, readByte.run.run c = some (.error err, c) := by
  rcases c with ⟨unread, short, writes, closed⟩
  obtain rfl : unread = [] := none_
  exact ⟨short false, rfl⟩

theorem readVarintLoop_error (last : fuel + i = binaryMaxVarintLen64)
    (none_ : (Varint.uvarintLoop i x c.unread).2 ≤ 0) :
    ∃ err c', (readVarintLoop fuel i x).run.run c = some (.error err, c') := by
  induction fuel generalizing i x c with
  | zero => exact ⟨_, _, rfl⟩
  | succ fuel ih =>
    have same : Varint.maxVarintLen64 = binaryMaxVarintLen64 := rfl
    have more : i ≠ binaryMaxVarintLen64 := by omega
    simp only [readVarintLoop, Call.run_bind_iff]
    cases unread : c.unread with
    | nil =>
      obtain ⟨err, failed⟩ := readByte_empty unread
      exact ⟨_, _, .inr ⟨_, Call.run_adapt_iff.mpr ⟨_, failed, rfl⟩, rfl⟩⟩
    | cons b rest =>
      have first := ((reads_byte b).adapt fun err =>
        if 0 < i ∧ err = eof then unexpectedEOF else err).run unread
      rw [unread, Varint.uvarintLoop, same, if_neg more] at none_
      by_cases high : b < 128
      · by_cases big : i = binaryMaxVarintLen64 - 1 ∧ 1 < b
        · refine ⟨varintOverflow, { c with unread := rest }, .inl ⟨b, _, first, ?_⟩⟩
          rw [if_pos high, if_pos big]
          rfl
        · grind
      · rw [if_neg high] at none_
        obtain ⟨err, c', failed⟩ :=
          ih (i := i + 1) (by omega) (c := { c with unread := rest }) none_
        refine ⟨err, c', .inl ⟨b, _, first, ?_⟩⟩
        rw [if_neg high]
        exact failed

theorem readVarint_run (c : Conn UInt8 String) :
    (∃ bs rest v, c.unread = bs ++ rest ∧ Varint.Spells bs v.toNat ∧
      readVarint.run.run c = some (.ok v, { c with unread := rest })) ∨
    (decodeVarint c.unread).2 ≤ 0 ∧ ∃ err c', readVarint.run.run c = some (.error err, c') := by
  rcases Varint.uvarint_cases c.unread with none_ | ⟨bs, rest, v, front, spells, -⟩
  · exact .inr ⟨none_, readVarintLoop_error rfl none_⟩
  · have value : (UInt64.ofNat v).toNat = v := UInt64.toNat_ofNat_of_lt' spells.fits
    rw [← value] at spells
    exact .inl ⟨bs, rest, _, front, spells, (reads_varint spells).run front⟩

/-- On every connection the reader does what the parser does with the bytes that are there. -/
theorem readOnePb_run (c : Conn UInt8 String) :
    (∃ data rest, Relayhub.readOnePb c.unread = .ok (data, rest) ∧
      readOnePb.run.run c = some (.ok data, { c with unread := rest })) ∨
    (∃ err, Relayhub.readOnePb c.unread = .error err) ∧
      ∃ err c', readOnePb.run.run c = some (.error err, c') := by
  rcases readVarint_run c with ⟨bs, rest, v, front, spells, read⟩ | ⟨none_, err, c', failed⟩
  · have parsed : Relayhub.readVarint c.unread = .ok (v, rest) := by
      rw [front]
      exact readVarint_spelled spells rest
    rw [Relayhub.readOnePb, parsed]
    simp only [readOnePb, Call.run_bind_iff]
    by_cases long : 4096 < v.toNat
    · rw [if_pos long]
      refine .inr ⟨⟨_, rfl⟩, tooLarge, { c with unread := rest }, .inl ⟨v, _, read, ?_⟩⟩
      rw [if_pos long]
      rfl
    · rw [if_neg long]
      by_cases there : v.toNat ≤ rest.length
      · rw [if_pos there]
        refine .inl ⟨_, _, rfl, .inl ⟨v, _, read, ?_⟩⟩
        rw [if_neg long]
        exact if_pos there
      · rw [if_neg there]
        refine .inr ⟨⟨_, rfl⟩, c.short (!rest.isEmpty), { c with unread := [] },
          .inl ⟨v, _, read, ?_⟩⟩
        rw [if_neg long]
        exact if_neg there
  · refine .inr ⟨?_, err, c', Call.run_bind_iff.mpr (.inr ⟨err, failed, rfl⟩)⟩
    unfold Relayhub.readOnePb Relayhub.readVarint
    simp only [not_lt.mpr none_, if_false]
    split_ifs
    all_goals exact ⟨_, rfl⟩

def writeAll : List Bytes → Call Unit
  | [] => pure ()
  | data :: messages => do
    writePbMessage data
    writeAll messages

def readMany : Nat → Prog UInt8 String (List (Except String Bytes))
  | 0 => pure []
  | n + 1 => do
    let result ← readOnePb.run
    let results ← readMany n
    return result :: results

theorem reads_many (short : ∀ data ∈ messages, data.length ≤ 4096) :
    Consumes (readMany messages.length) (messages.flatMap pbMessage) (messages.map .ok) := by
  induction messages with
  | nil => exact .done _
  | cons data messages ih =>
    refine (reads_onePb (short data List.mem_cons_self)).bind ?_
    have rest := ih fun d hd => short d (List.mem_cons_of_mem _ hd)
    have h := rest.bind (f := fun results =>
      (pure (.ok data :: results) : Prog UInt8 String (List (Except String Bytes)))) (.done _)
    rwa [List.append_nil] at h

theorem finishing_writeAll (messages : List Bytes) {k : Except String Unit → Proc UInt8 Unit α}
    {q : Proc UInt8 Unit γ} {i o : Bytes} {a : α} {c : γ}
    (rest : Finishing ⟨k (.ok ()), q, i, o ++ messages.flatMap pbMessage⟩ a c) :
    Finishing ⟨(writeAll messages).run.proc >>= k, q, i, o⟩ a c := by
  induction messages generalizing o with
  | nil =>
    rw [List.flatMap_nil, List.append_nil] at rest
    exact rest
  | cons data messages ih =>
    rw [List.flatMap_cons, ← List.append_assoc] at rest
    exact .write (ih rest)

def sendAll (messages : List Bytes) (trailing : Bytes) : Call Unit := do
  writeAll messages
  Call.put trailing

/-- The results of so many calls of `readOnePb`, and the bytes that come after. -/
def receiveAll (count after : Nat) :
    Prog UInt8 String (List (Except String Bytes) × Except String Bytes) := do
  let results ← readMany count
  let rest ← (Call.get after : Call Bytes).run
  return (results, rest)

theorem finishing_sendAll {trailing : Bytes} {q : Proc UInt8 Unit γ} {c : γ}
    (rest : Finishing ⟨.done (.ok ()), q, [], messages.flatMap pbMessage ++ trailing⟩
      (Except.ok () : Except String Unit) c) :
    Finishing ⟨(sendAll messages trailing).run.proc, q, [], []⟩ (Except.ok ()) c := by
  rw [sendAll, ExceptT.run_bind, Prog.proc_bind]
  exact finishing_writeAll messages (.write rest)

theorem finishing_receiveAll {count : Nat} {sent rest : Bytes}
    {results : List (Except String Bytes)} (reads : Consumes (readMany count) sent results) (a : α) :
    Finishing ⟨.done a, (receiveAll count rest.length).proc, [], sent ++ rest⟩ a
      (results, Except.ok rest) := by
  refine Finishing.swap ?_
  rw [receiveAll, Prog.proc_bind]
  refine reads.finishing ?_
  exact .read_last rfl (.done _ _)

/-- Reading as many messages as were written gives the messages and leaves the bytes after them,
however the stream is cut into pieces; of a message that is too large only the length is
taken from the stream. -/
theorem messages_self_delimiting (messages : List Bytes) (trailing : Bytes) :
    ((∀ data ∈ messages, data.length ≤ 4096) →
      Ends ⟨(sendAll messages trailing).run.proc,
          (receiveAll messages.length trailing.length).proc, [], []⟩
        (.ok ()) (messages.map .ok, .ok trailing)) ∧
    ∀ data : Bytes, 4096 < data.length → data.length < 2 ^ 63 →
      Ends ⟨(sendAll [data] trailing).run.proc,
          (receiveAll 1 (data ++ trailing).length).proc, [], []⟩
        (.ok ()) ([.error tooLarge], .ok (data ++ trailing)) := by
  refine ⟨fun short => ?_, fun data long fits => ?_⟩
  · exact (finishing_sendAll (finishing_receiveAll (reads_many short) _)).ends
  · have one : Consumes (readMany 1) (encodeVarint data.length) [.error tooLarge] := by
      have h := (reads_tooLarge long (fits.trans (by decide))).bind
        (f := fun result => (pure [result] : Prog UInt8 String (List (Except String Bytes))))
        (.done _)
      rwa [List.append_nil] at h
    refine (finishing_sendAll ?_).ends
    have all : [data].flatMap pbMessage ++ trailing =
        encodeVarint data.length ++ (data ++ trailing) := by
      simp [pbMessage]
    rw [all]
    exact finishing_receiveAll one _

end Relayhub.Streams
