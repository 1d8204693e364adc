import Toxera.Fedboot.BitcoinBs
import Toxera.Lib.Sha256

/-!
# Messages one after the other

`btcWriteMsg` and `btcReadMsg` of `fedboot/bitcoin_bs.go` on a stream of any number of
messages.
-/

namespace Fedboot

open BaseEncoding Duplex Fedkey Radix

structure Sendable (m : BtcMsg) : Prop where
  short : m.command.length ≤ btcCmdLen
  /-- the command does not end with a zero -/
  trimmed : m.command.rdropWhile (· = 0) = m.command
  small : m.payload.length < 2 ^ 32

def BtcMsg.trim (m : BtcMsg) : BtcMsg := ⟨m.command.rdropWhile (· = 0), m.payload⟩

variable {m : BtcMsg}

def writeMsgs (k : Crypto) : List BtcMsg → Conn Unit
  | [] => pure ()
  | m :: msgs => do
    btcWriteMsg k m.command m.payload
    writeMsgs k msgs

def readMsgs (k : Crypto) : Nat → Conn (List BtcMsg)
  | 0 => pure []
  | n + 1 => do
    let m ← btcReadMsg k
    let msgs ← readMsgs k n
    pure (m :: msgs)

def writtenChecksum (k : Crypto) (m : BtcMsg) : Bytes :=
  slice ((btcWriteMsg k m.command m.payload).output []) 20 24

structure Frame where
  header : Bytes
  payload : Bytes
  header_length : header.length = btcHeaderLen
  magic : ofLittleEndian (slice header 0 4) = bitcoinMagic
  announced : ofLittleEndian (slice header 16 20) = payload.length

def Frame.checksum (f : Frame) : Bytes := slice f.header 20 24

section
variable {α : Type} {k : Crypto} {cmd payload : Bytes}

theorem output_btcWriteMsg (short : cmd.length ≤ btcCmdLen) (f : Unit → Conn α) (i : Bytes) :
    (btcWriteMsg k cmd payload >>= f).output i =
      btcHeader k cmd payload ++ (payload ++ (f ()).output i) := by
  have whole : ¬ btcCmdLen < cmd.length := by omega
  simp only [btcWriteMsg, if_neg whole, Proc.put_bind, Proc.write_bind, Proc.output]
  split_ifs with some_
  · rfl
  · rw [List.eq_nil_of_length_eq_zero (Nat.eq_zero_of_not_pos some_)]
    rfl

theorem writtenChecksum_eq (short : m.command.length ≤ btcCmdLen) :
    writtenChecksum k m = checksum k m.payload := by
  have written : (btcWriteMsg k m.command m.payload >>= Proc.done).output [] = _ :=
    output_btcWriteMsg short Proc.done []
  rw [Proc.bind_done] at written
  have cut : btcHeader k m.command m.payload ++ (m.payload ++ []) =
      (littleEndian 4 bitcoinMagic ++ (fill btcCmdLen m.command ++
        littleEndian 4 (m.payload.length % 2 ^ 32))) ++ (checksum k m.payload ++ m.payload) := by
    simp only [btcHeader_eq, List.append_assoc, List.append_nil]
  rw [writtenChecksum, written, Proc.output, cut]
  refine slice_append ?_ (checksum_length k m.payload) _
  simp only [List.length_append, fill_length, littleEndian_length, btcCmdLen]

theorem writtenChecksum_iff (short : m.command.length ≤ btcCmdLen) :
    writtenChecksum k m = (sha256d k m.payload).take 4 ↔
      m.payload ≠ [] ∨ (sha256d k []).take 4 = List.replicate 4 0 := by
  rw [writtenChecksum_eq short, checksum]
  by_cases empty : m.payload = []
  · simp [empty, eq_comm]
  · rw [if_pos (List.length_pos_of_ne_nil empty)]
    exact iff_of_true rfl (.inl empty)

theorem run_btcReadMsg (small : payload.length < 2 ^ 32) (f : BtcMsg → Conn α) (i : Bytes) :
    (btcReadMsg k >>= f).run (btcHeader k cmd payload ++ (payload ++ i)) =
      (f ⟨fill btcCmdLen cmd, payload⟩).run i := by
  simp only [btcReadMsg, Proc.get_bind, Proc.read_bind]
  rw [Proc.run_read (btcHeader_length k cmd payload), btcReadBody_header k cmd small]
  split_ifs with some_
  · simp only [Proc.get_bind, Proc.read_bind]
    rw [Proc.run_read rfl, if_neg (not_not.mpr rfl), Proc.pure_bind]
  · rw [List.eq_nil_of_length_eq_zero (Nat.eq_zero_of_not_pos some_)]
    rfl

def BtcMsg.received (m : BtcMsg) : BtcMsg := ⟨fill btcCmdLen m.command, m.payload⟩

theorem run_readMsgs {msgs : List BtcMsg} (ok : ∀ m ∈ msgs, Sendable m)
    (f : List BtcMsg → Conn α) (rest : Bytes) :
    (readMsgs k msgs.length >>= f).run ((writeMsgs k msgs).output [] ++ rest) =
      (f (msgs.map BtcMsg.received)).run rest := by
  induction msgs generalizing f with
  | nil => rfl
  | cons m msgs ih =>
    have first := ok m List.mem_cons_self
    rw [writeMsgs, output_btcWriteMsg first.short, List.append_assoc, List.append_assoc,
      List.length_cons, readMsgs, Proc.bind_assoc, run_btcReadMsg first.small, Proc.bind_assoc,
      ih fun m mem => ok m (List.mem_cons_of_mem _ mem)]
    rfl

theorem rdropWhile_zeros (b : Bytes) (n : Nat) :
    (b ++ List.replicate n 0).rdropWhile (· = 0) = b.rdropWhile (· = 0) := by
  induction n with
  | zero => rw [List.replicate_zero, List.append_nil]
  | succ n ih =>
    rw [List.replicate_succ', ← List.append_assoc, List.rdropWhile_concat_pos _ _ _ (by simp), ih]

theorem trim_received (ok : Sendable m) : m.received.trim = m := by
  have padded : fill btcCmdLen m.command =
      m.command ++ List.replicate (btcCmdLen - m.command.length) 0 := by
    rw [fill, List.take_of_length_le ok.short]
  rw [BtcMsg.received, BtcMsg.trim, padded, rdropWhile_zeros, ok.trimmed]

theorem run_frame (k : Crypto) (f : Frame) (rest : Bytes) :
    (btcReadMsg k).run (f.header ++ (f.payload ++ rest)) =
      if f.payload ≠ [] ∧ f.checksum ≠ (sha256d k f.payload).take 4 then
        .error (some (ascii "bad checksum"))
      else .ok (⟨slice f.header 4 16, f.payload⟩, rest) := by
  simp only [btcReadMsg, Proc.get_bind]
  rw [Proc.run_read f.header_length, btcReadBody]
  simp only [f.magic, f.announced, ne_eq, not_true_eq_false, if_false]
  by_cases empty : f.payload = []
  · rw [if_neg (by simp [empty]), if_neg fun h => h.1 empty, empty]
    rfl
  · rw [if_pos (List.length_pos_of_ne_nil empty)]
    simp only [Proc.get_bind]
    rw [Proc.run_read rfl, Frame.checksum]
    by_cases differs : slice f.header 20 24 = (sha256d k f.payload).take 4
    · rw [if_neg (not_not.mpr differs), if_neg fun h => h.2 differs]
      rfl
    · rw [if_pos differs, if_pos ⟨empty, differs⟩]
      rfl

end

/-- Successive reads return the messages of successive writes. -/
theorem framing (k : Crypto) {msgs : List BtcMsg} (ok : ∀ m ∈ msgs, Sendable m) (rest : Bytes) :
    (∃ got, (readMsgs k msgs.length).run ((writeMsgs k msgs).output [] ++ rest) = .ok (got, rest) ∧
      got.map BtcMsg.trim = msgs) ∧
    (∀ m ∈ msgs, writtenChecksum k m = (sha256d k m.payload).take 4 ↔
      m.payload ≠ [] ∨ (sha256d k []).take 4 = List.replicate 4 0) ∧
    ∀ f : Frame, f.checksum ≠ (sha256d k f.payload).take 4 →
      ((∃ error, (btcReadMsg k).run (f.header ++ (f.payload ++ rest)) = .error (some error)) ↔
        f.payload ≠ []) := by
  refine ⟨⟨msgs.map BtcMsg.received, ?_, ?_⟩, ?_, ?_⟩
  · have read := run_readMsgs (k := k) ok Proc.done rest
    rwa [Proc.bind_done] at read
  · rw [List.map_map]
    exact (List.map_congr_left fun m mem => trim_received (ok m mem)).trans (List.map_id msgs)
  · exact fun m mem => writtenChecksum_iff (ok m mem).short
  · intro f differs
    rw [run_frame]
    by_cases empty : f.payload = []
    · simp [empty]
    · simp [empty, differs]

def shaCrypto : Crypto :=
  { onesCrypto with sha256 := Sha256.sha256, sha256_length := Sha256.sha256_length }

def verack : BtcMsg := ⟨ascii "verack", []⟩

def pong : BtcMsg := ⟨ascii "pong", [1, 2, 3]⟩

theorem verack_sendable : Sendable verack := ⟨by decide, by decide, by decide⟩

theorem pong_sendable : Sendable pong := ⟨by decide, by decide, by decide⟩

theorem two_messages_framed :
    (∀ m ∈ [verack, pong], Sendable m) ∧
    ∃ got, (readMsgs shaCrypto 2).run ((writeMsgs shaCrypto [verack, pong]).output [] ++ []) =
      .ok (got, []) ∧ got.map BtcMsg.trim = [verack, pong] := by
  have ok : ∀ m ∈ [verack, pong], Sendable m := by
    simp [verack_sendable, pong_sendable]
  exact ⟨ok, (framing shaCrypto ok []).1⟩

/-- The header of a verack has zeros where the double hash of its payload begins otherwise,
and it is accepted with any checksum. -/
theorem verack_unchecked :
    writtenChecksum shaCrypto verack = [0, 0, 0, 0] ∧
    (sha256d shaCrypto verack.payload).take 4 = [0x5d, 0xf6, 0xe0, 0xe2] ∧
    (btcReadMsg shaCrypto).run ((btcHeader shaCrypto verack.command []).take 20 ++ [1, 2, 3, 4]) =
      .ok (⟨fill btcCmdLen verack.command, []⟩, []) := by
  refine ⟨by decide +kernel, by decide +kernel, ?_⟩
  rfl

end Fedboot
