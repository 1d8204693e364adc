import Toxera.Mintox.Channel

/-!
# Frames of every length

The part of a round of the two read loops that takes a frame out of what has arrived,
before it is opened.
-/

namespace Framing

open CryptoCore Packet Channel
open TcpServer (TcpStatus)

section Server
open SecureConn

variable {B : Box} {rnd : HandshakeRandom} {c : TCPSecureConn} {n : UInt16} {body rest : Bytes}

/-- The part of a round that follows the header, up to the frame that goes to `Unpacket`. -/
def serverBody (c : TCPSecureConn) : Option (TCPSecureConn × Option Bytes) :=
  if c.crbuf.length < c.nxtpktlen.toNat then some (c, none)
  else
    let size := (2 + c.nxtpktlen).toNat
    if size < 2 then none
    else
      let body := c.crbuf.take (size - 2)
      if body.length + 2 = size then
        some ({ c with crbuf := c.crbuf.drop (size - 2) }, some (putUint16 c.nxtpktlen ++ body))
      else none

def serverFrame (c : TCPSecureConn) : Option (TCPSecureConn × Option Bytes) :=
  if c.nxtpktlen = 0 ∧ c.crbuf.length < 2 then some (c, none)
  else serverBody (if c.nxtpktlen = 0 then readHeader c else c)

def serverOpen (B : Box) (r : TCPSecureConn × Option Bytes) :
    Option (TCPSecureConn × Option ReadEvent) :=
  match r.2 with
  | none => some (r.1, none)
  | some rdbuf => receive B r.1 rdbuf

theorem readBody_eq_bind (c : TCPSecureConn) :
    readBody B c = (serverBody c).bind (serverOpen B) := by
  unfold readBody serverBody
  simp only
  split_ifs <;> rfl

theorem server_readRound_eq_bind (status : c.status = .unconfirmed ∨ c.status = .confirmed) :
    readRound B rnd c = (serverFrame c).bind (serverOpen B) := by
  have round : readRound B rnd c = if c.nxtpktlen = 0 ∧ c.crbuf.length < 2 then some (c, none)
      else readBody B (if c.nxtpktlen = 0 then readHeader c else c) := by
    rcases status with h | h <;> simp only [readRound, h]
  rw [round, serverFrame]
  by_cases short : c.nxtpktlen = 0 ∧ c.crbuf.length < 2
  · rw [if_pos short, if_pos short, Option.bind_some, serverOpen]
  · rw [if_neg short, if_neg short, readBody_eq_bind]

def ServerReads (c : TCPSecureConn) (n : UInt16) (body rest : Bytes) : Prop :=
  ∃ c', serverFrame c = some (c', some (putUint16 n ++ body)) ∧ c'.crbuf = rest

theorem serverFrame_of_header (two : 2 ≤ (unread c).length) :
    serverFrame c = serverBody (headed c) := by
  rw [serverFrame, if_neg (headed_eq two).1, (headed_eq two).2]

theorem frame_size {n : UInt16} (fits : n.toNat ≤ 65533) : (2 + n).toNat = 2 + n.toNat := by
  rw [UInt16.toNat_add]
  change (2 + n.toNat) % 65536 = _
  omega

theorem frame_size_overflow {n : UInt16} (large : 65533 < n.toNat) : (2 + n).toNat < 2 := by
  have bound := n.toNat_lt
  rw [UInt16.toNat_add]
  change (2 + n.toNat) % 65536 < 2
  omega

theorem server_reads_iff (complete : body.length = n.toNat)
    (arrived : unread c = putUint16 n ++ body ++ rest) :
    ServerReads c n body rest ↔ n.toNat ≤ 65533 := by
  have head : headed c = { c with nxtpktlen := n, crbuf := body ++ rest } := by
    rw [headed, arrived, List.append_assoc, uint16_putUint16, List.drop_left' (putUint16_length n)]
  have two : 2 ≤ (unread c).length := by simp [arrived]
  have whole : ¬ (body ++ rest).length < n.toNat := by
    rw [List.length_append]
    omega
  unfold ServerReads
  rw [serverFrame_of_header two, head, serverBody]
  simp only [if_neg whole]
  constructor
  · grind [read, frame_size_overflow]
  · intro fits
    have take : (body ++ rest).take (2 + n.toNat - 2) = body := by grind
    have drop : (body ++ rest).drop (2 + n.toNat - 2) = rest := by grind
    rw [frame_size fits, if_neg (by omega), take, drop, if_pos (by omega)]
    exact ⟨_, rfl, rfl⟩

end Server

section Client
open TcpClient

variable {B : Box} {rand : UInt64} {c : TCPClient} {n : UInt16} {body rest : Bytes}

def clientFrame (c : TCPClient) : Option (TCPClient × Option Bytes) :=
  match c.crbuf.peek 2 with
  | (crbuf, .error _) => some ({ c with crbuf := crbuf }, none)
  | (crbuf, .ok pktlenbuf) =>
    let pktlen := 2 + (uint16 pktlenbuf).toNat
    match crbuf.peek pktlen with
    | (crbuf, .error _) => some ({ c with crbuf := crbuf }, none)
    | (crbuf, .ok _) =>
      let r := crbuf.read pktlen
      if r.2.length = pktlen then some ({ c with crbuf := r.1 }, some r.2) else none

def clientOpen (B : Box) (r : TCPClient × Option Bytes) : Option (TCPClient × Option ReadEvent) :=
  match r.2 with
  | none => some (r.1, none)
  | some rdbuf => receive B r.1 rdbuf

theorem readFrame_eq_bind (c : TCPClient) :
    readFrame B c = (clientFrame c).bind (clientOpen B) := by
  unfold readFrame clientFrame
  rcases c.crbuf.peek 2 with ⟨crbuf, err | pktlenbuf⟩
  · rfl
  · simp only
    rcases crbuf.peek (2 + (uint16 pktlenbuf).toNat) with ⟨crbuf', err | whole⟩
    · rfl
    · simp only
      split_ifs
      · rfl
      · rfl

theorem client_readRound_eq_bind (status : c.status = .unconfirmed ∨ c.status = .confirmed) :
    readRound B rand c = (clientFrame c).bind (clientOpen B) := by
  rw [← readFrame_eq_bind]
  rcases status with h | h <;> simp only [readRound, h]

def ClientReads (c : TCPClient) (n : UInt16) (body rest : Bytes) : Prop :=
  ∃ c', clientFrame c = some (c', some (putUint16 n ++ body)) ∧ c'.crbuf.contents = rest

theorem peek_large {α : Type*} (b : BufReader α) (live : b.eof = false) {k : Nat}
    (large : b.size < k) : ∃ b', b.peek k = (b', .error .bufferFull) := by
  have size := (b.fillTo_filled live k).size
  unfold BufReader.peek
  simp only
  rw [if_pos (by rw [size]; exact large)]
  exact ⟨_, rfl⟩

theorem client_reads_iff (size : c.crbuf.size = readerSize) (live : c.crbuf.eof = false)
    (complete : body.length = n.toNat)
    (arrived : c.crbuf.contents = putUint16 n ++ body ++ rest) :
    ClientReads c n body rest ↔ n.toNat ≤ 4094 := by
  have total : 2 + n.toNat ≤ c.crbuf.contents.length := by grind [putUint16_length]
  obtain ⟨b, peek, size', same, live', -⟩ := c.crbuf.peek_spec live (n := 2)
    (by rw [size]; decide)
  have header : uint16 (c.crbuf.contents.take 2) = n := by
    rw [uint16_take_two, arrived, List.append_assoc, uint16_putUint16]
  unfold ClientReads clientFrame
  rw [peek]
  simp only [if_pos (show 2 ≤ c.crbuf.contents.length by omega), header]
  constructor
  · rintro ⟨c', read, -⟩
    by_contra large
    obtain ⟨b', full⟩ := peek_large b live' (k := 2 + n.toNat)
      (by rw [size', size, readerSize]; omega)
    simp only [full] at read
    cases read
  · intro fits
    obtain ⟨b', peek', -, same', -, buffered⟩ := b.peek_spec live' (n := 2 + n.toNat)
      (by rw [size', size, readerSize]; omega)
    rw [same] at same' buffered peek'
    obtain ⟨-, same'', -, data⟩ := b'.read_spec (n := 2 + n.toNat) (by omega) (buffered total)
    have two : (putUint16 n ++ body).length = 2 + n.toNat := by
      rw [List.length_append, putUint16_length, complete]
    have take : c.crbuf.contents.take (2 + n.toNat) = putUint16 n ++ body := by
      rw [arrived, List.take_left' two]
    have drop : c.crbuf.contents.drop (2 + n.toNat) = rest := by
      rw [arrived, List.drop_left' two]
    rw [same', take] at data
    rw [same', drop] at same''
    simp only [peek', if_pos total, data, if_pos two]
    exact ⟨_, rfl, same''⟩

end Client

/-- A round opens the frame it takes. -/
theorem frames_read_iff (B : Box) (n : UInt16) (body rest : Bytes)
    (complete : body.length = n.toNat) :
    (∀ (rnd : SecureConn.HandshakeRandom) (c : SecureConn.TCPSecureConn),
      c.status = .unconfirmed ∨ c.status = .confirmed →
      unread c = putUint16 n ++ body ++ rest →
      SecureConn.readRound B rnd c = (serverFrame c).bind (serverOpen B) ∧
      (ServerReads c n body rest ↔ n.toNat ≤ 65533)) ∧
    ∀ (rand : UInt64) (c : TcpClient.TCPClient),
      c.status = .unconfirmed ∨ c.status = .confirmed →
      c.crbuf.size = TcpClient.readerSize → c.crbuf.eof = false →
      c.crbuf.contents = putUint16 n ++ body ++ rest →
      TcpClient.readRound B rand c = (clientFrame c).bind (clientOpen B) ∧
      (ClientReads c n body rest ↔ n.toNat ≤ 4094) := by
  constructor
  · intro rnd c status arrived
    exact ⟨server_readRound_eq_bind status, server_reads_iff complete arrived⟩
  · intro rand c status size live arrived
    exact ⟨client_readRound_eq_bind status, client_reads_iff size live complete arrived⟩

def serverWith (crbuf : Bytes) : SecureConn.TCPSecureConn :=
  { SecureConn.newTCPSecureConn (keyOf 1) with status := .confirmed, crbuf := crbuf }

def clientWith (arrived : Bytes) : TcpClient.TCPClient :=
  { TcpClient.newTCPClient plainBox (keyOf 1) (keyOf 2) (keyOf 2) with
    status := .confirmed, crbuf := (BufReader.make TcpClient.readerSize).write arrived }

theorem empty_frame_read : ServerReads (serverWith (putUint16 0 ++ [7])) 0 [] [7] ∧
    ClientReads (clientWith (putUint16 0 ++ [7])) 0 [] [7] := by
  obtain ⟨server, client⟩ := frames_read_iff plainBox 0 [] [7] rfl
  exact ⟨(server ⟨nonceOf 6, nonceOf 7, keyOf 8⟩ _ (Or.inr rfl) rfl).2.mpr (by decide),
    (client 1 _ (Or.inr rfl) rfl rfl rfl).2.mpr (by decide)⟩

/-- The largest frame ends the server, and the client waits for ever for a frame of 4095
bytes that it has. -/
theorem large_frames_not_read :
    serverFrame (serverWith (putUint16 65535 ++ List.replicate 65535 0)) = none ∧
    ¬ ClientReads (clientWith (putUint16 4095 ++ List.replicate 4095 0)) 4095
      (List.replicate 4095 0) [] := by
  constructor
  · have arrived : unread (serverWith (putUint16 65535 ++ List.replicate 65535 0)) =
        putUint16 65535 ++ List.replicate 65535 0 := if_pos rfl
    have two : 2 ≤ (putUint16 65535 ++ List.replicate 65535 (0 : UInt8)).length := by grind
    rw [serverFrame_of_header (arrived ▸ two), headed, arrived, uint16_putUint16,
      List.drop_left' (putUint16_length _), serverBody]
    simp only [List.length_replicate]
    rw [if_neg (by decide), if_pos (by decide)]
  · intro read
    have fits := (client_reads_iff rfl rfl List.length_replicate
      (List.append_nil _).symm).mp read
    exact absurd fits (by decide)

end Framing
