import Toxera.GoTox.TcpClient

/-!
# Streams through go-tox-tcpclient

Both ends of a connection count frames with a nonce.
-/

namespace GoTox

open CryptoCore Packet

variable {c c' : TCPClient} {cipher rest : Bytes}

variable {B : Box}

def Opens (B : Box) (shrkey : CryptoKey) (nonce : CBNonce) (cipher : Bytes) : Prop :=
  macSize ≤ cipher.length ∧ ∃ plain, B.openBox shrkey nonce cipher = some plain

theorem decodePacket_cases (shrkey : CryptoKey) (nonce : CBNonce) (cipher : Bytes) :
    (Opens B shrkey nonce cipher ∧ ∃ plain, B.openBox shrkey nonce cipher = some plain ∧
      decodePacket B shrkey nonce cipher = .ok (plain, incr nonce)) ∨
    (¬ Opens B shrkey nonce cipher ∧ ∃ err, decodePacket B shrkey nonce cipher = .error err) := by
  unfold decodePacket Opens
  split_ifs with short
  · grind
  · cases hopen : B.openBox shrkey nonce cipher with
    | none => exact Or.inr ⟨by simp, _, rfl⟩
    | some plain => grind [incrNonce_eq_incr]

theorem opens_seal (sealing : B.Sealing) (shrkey : CryptoKey) (nonce : CBNonce) (plain : Bytes) :
    Opens B shrkey nonce (B.sealBox shrkey nonce plain) := by
  refine ⟨?_, plain, sealing.open_seal shrkey nonce plain⟩
  rw [sealing.seal_length, macSize, CryptoCore.macSize]
  omega

structure Reads (c c' : TCPClient) (rest : Bytes) (nonce : CBNonce) : Prop where
  stream : c'.reader.r.flatten = rest
  status : c'.status = c.status
  shrkey : c'.shrkey = c.shrkey
  recvNonce : c'.recvNonce = nonce

theorem readRound_frame (fits : cipher.length ≤ maxPacketSize)
    (stream : c.reader.r.flatten = frame cipher ++ rest) :
    ∃ c', (Opens B c.shrkey c.recvNonce cipher ∧ ∃ plain call,
        B.openBox c.shrkey c.recvNonce cipher = some plain ∧
        readRound B c = (c', .dispatched plain call) ∧ Reads c c' rest (incr c.recvNonce)) ∨
      (¬ Opens B c.shrkey c.recvNonce cipher ∧ readRound B c = (c', .undecoded) ∧
        Reads c c' rest c.recvNonce) := by
  have small : cipher.length < 65536 := Nat.lt_of_le_of_lt fits (by decide)
  obtain ⟨reader, ⟨-, read, left⟩ | ⟨large, -⟩⟩ := c.reader.readPacket_frame small stream
  · rcases decodePacket_cases (B := B) c.shrkey c.recvNonce cipher with
      ⟨opens, plain, hopen, decoded⟩ | ⟨closed, err, failed⟩
    · have same := dispatchPacket_sameLoops
        { c with reader := reader, recvNonce := incr c.recvNonce } plain
      refine ⟨_, Or.inl ⟨opens, plain, _, hopen, by simp only [readRound, read, decoded]; rfl, ?_⟩⟩
      exact ⟨by rw [same.reader]; exact left, same.status, same.shrkey, same.recvNonce⟩
    · exact ⟨{ c with reader := reader }, Or.inr ⟨closed, by simp only [readRound, read, failed],
        left, rfl, rfl, rfl⟩⟩
  · omega

theorem readRound_eof (ended : c.reader.r.flatten = []) :
    ∃ c' call, readRound B c = (c', .ended call) ∧ c'.recvNonce = c.recvNonce := by
  obtain ⟨reader, read⟩ := c.reader.readPacket_eof ended
  exact ⟨(handleDisconnect { c with reader := reader }).1, _, by simp only [readRound, read]; rfl,
    rfl⟩

def accepted (plains : List Bytes) : List Bytes :=
  plains.filter fun plain => plain.length ≤ maxPacketSize

def sealedFrames (B : Box) (shrkey : CryptoKey) (start : CBNonce) (plains : List Bytes) :
    List Bytes :=
  plains.mapIdx fun i plain => frame (B.sealBox shrkey (incr^[i] start) plain)

theorem sealedFrames_cons (shrkey : CryptoKey) (start : CBNonce) (plain : Bytes)
    (plains : List Bytes) :
    sealedFrames B shrkey start (plain :: plains) =
      frame (B.sealBox shrkey start plain) :: sealedFrames B shrkey (incr start) plains := by
  simp [sealedFrames, List.mapIdx_cons, Function.iterate_succ_apply]

theorem writeLoop_eq (c : TCPClient) (open_ : c.conn = true) (plains : List Bytes) :
    writeLoop B c (plains.map fun plain => (plain, true)) =
      ({ c with sentNonce := incr^[(accepted plains).length] c.sentNonce },
        sealedFrames B c.shrkey c.sentNonce (accepted plains)) := by
  induction plains generalizing c with
  | nil => rfl
  | cons plain plains ih =>
    rw [List.map_cons, writeLoop]
    by_cases large : plain.length > maxPacketSize
    · have skips : writeRound B c plain true = (c, .skipped) := by
        rw [writeRound, encodePacket_eq, if_pos large]
      rw [skips]
      have dropped : accepted (plain :: plains) = accepted plains :=
        List.filter_cons_of_neg (by simpa using large)
      rw [dropped]
      exact ih c open_
    · have writes : writeRound B c plain true = ({ c with sentNonce := incr c.sentNonce },
          .wrote (frame (B.sealBox c.shrkey c.sentNonce plain))) := by
        rw [writeRound, encodePacket_eq, if_neg large]
        simp [open_]
      rw [writes]
      have kept : accepted (plain :: plains) = plain :: accepted plains :=
        List.filter_cons_of_pos (by simpa using large)
      rw [kept, sealedFrames_cons]
      simp only [ih { c with sentNonce := incr c.sentNonce } open_, List.length_cons,
        Function.iterate_succ_apply]

theorem readLoop_sealed (sealing : B.Sealing) (plains : List Bytes)
    (fit : ∀ plain ∈ plains, plain.length + macSize ≤ maxPacketSize) (c : TCPClient)
    (stream : c.reader.r.flatten = (sealedFrames B c.shrkey c.recvNonce plains).flatten)
    {fuel : Nat} (enough : plains.length < fuel) :
    (∃ calls call, calls.length = plains.length ∧
      (readLoop B fuel c).2 = List.zipWith .dispatched plains calls ++ [.ended call]) ∧
    (readLoop B fuel c).1.recvNonce = incr^[plains.length] c.recvNonce := by
  induction plains generalizing c fuel with
  | nil =>
    obtain ⟨fuel, rfl⟩ := Nat.exists_eq_succ_of_ne_zero (Nat.ne_of_gt enough)
    obtain ⟨c', call, round, nonce⟩ := readRound_eof (B := B) stream
    rw [readLoop, round]
    exact ⟨⟨[], call, rfl, rfl⟩, nonce⟩
  | cons plain plains ih =>
    obtain ⟨fuel, rfl⟩ := Nat.exists_eq_succ_of_ne_zero (Nat.ne_of_gt (Nat.zero_lt_of_lt enough))
    rw [sealedFrames_cons, List.flatten_cons] at stream
    have length : (B.sealBox c.shrkey c.recvNonce plain).length = plain.length + macSize :=
      sealing.seal_length _ _ _
    obtain ⟨c', ⟨-, plain', call, hopen, round, reads⟩ | ⟨closed, -⟩⟩ :=
      readRound_frame (B := B) (by rw [length]; exact fit plain List.mem_cons_self) stream
    · rw [sealing.open_seal] at hopen
      cases hopen
      have left : plains.length < fuel := by
        rw [List.length_cons] at enough
        omega
      obtain ⟨⟨calls, last, same, outcomes⟩, nonce⟩ :=
        ih (fun p hp => fit p (List.mem_cons_of_mem _ hp)) c'
          (by rw [reads.stream, reads.shrkey, reads.recvNonce]) left
      rw [readLoop, round]
      refine ⟨⟨call :: calls, last, by simp [same], ?_⟩, ?_⟩
      · simp only [outcomes, List.zipWith_cons_cons, List.cons_append]
      · simp only [nonce, reads.recvNonce, List.length_cons, Function.iterate_succ_apply]
    · exact absurd (opens_seal sealing c.shrkey c.recvNonce plain) closed

/-- Whatever the reads return at a time, the reader dispatches exactly the packets that were not
skipped. -/
theorem streams_in_lockstep (sealing : B.Sealing) {shrkey : CryptoKey} {start : CBNonce}
    {writer reader : TCPClient} (writerKey : writer.shrkey = shrkey)
    (writerNonce : writer.sentNonce = start) (writing : writer.conn = true)
    (readerKey : reader.shrkey = shrkey) (readerNonce : reader.recvNonce = start)
    (plains : List Bytes)
    (fit : ∀ plain ∈ plains, plain.length ≤ maxPacketSize →
      plain.length + macSize ≤ maxPacketSize)
    (stream : reader.reader.r.flatten =
      (writeLoop B writer (plains.map fun plain => (plain, true))).2.flatten)
    {fuel : Nat} (enough : (accepted plains).length < fuel) :
    (∃ calls call, calls.length = (accepted plains).length ∧
      (readLoop B fuel reader).2 =
        List.zipWith .dispatched (accepted plains) calls ++ [.ended call]) ∧
    (readLoop B fuel reader).1.recvNonce =
      (writeLoop B writer (plains.map fun plain => (plain, true))).1.sentNonce ∧
    (writeLoop B writer (plains.map fun plain => (plain, true))).2 =
      ((accepted plains).mapIdx fun i plain => frame (B.sealBox shrkey (incr^[i] start) plain)) ∧
    (∀ i, beVal (incr^[i] start).val = (beVal start.val + i) % 2 ^ 192) ∧
    ((accepted plains).length < 2 ^ 192 →
      ((List.range (accepted plains).length).map fun i => incr^[i] start).Nodup) := by
  subst writerKey writerNonce
  have wrote := writeLoop_eq (B := B) writer writing plains
  have small : ∀ plain ∈ accepted plains, plain.length + macSize ≤ maxPacketSize := by
    intro plain mem
    obtain ⟨mem, short⟩ := List.mem_filter.mp mem
    exact fit plain mem (by simpa using short)
  rw [wrote] at stream
  obtain ⟨dispatched, nonce⟩ := readLoop_sealed sealing (accepted plains) small reader
    (by rw [stream, readerKey, readerNonce]) enough
  refine ⟨dispatched, ?_, ?_, ?_, ?_⟩
  · rw [nonce, wrote, readerNonce]
  · rw [wrote]
    rfl
  · intro i
    rw [beVal_iterate_incr]
    rfl
  · intro short
    exact nonces_nodup _ (Nat.le_of_lt short)

def quietClient (r : List Bytes) : TCPClient :=
  connectedClient ⟨keyOf 9, nonceOf 0, nonceOf 0⟩ r ⟨false, false, false, false, false⟩

@[simp] theorem quietClient_stream (r : List Bytes) : (quietClient r).reader.r = r := rfl

/-- Two packets around one that is too large, read byte by byte. -/
theorem streams_in_lockstep_bytewise :
    ∃ calls call, calls.length = 2 ∧
      (readLoop plainBox 3 (quietClient
        ((writeLoop plainBox (quietClient [])
          ([[7], zeros 2049, [8, 9]].map fun plain => (plain, true))).2.flatten.map
            fun b => [b]))).2 =
        List.zipWith .dispatched [[7], [8, 9]] calls ++ [.ended call] := by
  have large : (zeros 2049).length = 2049 := List.length_replicate
  have kept : accepted [[7], zeros 2049, [8, 9]] = [[7], [8, 9]] := by
    simp [accepted, large, maxPacketSize]
  have key : ∀ r, (quietClient r).shrkey = keyOf 9 := fun _ => rfl
  have sent : (quietClient []).sentNonce = nonceOf 0 := rfl
  have received : ∀ r, (quietClient r).recvNonce = nonceOf 0 := fun _ => rfl
  have enough : (accepted [[7], zeros 2049, [8, 9]]).length < 3 := by
    rw [kept]
    decide
  have h := (streams_in_lockstep plainBox_lawful.sealing (key []) sent rfl (key _) (received _)
    [[7], zeros 2049, [8, 9]] (by simp [large, maxPacketSize, macSize])
    (by rw [quietClient_stream, ← List.flatMap_def, List.flatMap_singleton']) enough).1
  rw [kept] at h
  exact h

theorem readLoop_succ {outcome : ReadOutcome} (round : readRound B c = (c', outcome))
    (goes : ∀ call, outcome ≠ .ended call) (n : Nat) :
    readLoop B (n + 1) c = ((readLoop B n c').1, outcome :: (readLoop B n c').2) := by
  rw [readLoop, round]
  cases outcome with
  | ended call => exact absurd rfl (goes call)
  | undecoded => rfl
  | dispatched plain call => rfl

/-- In sync with a sender that advances its nonce with every frame: after any number
of the frames the client is still confirmed with the start plus that number, and a
frame sealed under that nonce is decrypted and dispatched. -/
structure InSync (B : Box) (c : TCPClient) (frames : List Bytes) : Prop where
  nonce : ∀ n ≤ frames.length, (readLoop B n c).1.status = .confirmed ∧
    (readLoop B n c).1.recvNonce = incr^[n] c.recvNonce
  later : ∀ n plain, frames[n]? = some (B.sealBox c.shrkey (incr^[n] c.recvNonce) plain) →
    ∃ call, (readRound B (readLoop B n c).1).2 = .dispatched plain call

theorem inSync_cons (sealing : B.Sealing) {plain : Bytes} {frames : List Bytes} {call : Option Call}
    (confirmed : c.status = .confirmed) (hopen : B.openBox c.shrkey c.recvNonce cipher = some plain)
    (round : readRound B c = (c', .dispatched plain call))
    (reads : Reads c c' rest (incr c.recvNonce)) :
    InSync B c (cipher :: frames) ↔ InSync B c' frames := by
  have step : ∀ n, (readLoop B (n + 1) c).1 = (readLoop B n c').1 := by
    intro n
    rw [readLoop_succ round (by simp)]
  have count : ∀ n, incr^[n + 1] c.recvNonce = incr^[n] c'.recvNonce := by
    intro n
    rw [reads.recvNonce, Function.iterate_succ_apply]
  constructor
  · intro sync
    refine ⟨fun n hn => ?_, fun n plain' hn => ?_⟩
    · have h := sync.nonce (n + 1) (Nat.succ_le_succ hn)
      rwa [step, count] at h
    · have h := sync.later (n + 1) plain'
      rw [step, count, List.getElem?_cons_succ, ← reads.shrkey] at h
      exact h hn
  · intro sync
    refine ⟨fun n hn => ?_, fun n plain' hn => ?_⟩
    · cases n with
      | zero => exact ⟨confirmed, rfl⟩
      | succ n =>
        rw [step, count]
        exact sync.nonce n (Nat.le_of_succ_le_succ hn)
    · cases n with
      | zero =>
        cases hn
        rw [Function.iterate_zero, id, sealing.open_seal] at hopen
        cases hopen
        exact ⟨call, congrArg Prod.snd round⟩
      | succ n =>
        rw [step]
        rw [count, List.getElem?_cons_succ, ← reads.shrkey] at hn
        exact sync.later n plain' hn

/-- The client stays in sync exactly when every frame decodes under the nonce of its
place in the stream. -/
theorem in_sync_iff (sealing : B.Sealing) {c : TCPClient} (confirmed : c.status = .confirmed)
    {frames : List Bytes} (fit : ∀ cipher ∈ frames, cipher.length ≤ maxPacketSize) (rest : Bytes)
    (stream : c.reader.r.flatten = (frames.map frame).flatten ++ rest) :
    InSync B c frames ↔
      ∀ n cipher, frames[n]? = some cipher → Opens B c.shrkey (incr^[n] c.recvNonce) cipher := by
  induction frames generalizing c with
  | nil =>
    refine iff_of_true ⟨fun n hn => ?_, by simp⟩ (by simp)
    obtain rfl : n = 0 := by simpa using hn
    exact ⟨confirmed, rfl⟩
  | cons cipher frames ih =>
    rw [List.map_cons, List.flatten_cons, List.append_assoc] at stream
    obtain ⟨c', ⟨opens, plain, call, hopen, round, reads⟩ | ⟨closed, round, reads⟩⟩ :=
      readRound_frame (B := B) (fit cipher List.mem_cons_self) stream
    · rw [inSync_cons sealing confirmed hopen round reads,
        ih (reads.status.trans confirmed) (fun f hf => fit f (List.mem_cons_of_mem _ hf))
          reads.stream, reads.shrkey, reads.recvNonce]
      constructor
      · intro all n f hf
        cases n with
        | zero =>
          cases hf
          exact opens
        | succ n => exact all n f hf
      · intro all n f hf
        exact all (n + 1) f hf
    · -- the frame is not counted, so the nonce is one behind at the next
      refine iff_of_false (fun sync => ?_) fun all => closed (all 0 cipher rfl)
      have behind := (sync.nonce 1 (by simp)).2
      rw [readLoop_succ round (by simp)] at behind
      exact incr_ne c.recvNonce (behind.symm.trans reads.recvNonce)

/-- Two frames sealed one after the other keep the client in sync. -/
theorem in_sync_two_frames :
    InSync plainBox (quietClient [frame (plainBox.sealBox (keyOf 9) (nonceOf 0) [7]) ++
        frame (plainBox.sealBox (keyOf 9) (incr (nonceOf 0)) [8, 9])])
      [plainBox.sealBox (keyOf 9) (nonceOf 0) [7],
        plainBox.sealBox (keyOf 9) (incr (nonceOf 0)) [8, 9]] := by
  refine (in_sync_iff plainBox_lawful.sealing rfl ?_ [] ?_).mpr ?_
  · decide +kernel
  · simp
  · intro n cipher hn
    match n with
    | 0 =>
      cases hn
      exact opens_seal plainBox_lawful.sealing _ _ _
    | 1 =>
      cases hn
      exact opens_seal plainBox_lawful.sealing _ _ _
    | n + 2 => cases hn

/-- After one frame that does not decode, the client still counts as connected, and
the next frame of its relay, sealed under the relay's running nonce, is passed over. -/
theorem one_bad_frame_desynchronises :
    let frames := [zeros 16, plainBox.sealBox (keyOf 9) (incr (nonceOf 0)) [7]]
    let c := quietClient [(frames.map frame).flatten]
    ¬ InSync plainBox c frames ∧ (readLoop plainBox 2 c).1.status = .confirmed ∧
      (readLoop plainBox 2 c).1.recvNonce = c.recvNonce ∧
      (readLoop plainBox 2 c).2 = [.undecoded, .undecoded] := by
  refine ⟨fun sync => ?_, by decide +kernel, by decide +kernel, by decide +kernel⟩
  have := (sync.nonce 1 (by simp)).2
  revert this
  decide +kernel

end GoTox
