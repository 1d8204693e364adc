import Toxera.Mintox.SecureConn
import Toxera.Mintox.TcpClient

/-!
# The encrypted channel does not depend on segmentation

The two read loops keep what has arrived in different ways: the server may have taken the
header of an unfinished frame out of its ring, the client only looks ahead.
-/

namespace Channel

open CryptoCore Packet Incremental
open TcpServer (TcpStatus)

def takeFrame (xs : Bytes) : Option (Bytes × Bytes) :=
  if xs.length < 2 ∨ xs.length < 2 + (uint16 xs).toNat then none
  else some ((xs.drop 2).take (uint16 xs).toNat, xs.drop (2 + (uint16 xs).toNat))

theorem uint16_append {xs : Bytes} (h : 2 ≤ xs.length) (ys : Bytes) :
    uint16 (xs ++ ys) = uint16 xs := by
  match xs, h with
  | _ :: _ :: _, _ => rfl

theorem uint16_take_two (xs : Bytes) : uint16 (xs.take 2) = uint16 xs := by
  match xs with
  | [] => rfl
  | [_] => rfl
  | _ :: _ :: _ => rfl

theorem takeFrame_eq_none {xs : Bytes} :
    takeFrame xs = none ↔ xs.length < 2 ∨ xs.length < 2 + (uint16 xs).toNat := by
  unfold takeFrame
  split_ifs with h
  · exact ⟨fun _ => h, fun _ => rfl⟩
  · grind

theorem takeFrame_eq_some {xs body rest : Bytes} (h : takeFrame xs = some (body, rest)) :
    2 ≤ xs.length ∧ (uint16 xs).toNat = body.length ∧ xs.drop 2 = body ++ rest := by
  unfold takeFrame at h
  split_ifs at h with few
  cases h
  refine ⟨by omega, ?_, ?_⟩
  · grind
  · rw [← List.drop_drop, List.take_append_drop]

def frames : Parser UInt8 Bytes where
  take := takeFrame
  stable := by
    intro xs body rest h ys
    obtain ⟨two, len, cut⟩ := takeFrame_eq_some h
    have total : xs.length = 2 + body.length + rest.length := by
      have := congrArg List.length cut
      simp only [List.length_drop, List.length_append] at this
      omega
    have cut' : (xs ++ ys).drop 2 = body ++ (rest ++ ys) := by
      rw [List.drop_append_of_le_length two, cut, List.append_assoc]
    rw [takeFrame, uint16_append two, len, if_neg (by simp only [List.length_append]; omega),
      ← List.drop_drop, cut', List.take_left, List.drop_left]
  consumes := by
    intro xs body rest h
    obtain ⟨two, -, cut⟩ := takeFrame_eq_some h
    have := congrArg List.length cut
    simp only [List.length_drop, List.length_append] at this
    omega

theorem takeFrame_frame {body : Bytes} (short : body.length < 65536) (ys : Bytes) :
    takeFrame (frame body ++ ys) = some (body, ys) := by
  have header : uint16 (frame body ++ ys) = UInt16.ofNat body.length := by
    rw [frame, List.append_assoc, uint16_putUint16]
  have len : (UInt16.ofNat body.length).toNat = body.length := by
    rw [UInt16.toNat_ofNat']
    omega
  have cut : (frame body ++ ys).drop 2 = body ++ ys := by
    rw [frame, List.append_assoc]
    exact List.drop_left' rfl
  rw [takeFrame, header, len, ← List.drop_drop, cut, List.take_left, List.drop_left, if_neg]
  simp only [frame, List.length_append, putUint16_length]
  omega

def sealedFrom (B : Box) (key : CryptoKey) : CBNonce → List Bytes → List Bytes
  | _, [] => []
  | n, m :: ms => B.sealBox key n m :: sealedFrom B key (incr n) ms

variable {B : Box} {key : CryptoKey}

theorem writePackets_lawful (law : B.Lawful) (n : CBNonce) (ms : List Bytes) :
    writePackets B key n ms =
      some (((sealedFrom B key n ms).map frame).flatten, incr^[ms.length] n) := by
  induction ms generalizing n with
  | nil => rfl
  | cons m ms ih =>
    simp [writePackets, writePacket, createPacket_lawful law, ih, sealedFrom,
      Function.iterate_succ_apply]

theorem sealedFrom_split {n : CBNonce} {ms bs₁ bs₂ : List Bytes}
    (h : sealedFrom B key n ms = bs₁ ++ bs₂) :
    ∃ ms₁ ms₂, ms = ms₁ ++ ms₂ ∧ bs₁ = sealedFrom B key n ms₁ ∧
      bs₂ = sealedFrom B key (incr^[ms₁.length] n) ms₂ := by
  induction bs₁ generalizing n ms with
  | nil => exact ⟨[], ms, rfl, rfl, h.symm⟩
  | cons b bs₁ ih =>
    cases ms with
    | nil => cases h
    | cons m ms =>
      obtain ⟨rfl, rest⟩ := List.cons.inj h
      obtain ⟨ms₁, ms₂, rfl, rfl, rfl⟩ := ih rest
      exact ⟨m :: ms₁, ms₂, rfl, rfl, rfl⟩

def Sendable (m : Bytes) : Prop := 1 ≤ m.length ∧ m.length ≤ 2049

theorem Sendable.ne_nil {m : Bytes} (h : Sendable m) : m ≠ [] :=
  List.ne_nil_of_length_pos h.1

theorem Sendable.sealed_length (law : B.Lawful) {m : Bytes} (h : Sendable m) (n : CBNonce) :
    (B.sealBox key n m).length ≤ 2065 := by
  rw [law.seal_length, macSize]
  have := h.2
  omega

theorem mem_sealedFrom {n : CBNonce} {ms : List Bytes} {b : Bytes}
    (h : b ∈ sealedFrom B key n ms) : ∃ m ∈ ms, ∃ n', b = B.sealBox key n' m := by
  induction ms generalizing n with
  | nil => cases h
  | cons m ms ih =>
    rcases List.mem_cons.mp h with rfl | h
    · exact ⟨m, List.mem_cons_self, n, rfl⟩
    · grind

theorem sealedFrom_length (law : B.Lawful) {n : CBNonce} {ms : List Bytes}
    (limits : ∀ m ∈ ms, Sendable m) : ∀ b ∈ sealedFrom B key n ms, b.length ≤ 2065 := by
  intro b hb
  obtain ⟨m, hm, n', rfl⟩ := mem_sealedFrom hb
  exact (limits m hm).sealed_length law n'

theorem sender_drains (law : B.Lawful) {n : CBNonce} {ms : List Bytes}
    (limits : ∀ m ∈ ms, Sendable m) :
    Drains frames ((sealedFrom B key n ms).map frame).flatten (sealedFrom B key n ms) [] := by
  refine drains_encoded rfl ?_
  intro b hb ys
  have := sealedFrom_length law limits b hb
  exact takeFrame_frame (by omega) ys

theorem written_drains (law : B.Lawful) {n finish : CBNonce} {ms : List Bytes} {stream : Bytes}
    (limits : ∀ m ∈ ms, Sendable m) (written : writePackets B key n ms = some (stream, finish)) :
    Drains frames stream (sealedFrom B key n ms) [] ∧ finish = incr^[ms.length] n := by
  rw [writePackets_lawful law] at written
  cases written
  exact ⟨sender_drains law limits, rfl⟩

theorem unread_short {r ys : Bytes} {bs : List Bytes} (settled : takeFrame r = none)
    (stream : Drains frames (r ++ ys) bs []) (short : ∀ b ∈ bs, b.length ≤ 2065) :
    r.length ≤ 2066 ∧ (2 ≤ r.length → (uint16 r).toNat ≤ 2065) := by
  rcases stream.empty_or_item with ⟨empty, -⟩ | ⟨b, bs', rest, rfl, h⟩
  · rw [(List.append_eq_nil_iff.mp empty).1]
    simp
  · have hb := short b (by simp)
    obtain ⟨-, len, -⟩ := takeFrame_eq_some h
    by_cases two : 2 ≤ r.length
    · rw [uint16_append two] at len
      rcases takeFrame_eq_none.mp settled with few | few <;> omega
    · omega

/-- A read loop whose unread bytes are a stream of frames: a round waits when there is no complete
frame, and otherwise hands on its plaintext. -/
structure Reader (B : Box) (key : CryptoKey) (σ ε : Type) where
  round : σ → Option (σ × Option ε)
  loop : σ → List Bytes → Option (σ × List ε)
  packet : Bytes → ε
  Ready : CBNonce → σ → Prop
  unread : σ → Bytes
  waits : ∀ {n c}, Ready n c → takeFrame (unread c) = none →
    (2 ≤ (unread c).length → (uint16 (unread c)).toNat ≤ 2065) →
    ∃ c', round c = some (c', none) ∧ Ready n c' ∧ unread c' = unread c
  takes : ∀ {n c m rest}, Ready n c → Sendable m →
    takeFrame (unread c) = some (B.sealBox key n m, rest) →
    ∃ c', round c = some (c', some (packet m)) ∧ Ready (incr n) c' ∧ unread c' = rest
  loop_nil : ∀ c, loop c [] = some (c, [])
  loop_cons : ∀ {n c rdbuf} rest, Ready n c → 1 ≤ rdbuf.length → rdbuf.length ≤ 3000 →
    (unread c).length ≤ 2066 → ∃ c₁ fuel, Ready n c₁ ∧ unread c₁ = unread c ++ rdbuf ∧
      (unread c₁).length ≤ fuel + 2 ∧
      loop c (rdbuf :: rest) = (rounds round (fuel + 1) c₁).bind fun r =>
        (loop r.1 rest).map fun r' => (r'.1, r.2 ++ r'.2)

section Reader
variable {σ ε : Type} (R : Reader B key σ ε)

theorem Reader.rounds_drain {xs rest : Bytes} {bs : List Bytes} (drained : Drains frames xs bs rest)
    (short : 2 ≤ rest.length → (uint16 rest).toNat ≤ 2065) {n : CBNonce} {ms : List Bytes}
    (sealed : bs = sealedFrom B key n ms) (limits : ∀ m ∈ ms, Sendable m) {c : σ}
    (ready : R.Ready n c) (unread : R.unread c = xs) (fuel : Nat) (enough : ms.length ≤ fuel) :
    ∃ c', rounds R.round (fuel + 1) c = some (c', ms.map R.packet) ∧
      R.Ready (incr^[ms.length] n) c' ∧ R.unread c' = rest := by
  induction drained generalizing n ms c fuel with
  | stop none_ =>
    obtain rfl : ms = [] := by
      cases ms with
      | nil => rfl
      | cons m ms => cases sealed
    obtain ⟨c', round, ready', unread'⟩ := R.waits ready (by rw [unread]; exact none_)
      (by rw [unread]; exact short)
    exact ⟨c', rounds_stop round fuel, ready', unread'.trans unread⟩
  | item take _ ih =>
    cases ms with
    | nil => cases sealed
    | cons m ms =>
      obtain ⟨rfl, tail⟩ := List.cons.inj sealed
      obtain ⟨c₁, round, ready₁, unread₁⟩ := R.takes ready (limits m (by simp))
        (by rw [unread]; exact take)
      rw [List.length_cons] at enough
      obtain ⟨fuel, rfl⟩ : ∃ k, fuel = k + 1 := ⟨fuel - 1, by omega⟩
      obtain ⟨c', run, ready', unread'⟩ := ih short tail (fun m' hm' => limits m' (by simp [hm']))
        ready₁ unread₁ fuel (by omega)
      exact ⟨c', rounds_go round run, ready', unread'⟩

theorem drains_cost {xs rest : Bytes} {bs : List Bytes} (drained : Drains frames xs bs rest)
    (bodies : ∀ b ∈ bs, 1 ≤ b.length) : 3 * bs.length ≤ xs.length := by
  induction drained with
  | stop _ => simp
  | item take _ ih =>
    obtain ⟨two, -, cut⟩ := takeFrame_eq_some take
    have total := congrArg List.length cut
    have body := bodies _ List.mem_cons_self
    have := ih fun b hb => bodies b (List.mem_cons_of_mem _ hb)
    simp only [List.length_drop, List.length_append, List.length_cons] at total ⊢
    omega

theorem sealedFrom_card (n : CBNonce) (ms : List Bytes) :
    (sealedFrom B key n ms).length = ms.length := by
  induction ms generalizing n with
  | nil => rfl
  | cons m ms ih => simp [sealedFrom, ih]

theorem sealedFrom_pos (law : B.Lawful) {n : CBNonce} {ms : List Bytes} :
    ∀ b ∈ sealedFrom B key n ms, 1 ≤ b.length := by
  intro b hb
  obtain ⟨m, -, n', rfl⟩ := mem_sealedFrom hb
  rw [law.seal_length, macSize]
  omega

theorem Reader.reads_on (law : B.Lawful) (rest : List Bytes) {n : CBNonce} {ms : List Bytes}
    (limits : ∀ m ∈ ms, Sendable m) {c : σ} (ready : R.Ready n c) (fuel : Nat)
    (enough : (R.unread c).length ≤ fuel + 2)
    (stream : Drains frames (R.unread c ++ rest.flatten) (sealedFrom B key n ms) [])
    (later : ∀ {n ms c}, (∀ m ∈ ms, Sendable m) → R.Ready n c →
      takeFrame (R.unread c) = none →
      Drains frames (R.unread c ++ rest.flatten) (sealedFrom B key n ms) [] →
      ∃ c', R.loop c rest = some (c', ms.map R.packet) ∧
        R.Ready (incr^[ms.length] n) c' ∧ R.unread c' = []) :
    ∃ c', ((rounds R.round (fuel + 1) c).bind fun r =>
        (R.loop r.1 rest).map fun r' => (r'.1, r.2 ++ r'.2)) = some (c', ms.map R.packet) ∧
      R.Ready (incr^[ms.length] n) c' ∧ R.unread c' = [] := by
  obtain ⟨bs₁, bs₂, kept, cut, first, second⟩ := stream.split
  obtain ⟨ms₁, ms₂, rfl, rfl, rfl⟩ := sealedFrom_split cut
  have limits₁ : ∀ m ∈ ms₁, Sendable m := fun m hm => limits m (by simp [hm])
  have limits₂ : ∀ m ∈ ms₂, Sendable m := fun m hm => limits m (by simp [hm])
  have header := (unread_short first.settled second (sealedFrom_length law limits₂)).2
  have cost := drains_cost first (sealedFrom_pos law)
  rw [sealedFrom_card] at cost
  obtain ⟨c₂, run, ready₂, unread₂⟩ := R.rounds_drain first header rfl limits₁ ready rfl
    fuel (by omega)
  obtain ⟨c', loop, ready', unread'⟩ := later limits₂ ready₂
    (by rw [unread₂]; exact first.settled) (by rw [unread₂]; exact second)
  refine ⟨c', ?_, ?_, unread'⟩
  · rw [run, Option.bind_some, loop]
    simp
  · rw [List.length_append, Nat.add_comm, Function.iterate_add_apply]
    exact ready'

theorem Reader.reads (law : B.Lawful) {chunks : List Bytes}
    (sizes : ∀ r ∈ chunks, 1 ≤ r.length ∧ r.length ≤ 3000) {n : CBNonce} {ms : List Bytes}
    (limits : ∀ m ∈ ms, Sendable m) {c : σ} (ready : R.Ready n c)
    (settled : takeFrame (R.unread c) = none)
    (stream : Drains frames (R.unread c ++ chunks.flatten) (sealedFrom B key n ms) []) :
    ∃ c', R.loop c chunks = some (c', ms.map R.packet) ∧
      R.Ready (incr^[ms.length] n) c' ∧ R.unread c' = [] := by
  induction chunks generalizing n ms c with
  | nil =>
    rw [List.flatten_nil, List.append_nil] at stream
    obtain ⟨none_, rest⟩ := (Drains.stop settled).functional stream
    obtain rfl : ms = [] := by
      cases ms with
      | nil => rfl
      | cons m ms => cases none_
    exact ⟨c, R.loop_nil c, ready, rest⟩
  | cons rdbuf rest ih =>
    obtain ⟨size, size'⟩ := sizes rdbuf (by simp)
    have few := (unread_short settled stream (sealedFrom_length law limits)).1
    obtain ⟨c₁, fuel, ready₁, unread₁, enough, step⟩ := R.loop_cons rest ready size size' few
    rw [List.flatten_cons, ← List.append_assoc, ← unread₁] at stream
    rw [step]
    refine R.reads_on law rest limits ready₁ fuel enough stream ?_
    intro n ms c limits ready settled stream
    exact ih (fun r hr => sizes r (by simp [hr])) limits ready settled stream

end Reader

section Server
open SecureConn

variable {rnd : SecureConn.HandshakeRandom} {c : TCPSecureConn}

def unread (c : TCPSecureConn) : Bytes :=
  if c.nxtpktlen = 0 then c.crbuf else putUint16 c.nxtpktlen ++ c.crbuf

theorem crbuf_le_unread (c : TCPSecureConn) : c.crbuf.length ≤ (unread c).length := by
  unfold unread
  split_ifs
  · exact le_rfl
  · simp

theorem unread_eq_nil (empty : unread c = []) : c.crbuf = [] ∧ c.nxtpktlen = 0 := by
  by_cases zero : c.nxtpktlen = 0
  · rw [unread, if_pos zero] at empty
    exact ⟨empty, zero⟩
  · rw [unread, if_neg zero] at empty
    cases empty

/-- After the handshake, with the key of the session and the nonce that is next. -/
structure ServerReady (key : CryptoKey) (n : CBNonce) (c : TCPSecureConn) : Prop where
  status : c.status = .unconfirmed ∨ c.status = .confirmed
  shrkey : c.shrkey = some key
  recvNonce : c.recvNonce = some n

def headed (c : TCPSecureConn) : TCPSecureConn :=
  { c with nxtpktlen := uint16 (unread c), crbuf := (unread c).drop 2 }

theorem headed_eq (two : 2 ≤ (unread c).length) :
    ¬ (c.nxtpktlen = 0 ∧ c.crbuf.length < 2) ∧
      (if c.nxtpktlen = 0 then readHeader c else c) = headed c := by
  by_cases zero : c.nxtpktlen = 0
  · have all : unread c = c.crbuf := if_pos zero
    rw [all] at two
    refine ⟨by omega, ?_⟩
    rw [if_pos zero, readHeader, headed, all, uint16_take_two]
  · have all : unread c = putUint16 c.nxtpktlen ++ c.crbuf := if_neg zero
    refine ⟨fun h => zero h.1, ?_⟩
    rw [if_neg zero, headed, all, uint16_putUint16, List.drop_left' (putUint16_length _)]

theorem readRound_of_header {n : CBNonce} (ready : ServerReady key n c)
    (two : 2 ≤ (unread c).length) : readRound B rnd c = readBody B (headed c) := by
  have round : readRound B rnd c = if c.nxtpktlen = 0 ∧ c.crbuf.length < 2 then some (c, none)
      else readBody B (if c.nxtpktlen = 0 then readHeader c else c) := by
    rcases ready.status with h | h <;> simp only [readRound, h]
  rw [round, if_neg (headed_eq two).1, (headed_eq two).2]

theorem server_waits {n : CBNonce} (ready : ServerReady key n c)
    (none_ : takeFrame (unread c) = none) :
    ∃ c', readRound B rnd c = some (c', none) ∧ ServerReady key n c' ∧ unread c' = unread c := by
  by_cases two : 2 ≤ (unread c).length
  · have few : (unread c).length < 2 + (uint16 (unread c)).toNat := by
      rcases takeFrame_eq_none.mp none_ with h | h <;> omega
    refine ⟨headed c, ?_, ⟨ready.status, ready.shrkey, ready.recvNonce⟩, ?_⟩
    · have short : (headed c).crbuf.length < (headed c).nxtpktlen.toNat := by
        simp only [headed, List.length_drop]
        omega
      rw [readRound_of_header ready two, readBody, if_pos short]
    · have positive : (headed c).nxtpktlen ≠ 0 := by
        intro zero
        have : (uint16 (unread c)).toNat = 0 := by
          rw [show uint16 (unread c) = 0 from zero]
          rfl
        omega
      rw [unread, if_neg positive, headed]
      match hu : unread c, two with
      | hi :: lo :: rest, _ => simp [putUint16_uint16]
  · -- less than a header: none was taken, and the ring has at most one byte
    have zero : c.nxtpktlen = 0 := by
      by_contra hne
      rw [unread, if_neg hne] at two
      simp at two
    have few : c.crbuf.length < 2 := by
      rw [unread, if_pos zero] at two
      omega
    refine ⟨c, ?_, ready, rfl⟩
    rcases ready.status with h | h <;> simp [readRound, h, zero, few]

theorem server_takes (law : B.Lawful) {n : CBNonce} (ready : ServerReady key n c) {m rest : Bytes}
    (sendable : Sendable m) (frame_ : takeFrame (unread c) = some (B.sealBox key n m, rest)) :
    ∃ c', readRound B rnd c = some (c', some (.packet m)) ∧ ServerReady key (incr n) c' ∧
      unread c' = rest := by
  obtain ⟨two, len, cut⟩ := takeFrame_eq_some frame_
  have sealed : (B.sealBox key n m).length ≤ 2065 := sendable.sealed_length law n
  have size : (2 + (headed c).nxtpktlen).toNat = 2 + (B.sealBox key n m).length := by
    rw [UInt16.toNat_add]
    simp only [headed, len]
    change (2 + (B.sealBox key n m).length) % 65536 = _
    omega
  have buf : (headed c).crbuf = B.sealBox key n m ++ rest := cut
  refine ⟨{ headed c with
    crbuf := rest, recvNonce := some (incr n), status := .confirmed, nxtpktlen := 0 }, ?_,
    ⟨Or.inr rfl, ready.shrkey, rfl⟩, rfl⟩
  have key_ : (headed c).shrkey = some key := ready.shrkey
  have nonce : (headed c).recvNonce = some n := ready.recvNonce
  rw [readRound_of_header ready two, readBody, if_neg (by
    rw [buf, show (headed c).nxtpktlen = uint16 (unread c) from rfl, len]
    simp)]
  simp only [size, Nat.add_sub_cancel_left, buf, List.take_left, List.drop_left]
  rw [if_neg (by omega), if_pos (by omega)]
  simp only [receive, key_, nonce, unpacket_lawful law, Option.bind_some, if_neg sendable.ne_nil]

variable (key) in
def serverReader (law : B.Lawful) (rnd : SecureConn.HandshakeRandom) :
    Reader B key TCPSecureConn SecureConn.ReadEvent where
  round := readRound B rnd
  loop := runReadLoop B rnd
  packet := .packet
  Ready := ServerReady key
  unread := unread
  waits := fun ready none_ _ => server_waits ready none_
  takes := fun ready sendable frame_ => server_takes law ready sendable frame_
  loop_nil := fun _ => rfl
  loop_cons := by
    intro n c rdbuf rest ready pos small few
    have more : unread { c with crbuf := c.crbuf ++ rdbuf } = unread c ++ rdbuf := by
      by_cases zero : c.nxtpktlen = 0 <;> simp [unread, zero]
    have kept := crbuf_le_unread c
    refine ⟨{ c with crbuf := c.crbuf ++ rdbuf }, (c.crbuf ++ rdbuf).length,
      ⟨ready.status, ready.shrkey, ready.recvNonce⟩, more, ?_, ?_⟩
    · rw [more, List.length_append, List.length_append]
      by_cases zero : c.nxtpktlen = 0
      · rw [unread, if_pos zero]; omega
      · rw [unread, if_neg zero, List.length_append, putUint16_length]; omega
    · rw [runReadLoop, if_neg (by omega), if_pos (by rw [crbufCap]; omega)]
      rfl

end Server

section Client
open TcpClient

variable {rand : UInt64} {c : TCPClient}

structure ClientReady (key : CryptoKey) (n : CBNonce) (c : TCPClient) : Prop where
  status : c.status = .unconfirmed ∨ c.status = .confirmed
  shrkey : c.shrkey = key
  recvNonce : c.recvNonce = some n
  size : c.crbuf.size = 4096
  live : c.crbuf.eof = false

theorem client_round {n : CBNonce} (ready : ClientReady key n c) :
    readRound B rand c = readFrame B c := by
  rcases ready.status with h | h <;> simp only [readRound, h]

theorem client_waits {n : CBNonce} (ready : ClientReady key n c)
    (none_ : takeFrame c.crbuf.contents = none)
    (short : 2 ≤ c.crbuf.contents.length → (uint16 c.crbuf.contents).toNat ≤ 2065) :
    ∃ c', readRound B rand c = some (c', none) ∧ ClientReady key n c' ∧
      c'.crbuf.contents = c.crbuf.contents := by
  obtain ⟨b, peek, size, same, live, -⟩ := c.crbuf.peek_spec ready.live (n := 2)
    (by rw [ready.size]; omega)
  rw [client_round ready, readFrame, peek]
  by_cases two : 2 ≤ c.crbuf.contents.length
  · have header := short two
    obtain ⟨b', peek', size', same', live', -⟩ := b.peek_spec live
      (n := 2 + (uint16 c.crbuf.contents).toNat) (by rw [size, ready.size]; omega)
    have few : ¬ 2 + (uint16 c.crbuf.contents).toNat ≤ b.contents.length := by
      rw [same]
      rcases takeFrame_eq_none.mp none_ with h | h <;> omega
    simp only [if_pos two, uint16_take_two, peek', if_neg few]
    exact ⟨_, rfl, ⟨ready.status, ready.shrkey, ready.recvNonce,
      size'.trans (size.trans ready.size), live'⟩, same'.trans same⟩
  · simp only [if_neg two]
    exact ⟨_, rfl, ⟨ready.status, ready.shrkey, ready.recvNonce, size.trans ready.size, live⟩, same⟩

theorem client_takes (law : B.Lawful) {n : CBNonce} (ready : ClientReady key n c) {m rest : Bytes}
    (sendable : Sendable m)
    (frame_ : takeFrame c.crbuf.contents = some (B.sealBox key n m, rest)) :
    ∃ c', readRound B rand c = some (c', some (.packet m)) ∧ ClientReady key (incr n) c' ∧
      c'.crbuf.contents = rest := by
  obtain ⟨two, len, cut⟩ := takeFrame_eq_some frame_
  have sealed : (B.sealBox key n m).length ≤ 2065 := sendable.sealed_length law n
  have total : 2 + (B.sealBox key n m).length ≤ c.crbuf.contents.length := by
    have := congrArg List.length cut
    simp only [List.length_drop, List.length_append] at this
    omega
  obtain ⟨b, peek, size, same, live, -⟩ := c.crbuf.peek_spec ready.live (n := 2)
    (by rw [ready.size]; omega)
  obtain ⟨b', peek', size', same', live', buffered⟩ := b.peek_spec live
    (n := 2 + (B.sealBox key n m).length) (by rw [size, ready.size]; omega)
  rw [same] at same' buffered peek'
  obtain ⟨size'', same'', live'', data⟩ := b'.read_spec (n := 2 + (B.sealBox key n m).length)
    (by omega) (buffered total)
  -- the bytes read are the header and the sealed plaintext
  have whole : c.crbuf.contents.take (2 + (B.sealBox key n m).length) =
      putUint16 (uint16 c.crbuf.contents) ++ B.sealBox key n m := by
    match hx : c.crbuf.contents, two with
    | hi :: lo :: xs, _ => grind [putUint16_uint16]
  have left : c.crbuf.contents.drop (2 + (B.sealBox key n m).length) = rest := by
    rw [← List.drop_drop, cut, List.drop_left]
  rw [same', whole] at data
  rw [same', left] at same''
  have read_len : (b'.read (2 + (B.sealBox key n m).length)).2.length =
      2 + (B.sealBox key n m).length := by
    rw [data, List.length_append, putUint16_length]
  rw [client_round ready, readFrame, peek]
  simp only [if_pos two, uint16_take_two, len, peek', if_pos total]
  rw [if_pos read_len, data]
  refine ⟨{ c with
    crbuf := (b'.read (2 + (B.sealBox key n m).length)).1
    recvNonce := some (incr n), status := .confirmed }, ?_, ?_, same''⟩
  · simp only [receive, ready.recvNonce, ready.shrkey, Option.bind_some, unpacket_lawful law,
      if_neg sendable.ne_nil]
  · exact ⟨Or.inr rfl, ready.shrkey, rfl, size''.trans (size'.trans (size.trans ready.size)),
      live''.trans live'⟩

variable (key) in
def clientReader (law : B.Lawful) (rand : UInt64) :
    Reader B key TCPClient TcpClient.ReadEvent where
  round := readRound B rand
  loop := doReadConn B rand
  packet := .packet
  Ready := ClientReady key
  unread := fun c => c.crbuf.contents
  waits := fun ready none_ short => client_waits ready none_ short
  takes := fun ready sendable frame_ => client_takes law ready sendable frame_
  loop_nil := fun _ => rfl
  loop_cons := by
    intro n c rdbuf rest ready pos small few
    have src : c.crbuf.src.length ≤ c.crbuf.contents.length := by
      simp [BufReader.contents]
    refine ⟨{ c with crbuf := c.crbuf.write rdbuf }, (c.crbuf.write rdbuf).contents.length,
      ⟨ready.status, ready.shrkey, ready.recvNonce, ready.size, ready.live⟩,
      BufReader.contents_write _ _, Nat.le_add_right _ 2, ?_⟩
    rw [doReadConn, if_neg (by omega), if_pos (by rw [readerSize, ringCap]; omega)]
    rfl

end Client

/-- Whatever the segmentation, both sides hand on exactly the plaintexts that were
written, in order; no assertion fails on the way, nothing is left unread, and the
nonce has moved on by one for each packet. -/
theorem channel_transparent (law : B.Lawful) (key : CryptoKey) (start : CBNonce)
    (plains : List Bytes) (limits : ∀ m ∈ plains, 1 ≤ m.length ∧ m.length ≤ 2049)
    (chunks : List Bytes) (sizes : ∀ r ∈ chunks, 1 ≤ r.length ∧ r.length ≤ 3000)
    (finish : CBNonce) (written : writePackets B key start plains = some (chunks.flatten, finish)) :
    (∀ rnd (c : SecureConn.TCPSecureConn), c.status = .unconfirmed ∨ c.status = .confirmed →
      c.shrkey = some key → c.recvNonce = some start → c.crbuf = [] → c.nxtpktlen = 0 →
      ∃ c', SecureConn.runReadLoop B rnd c chunks =
          some (c', plains.map SecureConn.ReadEvent.packet) ∧
        c'.recvNonce = some (incr^[plains.length] start) ∧ c'.crbuf = [] ∧ c'.nxtpktlen = 0) ∧
    (∀ rand (c : TcpClient.TCPClient), c.status = .unconfirmed ∨ c.status = .confirmed →
      c.shrkey = key → c.recvNonce = some start → c.crbuf.size = TcpClient.readerSize →
      c.crbuf.eof = false → c.crbuf.contents = [] →
      ∃ c', TcpClient.doReadConn B rand c chunks =
          some (c', plains.map TcpClient.ReadEvent.packet) ∧
        c'.recvNonce = some (incr^[plains.length] start) ∧ c'.crbuf.contents = []) ∧
    finish = incr^[plains.length] start ∧
    beVal (incr^[plains.length] start).val = (beVal start.val + plains.length) % 2 ^ 192 := by
  obtain ⟨drained, rfl⟩ := written_drains law limits written
  refine ⟨?_, ?_, rfl, beVal_iterate_incr start plains.length⟩
  · intro rnd c status shrkey recvNonce crbuf nxtpktlen
    have empty : unread c = [] := by simp [unread, nxtpktlen, crbuf]
    obtain ⟨c', loop, ready, left⟩ := (serverReader key law rnd).reads law sizes limits
      (c := c) ⟨status, shrkey, recvNonce⟩
      (by rw [show (serverReader key law rnd).unread c = [] from empty]; rfl)
      (by rw [show (serverReader key law rnd).unread c = [] from empty]; exact drained)
    exact ⟨c', loop, ready.recvNonce, unread_eq_nil left⟩
  · intro rand c status shrkey recvNonce size live empty
    obtain ⟨c', loop, ready, left⟩ := (clientReader key law rand).reads law sizes limits
      (c := c) ⟨status, shrkey, recvNonce, size, live⟩
      (by rw [show (clientReader key law rand).unread c = [] from empty]; rfl)
      (by rw [show (clientReader key law rand).unread c = [] from empty]; exact drained)
    exact ⟨c', loop, ready.recvNonce, left⟩

def threeReads : List Bytes :=
  [[0], [19, 8, 8, 8, 8, 8, 8, 8, 8, 8, 8, 8, 8, 8, 8, 8, 8, 1, 2, 3, 0, 17, 9, 9, 9],
    [9, 9, 9, 9, 9, 9, 9, 9, 9, 9, 9, 9, 9, 4]]

theorem channel_transparent_three_reads :
    ∃ c', SecureConn.runReadLoop plainBox ⟨nonceOf 0, nonceOf 0, keyOf 0⟩
        { SecureConn.newTCPSecureConn (keyOf 1) with
          status := .confirmed, shrkey := some (keyOf 9), recvNonce := some (nonceOf 255) }
        threeReads = some (c', [.packet [1, 2, 3], .packet [4]]) ∧
      c'.recvNonce = some (incr (incr (nonceOf 255))) := by
  obtain ⟨server, -⟩ := channel_transparent plainBox_lawful (keyOf 9) (nonceOf 255)
    [[1, 2, 3], [4]] (by decide) threeReads (by decide) (incr (incr (nonceOf 255))) (by decide)
  obtain ⟨c', loop, nonce, -⟩ := server ⟨nonceOf 0, nonceOf 0, keyOf 0⟩
    { SecureConn.newTCPSecureConn (keyOf 1) with
      status := .confirmed, shrkey := some (keyOf 9), recvNonce := some (nonceOf 255) }
    (Or.inr rfl) rfl rfl rfl rfl
  exact ⟨c', loop, nonce⟩

end Channel
