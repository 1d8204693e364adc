import Toxera.Mintox.Datagrams

/-!
# How long a ping id is valid

The answer to an announce request hands out a ping id, and a later request that carries it
is taken for an announce.
-/

namespace Dht

open CryptoCore Packet

variable {n' : UdpNode} {pk pk' : CryptoKey}

variable (sha256 : Bytes → {b : Bytes // b.length = 32})

def pingMessage (n : UdpNode) (t : Time) (pubkey : CryptoKey) (retaddr : UDPAddr) : Bytes :=
  n.secBytes.val ++ putUint64 (UInt64.ofInt ((t / 1000000000).tdiv 20)) ++ pubkey.val ++
    retaddr.ip.bytes ++ putUint16 retaddr.port

def sentPingId (n : UdpNode) (m : Moment) (pktpk : CryptoKey) : Bytes :=
  generatePingId sha256 n (m.pingTimes.2 + 20 * 1000000000) pktpk m.source

def AcceptsPingId (n : UdpNode) (m : Moment) (pktpk : CryptoKey) (pingid : Bytes) : Prop :=
  generatePingId sha256 n m.pingTimes.1 pktpk m.source = pingid ∨
    generatePingId sha256 n (m.pingTimes.2 + 20 * 1000000000) pktpk m.source = pingid

def hashedFor (n : UdpNode) (m : Moment) (pktpk : CryptoKey) : List Bytes :=
  [pingMessage n m.pingTimes.1 pktpk m.source,
    pingMessage n (m.pingTimes.2 + 20 * 1000000000) pktpk m.source]

def CollisionFree (messages : List Bytes) : Prop :=
  ∀ a ∈ messages, ∀ b ∈ messages, sha256 a = sha256 b → a = b

instance (messages : List Bytes) : Decidable (CollisionFree sha256 messages) :=
  inferInstanceAs (Decidable (∀ a ∈ messages, ∀ b ∈ messages, sha256 a = sha256 b → a = b))

structure Moment.InSecond (m : Moment) (t : Int) : Prop where
  first : m.pingTimes.1 / 1000000000 = t
  second : m.pingTimes.2 / 1000000000 = t
  nonneg : 0 ≤ t
  /-- a Unix time is an `int64` -/
  fits : t ≤ 9223372036854775807

theorem putUint16_injective : Function.Injective putUint16 :=
  Function.LeftInverse.injective fun n => uint16_putUint16 n []

theorem putUint64_injective : Function.Injective putUint64 :=
  Function.LeftInverse.injective uint64_putUint64

theorem ofInt_inj_of_lt {a b : Int} (ha : 0 ≤ a ∧ a < 18446744073709551616)
    (hb : 0 ≤ b ∧ b < 18446744073709551616) (h : UInt64.ofInt a = UInt64.ofInt b) : a = b := by
  have eq := congrArg UInt64.toNat h
  simp only [UInt64.ofInt, UInt64.toNat_ofNat'] at eq
  omega

theorem pingMessage_inj {n : UdpNode} (same : n'.secBytes = n.secBytes) {x x' : Time}
    {addr addr' : UDPAddr} (len : addr'.ip.bytes.length = addr.ip.bytes.length)
    (h : pingMessage n' x' pk' addr' = pingMessage n x pk addr) :
    UInt64.ofInt ((x' / 1000000000).tdiv 20) = UInt64.ofInt ((x / 1000000000).tdiv 20) ∧
      pk' = pk ∧ addr' = addr := by
  obtain ⟨⟨bytes, _⟩, port⟩ := addr
  obtain ⟨⟨bytes', _⟩, port'⟩ := addr'
  simp only [pingMessage, same] at h
  have keys : pk'.val.length = pk.val.length := pk'.property.trans pk.property.symm
  obtain ⟨h, ports⟩ := List.append_inj' h rfl
  obtain ⟨h, ips⟩ := List.append_inj' h len
  obtain ⟨h, key⟩ := List.append_inj' h keys
  obtain ⟨-, ts⟩ := List.append_inj' h (by simp)
  cases ips
  cases putUint16_injective ports
  exact ⟨putUint64_injective ts, Subtype.ext key, rfl⟩

section
variable {m : Moment} {t : Int}

theorem Moment.InSecond.period (at_t : m.InSecond t) :
    (m.pingTimes.1 / 1000000000).tdiv 20 = t / 20 := by
  rw [at_t.first, Int.tdiv_eq_ediv_of_nonneg at_t.nonneg]

theorem Moment.InSecond.next_period (at_t : m.InSecond t) :
    ((m.pingTimes.2 + 20 * 1000000000) / 1000000000).tdiv 20 = t / 20 + 1 := by
  have later : (m.pingTimes.2 + 20 * 1000000000) / 1000000000 = t + 20 := by
    rw [← at_t.second]
    exact Int.add_mul_ediv_right _ 20 (by decide)
  rw [later, Int.tdiv_eq_ediv_of_nonneg (Int.add_nonneg at_t.nonneg (by decide))]
  omega

end

theorem acceptsPingId_iff {n : UdpNode} (same : n'.secBytes = n.secBytes) {m m' : Moment}
    {t t' : Int} (at_t : m.InSecond t) (at_t' : m'.InSecond t')
    (len : m'.source.ip.bytes.length = m.source.ip.bytes.length)
    (free : CollisionFree sha256 (hashedFor n m pk ++ hashedFor n' m' pk')) :
    AcceptsPingId sha256 n' m' pk' (sentPingId sha256 n m pk) ↔
      pk' = pk ∧ m'.source = m.source ∧ (t' / 20 = t / 20 ∨ t' / 20 = t / 20 + 1) := by
  have nonneg := at_t.nonneg
  have fits := at_t.fits
  have nonneg' := at_t'.nonneg
  have fits' := at_t'.fits
  have sent : pingMessage n (m.pingTimes.2 + 20 * 1000000000) pk m.source ∈
      hashedFor n m pk ++ hashedFor n' m' pk' := by simp [hashedFor]
  constructor
  · rintro (now | next)
    · have eq := free _ (List.mem_append_right _ (.head _)) _ sent (Subtype.ext now)
      obtain ⟨periods, rfl, source⟩ := pingMessage_inj same len eq
      rw [at_t'.period, at_t.next_period] at periods
      exact ⟨rfl, source, .inr (ofInt_inj_of_lt (by omega) (by omega) periods)⟩
    · have eq := free _ (List.mem_append_right _ (.tail _ (.head _))) _ sent (Subtype.ext next)
      obtain ⟨periods, rfl, source⟩ := pingMessage_inj same len eq
      rw [at_t'.next_period, at_t.next_period] at periods
      have := ofInt_inj_of_lt (by omega) (by omega) periods
      exact ⟨rfl, source, .inl (by omega)⟩
  · rintro ⟨rfl, source, same_period | next⟩
    · right
      simp only [sentPingId, generatePingId, same, source, at_t'.next_period, at_t.next_period,
        same_period]
    · left
      simp only [sentPingId, generatePingId, same, source, at_t'.period, at_t.next_period, next]

def endHash (message : Bytes) : {b : Bytes // b.length = 32} :=
  ⟨fill 32 (message.drop 32), fill_length ..⟩

def momentAt (t : Int) : Moment :=
  { firstMoment with pingTimes := (t * 1000000000, t * 1000000000) }

theorem momentAt_inSecond {t : Int} (nonneg : 0 ≤ t) (fits : t ≤ 9223372036854775807) :
    (momentAt t).InSecond t :=
  ⟨Int.mul_ediv_cancel t (by decide), Int.mul_ediv_cancel t (by decide), nonneg, fits⟩

end Dht
