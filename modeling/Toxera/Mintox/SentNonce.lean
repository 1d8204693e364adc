import Toxera.Lib.Exec
import Toxera.Mintox.Packet

/-!
# Two loops that send under one nonce

The write loop and the ping loop of a connection run in goroutines of their own.
-/

namespace SentNonce

open CryptoCore Packet Exec

inductive Loop where
  | writeLoop
  | pingLoop
  deriving DecidableEq

def Loop.other : Loop → Loop
  | .writeLoop => .pingLoop
  | .pingLoop => .writeLoop

structure Sealed where
  nonce : CBNonce
  plain : Bytes
  encpkt : Bytes
  deriving DecidableEq

inductive Pc where
  | idle
  | encrypted (p : Sealed)
  | written
  | ended
  deriving DecidableEq

variable {l : Loop} {n : CBNonce} {p : Pc} {ps : List Sealed}

structure Sending where
  shrkey : CryptoKey
  sentNonce : CBNonce
  pc : Loop → Pc
  wire : List Sealed

def opened (key : CryptoKey) (start : CBNonce) : Sending := ⟨key, start, fun _ => .idle, []⟩

inductive Act where
  /-- the write loop takes a packet from a queue and encrypts it -/
  | take (data : Bytes)
  /-- the ping loop makes and encrypts a ping -/
  | tick (rand : UInt64)
  | write (l : Loop)
  | fail (l : Loop)
  | increment (l : Loop)

section Model
variable (B : Box)

def encrypt (s : Sending) (l : Loop) (plain : Bytes) : Option Sending :=
  match s.pc l with
  | .idle => (createPacket B s.shrkey s.sentNonce plain).map fun encpkt =>
      { s with pc := Function.update s.pc l (.encrypted ⟨s.sentNonce, plain, encpkt⟩) }
  | _ => none

def step (s : Sending) : Act → Option Sending
  | .take data => encrypt B s .writeLoop data
  | .tick rand => encrypt B s .pingLoop (pingPacket rand)
  | .write l =>
    match s.pc l with
    | .encrypted p =>
      some { s with pc := Function.update s.pc l .written, wire := s.wire ++ [p] }
    | _ => none
  | .fail l =>
    match s.pc l with
    | .encrypted _ => some { s with pc := Function.update s.pc l .ended }
    | _ => none
  | .increment l =>
    match s.pc l with
    | .written =>
      some { s with pc := Function.update s.pc l .idle, sentNonce := incr s.sentNonce }
    | _ => none

end Model

def Pc.Quiet (p : Pc) : Prop := p = .idle ∨ p = .ended

instance (p : Pc) : Decidable p.Quiet := instDecidableOr

def Alone (s : Sending) : Act → Prop
  | .take _ => (s.pc .pingLoop).Quiet
  | .tick _ => (s.pc .writeLoop).Quiet
  | _ => True

instance (s : Sending) (a : Act) : Decidable (Alone s a) :=
  match a with
  | .take _ => inferInstanceAs (Decidable (Pc.Quiet _))
  | .tick _ => inferInstanceAs (Decidable (Pc.Quiet _))
  | .write _ => isTrue trivial
  | .fail _ => isTrue trivial
  | .increment _ => isTrue trivial

/-- Each packet is sealed under the nonce that follows that of the packet before. -/
def InOrder (B : Box) (key : CryptoKey) : CBNonce → List Sealed → Prop
  | _, [] => True
  | n, p :: ps => (p.nonce = n ∧ createPacket B key n p.plain = some p.encpkt) ∧
      InOrder B key (incr n) ps

variable {B : Box} {key : CryptoKey}

theorem inOrder_snoc {p : Sealed} :
    InOrder B key n (ps ++ [p]) ↔ InOrder B key n ps ∧ p.nonce = incr^[ps.length] n ∧
      createPacket B key p.nonce p.plain = some p.encpkt := by
  induction ps generalizing n with
  | nil =>
    simp only [List.nil_append, InOrder, List.length_nil, Function.iterate_zero, id, and_true,
      true_and]
    constructor
    · rintro ⟨rfl, h⟩
      exact ⟨rfl, h⟩
    · rintro ⟨rfl, h⟩
      exact ⟨rfl, h⟩
  | cons q ps ih =>
    rw [List.cons_append, InOrder, ih, InOrder, List.length_cons, Function.iterate_succ_apply]
    simp only [and_assoc]

theorem inOrder_nonces (h : InOrder B key n ps) :
    ps.map Sealed.nonce = (List.range ps.length).map fun i => incr^[i] n := by
  induction ps generalizing n with
  | nil => rfl
  | cons p ps ih =>
    rw [List.map_cons, ih h.2, List.length_cons, List.range_succ_eq_map, List.map_cons,
      List.map_map, h.1.1]
    rfl

theorem inOrder_unpackets (law : B.Lawful) (h : InOrder B key n ps) :
    unpackets B key n (ps.map Sealed.encpkt) =
      some (ps.map Sealed.plain, incr^[ps.length] n) := by
  induction ps generalizing n with
  | nil => rfl
  | cons p ps ih =>
    have pkt := h.1.2
    rw [createPacket_lawful law] at pkt
    have first : unpacket B key n p.encpkt = some (p.plain, incr n) := by
      rw [← Option.some.inj pkt, frame, unpacket_lawful law]
    rw [List.map_cons, unpackets, first, Option.bind_some, ih h.2]
    rfl

/-- One loop at most holds a packet, and the nonce is that of the next packet
unless it is about to be incremented. -/
structure InStep (B : Box) (key : CryptoKey) (start : CBNonce) (s : Sending) : Prop where
  shrkey : s.shrkey = key
  order : InOrder B key start s.wire
  one : ∀ l, (s.pc l).Quiet ∨ (s.pc l.other).Quiet
  held : ∀ l p, s.pc l = .encrypted p → p.nonce = s.sentNonce ∧
    createPacket B key p.nonce p.plain = some p.encpkt
  next : (∀ l, s.pc l ≠ .written) → s.sentNonce = incr^[s.wire.length] start
  late : ∀ l, s.pc l = .written → incr s.sentNonce = incr^[s.wire.length] start

theorem opened_inStep (key : CryptoKey) (start : CBNonce) :
    InStep B key start (opened key start) where
  shrkey := rfl
  order := trivial
  one := fun _ => Or.inl (Or.inl rfl)
  held := fun _ _ h => by cases h
  next := fun _ => rfl
  late := fun _ h => by cases h

theorem Loop.eq_or_other (l l' : Loop) : l' = l ∨ l' = l.other := by
  cases l <;> cases l' <;> simp [Loop.other]

theorem Loop.other_ne (l : Loop) : l.other ≠ l := by
  cases l <;> simp [Loop.other]

theorem Pc.Quiet.not_encrypted (quiet : p.Quiet) (q : Sealed) : p ≠ .encrypted q := by
  rcases quiet with rfl | rfl <;> simp

theorem Pc.Quiet.not_written (quiet : p.Quiet) : p ≠ .written := by
  rcases quiet with rfl | rfl <;> simp

section Step
variable {start : CBNonce} {s t : Sending}

theorem InStep.of_other_quiet (l : Loop) (quiet : (s.pc l.other).Quiet) (shrkey : s.shrkey = key)
    (order : InOrder B key start s.wire)
    (held : ∀ p, s.pc l = .encrypted p → p.nonce = s.sentNonce ∧
      createPacket B key p.nonce p.plain = some p.encpkt)
    (next : s.pc l ≠ .written → s.sentNonce = incr^[s.wire.length] start)
    (late : s.pc l = .written → incr s.sentNonce = incr^[s.wire.length] start) :
    InStep B key start s := by
  refine ⟨shrkey, order, ?_, ?_, fun none_ => next (none_ l), ?_⟩
  · intro l'
    rcases l.eq_or_other l' with rfl | rfl
    · exact Or.inr quiet
    · exact Or.inl quiet
  · intro l' p h
    rcases l.eq_or_other l' with rfl | rfl
    · exact held p h
    · exact absurd h (quiet.not_encrypted p)
  · intro l' h
    rcases l.eq_or_other l' with rfl | rfl
    · exact late h
    · exact absurd h quiet.not_written

theorem InStep.other_quiet (h : InStep B key start s) (busy : ¬ (s.pc l).Quiet) :
    (s.pc l.other).Quiet :=
  (h.one l).resolve_left busy

theorem InStep.current (h : InStep B key start s) (unwritten : s.pc l ≠ .written)
    (quiet : (s.pc l.other).Quiet) : s.sentNonce = incr^[s.wire.length] start := by
  apply h.next
  intro l'
  rcases l.eq_or_other l' with rfl | rfl
  · exact unwritten
  · exact quiet.not_written

theorem quiet_after {pc : Loop → Pc} (quiet : (pc l.other).Quiet) (p : Pc) :
    (Function.update pc l p l.other).Quiet := by
  rw [Function.update_of_ne l.other_ne]
  exact quiet

theorem InStep.encrypt (h : InStep B key start s) {plain : Bytes} (alone : (s.pc l.other).Quiet)
    (run : encrypt B s l plain = some t) : InStep B key start t := by
  unfold SentNonce.encrypt at run
  split at run
  case h_2 => cases run
  case h_1 idle =>
    obtain ⟨encpkt, made, rfl⟩ := Option.map_eq_some_iff.mp run
    have current := h.current (l := l) (by rw [idle]; simp) alone
    refine .of_other_quiet l (quiet_after alone _) h.shrkey h.order ?_ (fun _ => current) ?_
    · intro p hp
      obtain rfl : ⟨s.sentNonce, plain, encpkt⟩ = p := by simpa using hp
      exact ⟨rfl, h.shrkey ▸ made⟩
    · intro hp
      simp at hp

theorem step_inStep (h : InStep B key start s) {a : Act} (alone : Alone s a)
    (run : step B s a = some t) : InStep B key start t := by
  cases a with
  | take data => exact h.encrypt (l := .writeLoop) alone run
  | tick rand => exact h.encrypt (l := .pingLoop) alone run
  | write l =>
    simp only [step] at run
    split at run
    case h_2 => cases run
    case h_1 p enc =>
      cases run
      have quiet := h.other_quiet (l := l) (by rw [enc]; simp [Pc.Quiet])
      obtain ⟨nonce, made⟩ := h.held l p enc
      have current := h.current (l := l) (by rw [enc]; simp) quiet
      refine .of_other_quiet l (quiet_after quiet _) h.shrkey ?_ ?_ ?_ ?_
      · exact inOrder_snoc.mpr ⟨h.order, nonce.trans current, made⟩
      · intro q hq
        simp at hq
      · intro hne
        simp at hne
      · intro _
        rw [List.length_append, List.length_singleton, Function.iterate_succ_apply', ← current]
  | fail l =>
    simp only [step] at run
    split at run
    case h_2 => cases run
    case h_1 p enc =>
      cases run
      have quiet := h.other_quiet (l := l) (by rw [enc]; simp [Pc.Quiet])
      have current := h.current (l := l) (by rw [enc]; simp) quiet
      refine .of_other_quiet l (quiet_after quiet _) h.shrkey h.order ?_ (fun _ => current) ?_
      · intro q hq
        simp at hq
      · intro hw
        simp at hw
  | increment l =>
    simp only [step] at run
    split at run
    case h_2 => cases run
    case h_1 wrote =>
      cases run
      have quiet := h.other_quiet (l := l) (by rw [wrote]; simp [Pc.Quiet])
      refine .of_other_quiet l (quiet_after quiet _) h.shrkey h.order ?_
        (fun _ => h.late l wrote) ?_
      · intro q hq
        simp at hq
      · intro hw
        simp at hw

end Step

/-- When every encryption is made alone, the nonces on the wire count up from the
start, the client opens every packet, and no nonce is used twice before the
counter wraps. -/
theorem wire_in_step (law : B.Lawful) (key : CryptoKey) (start : CBNonce) {acts : List Act}
    {s : Sending} (run : exec (step B) (opened key start) acts = some s)
    (alone : Along (step B) Alone (opened key start) acts) :
    s.wire.map Sealed.nonce = ((List.range s.wire.length).map fun i => incr^[i] start) ∧
    unpackets B key start (s.wire.map Sealed.encpkt) =
      some (s.wire.map Sealed.plain, incr^[s.wire.length] start) ∧
    (s.wire.length ≤ 2 ^ 192 → (s.wire.map Sealed.nonce).Nodup) := by
  have order := (exec_invariant_along (P := InStep B key start)
    (fun _ _ _ h alone run => step_inStep h alone run) (opened_inStep key start) alone run).order
  refine ⟨inOrder_nonces order, inOrder_unpackets law order, ?_⟩
  intro small
  rw [inOrder_nonces order]
  exact nonces_nodup start small

def inTurn : List Act :=
  [.take [2, 16], .write .writeLoop, .increment .writeLoop, .tick 7, .write .pingLoop,
    .increment .pingLoop, .take [2, 17], .fail .writeLoop]

def sentBy (acts : List Act) : Sending :=
  (exec (step plainBox) (opened (keyOf 9) (nonceOf 0)) acts).getD (opened (keyOf 9) (nonceOf 0))

theorem wire_in_step_in_turn :
    (sentBy inTurn).wire.length = 2 ∧
    (sentBy inTurn).wire.map Sealed.nonce = [nonceOf 0, incr (nonceOf 0)] ∧
    ∃ n, unpackets plainBox (keyOf 9) (nonceOf 0) ((sentBy inTurn).wire.map Sealed.encpkt) =
      some ([[2, 16], pingPacket 7], n) := by
  have run : exec (step plainBox) (opened (keyOf 9) (nonceOf 0)) inTurn = some (sentBy inTurn) := by
    have h : (exec (step plainBox) (opened (keyOf 9) (nonceOf 0)) inTurn).isSome = true := by
      decide +kernel
    obtain ⟨s, hs⟩ := Option.isSome_iff_exists.mp h
    simp [sentBy, hs]
  have alone : Along (step plainBox) Alone (opened (keyOf 9) (nonceOf 0)) inTurn :=
    along_of_decide (by decide +kernel)
  obtain ⟨nonces, opened_, -⟩ := wire_in_step plainBox_lawful (keyOf 9) (nonceOf 0) run alone
  have length : (sentBy inTurn).wire.length = 2 := by decide +kernel
  have plains : (sentBy inTurn).wire.map Sealed.plain = [[2, 16], pingPacket 7] := by
    decide +kernel
  rw [length] at nonces
  rw [plains] at opened_
  exact ⟨length, nonces, _, opened_⟩

/-- The ping is encrypted between the encryption and the increment of the other loop. -/
def overlapping : List Act :=
  [.take [2, 16], .tick 7, .write .writeLoop, .write .pingLoop, .increment .writeLoop,
    .increment .pingLoop]

/-- Both packets are sealed under one nonce, and the client cannot open the second. -/
theorem nonce_used_twice :
    (exec (step plainBox) (opened (keyOf 9) (nonceOf 0)) overlapping).isSome = true ∧
    (sentBy overlapping).wire.map Sealed.plain = [[2, 16], pingPacket 7] ∧
    (sentBy overlapping).wire.map Sealed.nonce = [nonceOf 0, nonceOf 0] ∧
    unpackets plainBox (keyOf 9) (nonceOf 0) ((sentBy overlapping).wire.map Sealed.encpkt) =
      none := by
  decide +kernel

end SentNonce
