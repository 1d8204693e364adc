import Mathlib.Data.List.Basic
import Toxera.Lib.Exec

/-!
# The out-of-band inbox

`on_oob_packet` and `ReadFrom` of `tcpcli/tcpclient.go` on a channel of eight packets.
-/

namespace OobInbox

open Exec

universe u
variable {α : Type u}

def cap : Nat := 8

inductive Callback (α : Type u) where
  | idle
  | test (pkt : α)
  | discard (pkt : α) (read : Nat)
  | send (pkt : α)

/-- The packets taken from the channel are marked with whether a reader took them. -/
structure State (α : Type u) where
  callback : Callback α
  oobinch : List α
  arrived : List α
  taken : List (α × Bool)

def init : State α := ⟨.idle, [], [], []⟩

inductive Event (α : Type u) where
  | call (pkt : α)
  | step
  | readFrom

def Callback.received : Callback α → Callback α
  | .discard pkt read => .discard pkt (read + 1)
  | c => c

def advance (s : State α) : Option (State α) :=
  match s.callback with
  | .idle => none
  | .test pkt =>
    if cap ≤ s.oobinch.length then some { s with callback := .discard pkt 0 }
    else some { s with callback := .send pkt }
  | .discard pkt _ =>
    match s.oobinch with
    | [] => none
    | first :: rest =>
      some { s with callback := .send pkt, oobinch := rest, taken := s.taken ++ [(first, false)] }
  | .send pkt =>
    if s.oobinch.length < cap then
      some { s with callback := .idle, oobinch := s.oobinch ++ [pkt] }
    else none

def next (s : State α) : Event α → Option (State α)
  | .call pkt =>
    match s.callback with
    | .idle => some { s with callback := .test pkt, arrived := s.arrived ++ [pkt] }
    | _ => none
  | .step => advance s
  | .readFrom =>
    match s.oobinch with
    | [] => none
    | first :: rest =>
      some { s with callback := s.callback.received, oobinch := rest,
                    taken := s.taken ++ [(first, true)] }

def Callback.pending : Callback α → List α
  | .idle => []
  | .test pkt | .discard pkt _ | .send pkt => [pkt]

/-- Room for the packet to be sent; the channel was full when its length was tested. -/
def Callback.Room (oobinch : List α) : Callback α → Prop
  | .idle | .test _ => oobinch.length ≤ cap
  | .discard _ read => oobinch.length + read = cap
  | .send _ => oobinch.length < cap

structure Inv (s : State α) : Prop where
  order : s.taken.map Prod.fst ++ s.oobinch ++ s.callback.pending = s.arrived
  room : s.callback.Room s.oobinch

theorem Inv.init : Inv (init : State α) := ⟨rfl, Nat.zero_le _⟩

theorem Inv.next {s t : State α} (e : Event α) (h : Inv s) (step : next s e = some t) : Inv t := by
  obtain ⟨callback, oobinch, arrived, taken⟩ := s
  obtain ⟨order, room⟩ := h
  dsimp only at order room
  cases e with
  | call pkt =>
    cases callback <;> simp only [OobInbox.next, Option.some.injEq, reduceCtorEq] at step
    subst step
    refine ⟨?_, room⟩
    rw [← order]
    simp [Callback.pending]
  | step =>
    cases callback with
    | idle => cases step
    | test pkt =>
      simp only [OobInbox.next, advance] at step
      split_ifs at step with full
      · cases step
        exact ⟨order, Nat.le_antisymm room full⟩
      · cases step
        exact ⟨order, Nat.not_le.mp full⟩
    | discard pkt read =>
      cases oobinch with
      | nil => cases step
      | cons first rest =>
        cases step
        simp only [Callback.Room, List.length_cons] at room
        refine ⟨by simpa [Callback.pending] using order, ?_⟩
        change rest.length < cap
        omega
    | send pkt =>
      simp only [OobInbox.next, advance] at step
      split_ifs at step with fits
      cases step
      refine ⟨by simpa [Callback.pending] using order, ?_⟩
      change (oobinch ++ [pkt]).length ≤ cap
      rw [List.length_append]
      exact fits
  | readFrom =>
    cases oobinch with
    | nil => cases step
    | cons first rest =>
      cases step
      refine ⟨by cases callback <;> simpa [Callback.pending, Callback.received] using order, ?_⟩
      cases callback <;>
        simp only [Callback.Room, Callback.received, List.length_cons] at room ⊢ <;> omega

/-- In every state that a run leads to: what was taken from the channel, is in it and is still to
be sent are all packets in the order of their arrival. -/
theorem inbox_exact_iff (es : List (Event α)) (s : State α) (run : exec next init es = some s) :
    s.taken.map Prod.fst ++ s.oobinch ++ s.callback.pending = s.arrived ∧
    s.oobinch.length ≤ cap ∧
    (∀ pkt, s.callback = .test pkt ∨ s.callback = .send pkt → (advance s).isSome) ∧
    ∀ pkt read, s.callback = .discard pkt read →
      ((advance s).isSome ↔ read < cap) ∧ (cap ≤ s.oobinch.length ↔ read = 0) := by
  obtain ⟨order, room⟩ : Inv s := exec_invariant (fun _ e _ => Inv.next e) Inv.init run
  obtain ⟨callback, oobinch, arrived, taken⟩ := s
  refine ⟨order, ?_, ?_, ?_⟩
  · cases callback <;> simp only [Callback.Room] at room <;> dsimp only <;> omega
  · rintro pkt (rfl | rfl)
    · simp only [advance]
      split_ifs <;> rfl
    · simp only [Callback.Room] at room
      simp only [advance, if_pos room, Option.isSome_some]
  · rintro pkt read rfl
    simp only [Callback.Room] at room
    cases oobinch with
    | nil => simp_all [advance, cap]
    | cons first rest =>
      simp only [List.length_cons, advance, Option.isSome_some, true_iff] at room ⊢
      omega

def eightPackets : List (Event Nat) :=
  (List.range 8).flatMap fun pkt => [.call pkt, .step, .step]

theorem inbox_full_discards : ∃ s, exec next init (eightPackets ++ [.call 8, .step]) = some s ∧
    (advance s).isSome :=
  ⟨_, rfl, ((inbox_exact_iff (eightPackets ++ [.call 8, .step]) _ rfl).2.2.2 8 0 rfl).1.mpr
    (by decide)⟩

/-- The readers empty the channel after the test: the callback waits, and nothing else can happen.
-/
theorem inbox_stuck :
    (∃ s, exec next init (eightPackets ++ [.call 8, .step] ++ List.replicate 8 .readFrom) =
      some s ∧ s.callback = .discard 8 8 ∧ ∀ e, next s e = none) ∧
    ∃ s t, exec next init (eightPackets ++ [.call 8, .step, .readFrom]) = some s ∧
      s.oobinch.length = 7 ∧ next s .step = some t ∧ t.taken = [(0, true), (1, false)] :=
  ⟨⟨_, rfl, rfl, fun e => by cases e <;> rfl⟩, _, _, rfl, rfl, rfl, rfl⟩

end OobInbox
