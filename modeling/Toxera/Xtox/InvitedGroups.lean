import Toxera.Lib.BiMap
import Toxera.Lib.Exec

/-!
# The groups joined by invitation

The hooks of `xtox/xtox.go` for joining and deleting a conference, and `IsInvitedGroup`.
-/

namespace Xtox

open Exec

abbrev Cookie := List Char

/-- The type of the keys and values of `groupIdentifiers`: a number or an identifier. -/
abbrev GroupKey := Nat ⊕ List Char

def conferenceCookieToIdentifier (cookie : Cookie) : List Char :=
  if 6 ≤ cookie.length then cookie.drop 6 else []

def conferenceIdIsEmpty (groupId : List Char) : Bool := groupId.all (· == '0')

/-- The maps of `_XTox`, the conferences of toxcore that were joined by invitation and the
others, and the timers that are pending; for each number whether a timer has fired since it was
joined, and whether its identifier has been joined under another number. -/
structure Groups where
  invitedGroups : BiMap Nat Cookie
  groupIdentifiers : BiMap GroupKey GroupKey
  joined : Nat → Option Cookie
  created : Nat → Bool
  timers : List Nat
  cleaned : Nat → Bool
  taken : Nat → Bool

def Groups.init : Groups :=
  ⟨.empty, .empty, fun _ => none, fun _ => false, [], fun _ => false, fun _ => false⟩

inductive GroupEvent where
  | create (groupNumber : Nat)
  | join (groupNumber : Nat) (cookie : Cookie)
  | delete (groupNumber : Nat)
  | timer (groupNumber : Nat)

def hookConferenceJoin (s : Groups) (groupNumber : Nat) (cookie : Cookie) : Groups :=
  let groupId := conferenceCookieToIdentifier cookie
  { s with
    invitedGroups := s.invitedGroups.put groupNumber cookie
    groupIdentifiers :=
      if conferenceIdIsEmpty groupId then s.groupIdentifiers
      else (s.groupIdentifiers.put (.inl groupNumber) (.inr groupId)).put
        (.inr groupId) (.inl groupNumber) }

def cleanUp {α β : Type} [DecidableEq α] [DecidableEq β] (m : BiMap α β) (k : α) : BiMap α β :=
  match m.forward k with
  | none => m
  | some value => (m.remove k).removeValue value

def Groups.Free (s : Groups) (groupNumber : Nat) : Prop :=
  s.joined groupNumber = none ∧ s.created groupNumber = false

/-- Toxcore joins a conference under a free number, and the cookies of different conferences
differ. -/
def Joinable (s : Groups) (groupNumber : Nat) (cookie : Cookie) : Prop :=
  s.Free groupNumber ∧ ∀ g c, s.joined g = some c → c ≠ cookie

/-- The groups whose identifier is that of the cookie, or has been joined again before. -/
def Groups.takenBy (s : Groups) (cookie : Cookie) (g : Nat) : Bool :=
  s.taken g || (!conferenceIdIsEmpty (conferenceCookieToIdentifier cookie) &&
    (s.joined g).any fun c => conferenceCookieToIdentifier c = conferenceCookieToIdentifier cookie)

def joinGroup (s : Groups) (g : Nat) (cookie : Cookie) : Groups :=
  { hookConferenceJoin s g cookie with
    joined := Function.update s.joined g (some cookie)
    cleaned := Function.update s.cleaned g false
    taken := Function.update (s.takenBy cookie) g false }

open Classical in
noncomputable def groupStep (s : Groups) : GroupEvent → Option Groups
  | .create g =>
    if s.Free g then some { s with created := Function.update s.created g true } else none
  | .join g cookie => if Joinable s g cookie then some (joinGroup s g cookie) else none
  | .delete g =>
    if (s.joined g).isSome ∨ s.created g = true then
      some { s with
        joined := Function.update s.joined g none
        created := Function.update s.created g false
        timers := g :: s.timers }
    else none
  | .timer g =>
    if g ∈ s.timers then
      some { s with
        invitedGroups := cleanUp s.invitedGroups g
        groupIdentifiers := cleanUp s.groupIdentifiers (.inl g)
        timers := s.timers.erase g
        cleaned := Function.update s.cleaned g true }
    else none

def isInvitedGroup (s : Groups) (groupNumber : Nat) : Bool :=
  (s.invitedGroups.forward groupNumber).isSome

theorem forward_cleanUp {α β : Type} [DecidableEq α] [DecidableEq β] (m : BiMap α β) (k j : α) :
    (cleanUp m k).forward j = if j = k then none else m.forward j := by
  unfold cleanUp
  split
  · grind
  · rename_i value at_
    rw [BiMap.removeValue_of_inverse (BiMap.inverse_remove at_), BiMap.forward_remove]

/-- The entries of a group, from its joining until a timer of its number fires or its identifier
is joined again. -/
structure Entries (s : Groups) : Prop where
  invited : ∀ g c, s.joined g = some c →
    s.invitedGroups.forward g = bif s.cleaned g then none else some c
  named : ∀ g c, s.joined g = some c → s.cleaned g = false → s.taken g = false →
    conferenceIdIsEmpty (conferenceCookieToIdentifier c) = false →
    s.groupIdentifiers.forward (.inl g) = some (.inr (conferenceCookieToIdentifier c))
  gone : ∀ g, (s.joined g).isSome → s.cleaned g = true ∨ s.taken g = true →
    s.groupIdentifiers.forward (.inl g) = none
  typed : ∀ g v, s.groupIdentifiers.forward (.inl g) = some v →
    ∃ id, v = .inr id ∧ conferenceIdIsEmpty id = false

theorem Entries.init : Entries .init :=
  ⟨fun _ _ h => (nomatch h), fun _ _ h => (nomatch h), fun _ h => (nomatch h),
    fun _ _ h => (nomatch h)⟩

/-- What a join does to the identifier of a number: it sets its own and takes it from others. -/
theorem Entries.identifier_join {s : Groups} (h : Entries s) (g : Nat) (cookie : Cookie) (j : Nat) :
    (joinGroup s g cookie).groupIdentifiers.forward (.inl j) =
      if conferenceIdIsEmpty (conferenceCookieToIdentifier cookie) then
        s.groupIdentifiers.forward (.inl j)
      else if j = g then some (.inr (conferenceCookieToIdentifier cookie))
      else if s.groupIdentifiers.forward (.inl j) =
        some (.inr (conferenceCookieToIdentifier cookie)) then none
      else s.groupIdentifiers.forward (.inl j) := by
  have number : s.groupIdentifiers.forward (.inl j) ≠ some (.inl g) := by
    intro at_
    obtain ⟨id, absurd, -⟩ := h.typed j _ at_
    cases absurd
  simp only [joinGroup, hookConferenceJoin]
  split_ifs with empty same other
  · rfl
  · simp [BiMap.forward_put, same]
  · simp [BiMap.forward_put, same, other]
  · simp [BiMap.forward_put, same, other, number]

theorem Entries.join {s : Groups} (h : Entries s) {g : Nat} {cookie : Cookie}
    (free : Joinable s g cookie) : Entries (joinGroup s g cookie) := by
  refine ⟨fun j c there => ?_, fun j c there fresh own full => ?_, fun j there old => ?_,
    fun j v at_ => ?_⟩
  · dsimp only [joinGroup, hookConferenceJoin] at there ⊢
    by_cases same : j = g
    · subst same
      rw [Function.update_self, Option.some.injEq] at there
      subst there
      simp
    · rw [Function.update_of_ne same] at there ⊢
      have before := h.invited j c there
      rw [← before]
      refine BiMap.forward_put_of_ne same fun equal => ?_
      rw [before] at equal
      rcases clean : s.cleaned j with - | - <;> rw [clean] at equal
      · exact free.2 j c there (Option.some.inj equal)
      · cases equal
  · rw [h.identifier_join]
    dsimp only [joinGroup] at there fresh own
    by_cases same : j = g
    · subst same
      rw [Function.update_self, Option.some.injEq] at there
      subst there
      simp [full]
    · rw [Function.update_of_ne same] at there fresh own
      have before := h.named j c there fresh (by simp_all [Groups.takenBy]) full
      have other : conferenceIdIsEmpty (conferenceCookieToIdentifier cookie) = false →
          conferenceCookieToIdentifier c ≠ conferenceCookieToIdentifier cookie := by
        intro full' equal
        simp [Groups.takenBy, there, full', equal] at own
      split_ifs with empty hit
      · exact before
      · rw [before, Option.some.injEq, Sum.inr.injEq] at hit
        exact absurd hit (other (by simpa using empty))
      · exact before
  · rw [h.identifier_join]
    dsimp only [joinGroup] at there old
    by_cases same : j = g
    · subst same
      simp at old
    · simp only [Function.update_of_ne same] at there old
      rw [if_neg same]
      obtain ⟨c, joined⟩ := Option.isSome_iff_exists.mp there
      by_cases before : s.cleaned j = true ∨ s.taken j = true
      · rw [h.gone j there before]
        simp
      · -- the identifier is that of the cookie and still in its place
        simp only [not_or, Bool.not_eq_true] at before
        simp only [Groups.takenBy, before, joined, Bool.false_or, Option.any_some, false_or,
          Bool.and_eq_true, Bool.not_eq_true', decide_eq_true_eq, Bool.false_eq_true] at old
        rw [h.named j c joined before.1 before.2 (by rw [old.2]; exact old.1), old.2]
        simp [old.1]
  · rw [h.identifier_join] at at_
    split_ifs at at_ with empty same
    · exact h.typed j v at_
    · exact ⟨_, (Option.some.inj at_).symm, by simpa using empty⟩
    · exact h.typed j v at_

theorem Entries.step {s t : Groups} (e : GroupEvent) (h : Entries s)
    (step : groupStep s e = some t) : Entries t := by
  cases e with
  | create g =>
    rw [groupStep] at step
    split_ifs at step
    cases step
    exact ⟨h.invited, h.named, h.gone, h.typed⟩
  | join g cookie =>
    rw [groupStep] at step
    split_ifs at step with free
    cases step
    exact h.join free
  | delete g =>
    rw [groupStep] at step
    split_ifs at step
    cases step
    refine ⟨fun j c there => h.invited j c ?_, fun j c there => h.named j c ?_,
      fun j there => h.gone j ?_, h.typed⟩ <;> grind [Function.update_apply]
  | timer g =>
    rw [groupStep] at step
    split_ifs at step
    cases step
    refine ⟨fun j c there => ?_, fun j c there fresh own full => ?_, fun j there old => ?_,
      fun j v at_ => ?_⟩
    · dsimp only at there ⊢
      rw [forward_cleanUp, Function.update_apply]
      split_ifs with same
      · rfl
      · exact h.invited j c there
    · dsimp only at there fresh own
      have ne : j ≠ g := fun same => by simp [same] at fresh
      rw [Function.update_of_ne ne] at fresh
      simp only [forward_cleanUp, Sum.inl.injEq, if_neg ne]
      exact h.named j c there fresh own full
    · dsimp only at there old
      rw [forward_cleanUp]
      split_ifs with same
      · rfl
      · rw [Function.update_of_ne (by simpa using same)] at old
        exact h.gone j there old
    · rw [forward_cleanUp] at at_
      split_ifs at at_
      exact h.typed j v at_

theorem Entries.run {es : List GroupEvent} {s : Groups} (run : exec groupStep .init es = some s) :
    Entries s :=
  exec_invariant (fun _ e _ => Entries.step e) Entries.init run

theorem Entries.isInvitedGroup_iff {s : Groups} (h : Entries s) {g : Nat} {cookie : Cookie}
    (there : s.joined g = some cookie) : isInvitedGroup s g = true ↔ s.cleaned g = false := by
  rw [isInvitedGroup, h.invited g cookie there]
  cases s.cleaned g <;> simp

def firstCookie : Cookie := "000100a1".toList

def secondCookie : Cookie := "000100b2".toList

theorem exec_join {s t : Groups} {g : Nat} {cookie : Cookie} {es : List GroupEvent}
    (free : Joinable s g cookie) :
    exec groupStep s (.join g cookie :: es) = some t ↔
      exec groupStep (joinGroup s g cookie) es = some t := by
  rw [exec_cons_iff]
  simp [groupStep, free]

theorem exec_delete {s t : Groups} {g : Nat} {es : List GroupEvent} (there : (s.joined g).isSome) :
    exec groupStep s (.delete g :: es) = some t ↔
      exec groupStep { s with
        joined := Function.update s.joined g none
        created := Function.update s.created g false
        timers := g :: s.timers } es = some t := by
  rw [exec_cons_iff]
  simp [groupStep, there]

theorem exec_timer {s t : Groups} {g : Nat} {es : List GroupEvent} (pending : g ∈ s.timers) :
    exec groupStep s (.timer g :: es) = some t ↔
      exec groupStep { s with
        invitedGroups := cleanUp s.invitedGroups g
        groupIdentifiers := cleanUp s.groupIdentifiers (.inl g)
        timers := s.timers.erase g
        cleaned := Function.update s.cleaned g true } es = some t := by
  rw [exec_cons_iff]
  simp [groupStep, pending]

theorem joinable_init (g : Nat) (cookie : Cookie) : Joinable .init g cookie :=
  ⟨⟨rfl, rfl⟩, fun _ _ there => nomatch there⟩

theorem joined_first {g : Nat} {c : Cookie}
    (there : (joinGroup .init 0 firstCookie).joined g = some c) : c = firstCookie := by
  dsimp only [joinGroup] at there
  rw [Function.update_apply] at there
  split_ifs at there
  · exact (Option.some.inj there).symm
  · cases there

theorem joined_deleted (g : Nat) (c : Cookie)
    (there : Function.update (joinGroup .init 0 firstCookie).joined 0 none g = some c) :
    c ≠ secondCookie := by
  rw [Function.update_apply] at there
  split_ifs at there
  rw [joined_first there]
  decide

def reuse : List GroupEvent :=
  [.join 0 firstCookie, .delete 0, .timer 0, .join 0 secondCookie]

/-- The number is used again after its timer. -/
theorem exec_reuse : ∃ s, exec groupStep .init reuse = some s ∧ s.joined 0 = some secondCookie ∧
    s.cleaned 0 = false ∧ s.taken 0 = false ∧ s.timers = [] := by
  refine ⟨_, (exec_join (joinable_init 0 firstCookie)).mpr <| (exec_delete rfl).mpr <|
    (exec_timer List.mem_cons_self).mpr <| (exec_join ⟨⟨rfl, rfl⟩, joined_deleted⟩).mpr rfl,
    rfl, rfl, rfl, rfl⟩

/-- An entry belongs to a group that exists, or a timer is going to remove it. -/
def Owned (s : Groups) : Prop :=
  ∀ g c, s.invitedGroups.forward g = some c → s.joined g = some c ∨ g ∈ s.timers

theorem Owned.step {s t : Groups} (e : GroupEvent) (h : Owned s) (step : groupStep s e = some t) :
    Owned t := by
  intro j c entry
  cases e with
  | create g =>
    rw [groupStep] at step
    split_ifs at step
    cases step
    exact h j c entry
  | join g cookie =>
    rw [groupStep] at step
    split_ifs at step
    cases step
    dsimp only [joinGroup, hookConferenceJoin] at entry ⊢
    by_cases same : j = g
    · subst same
      rw [BiMap.forward_put_self] at entry
      exact .inl ((Function.update_self ..).trans entry)
    · rw [Function.update_of_ne same]
      exact h j c (BiMap.forward_put_eq same entry)
  | delete g =>
    rw [groupStep] at step
    split_ifs at step
    cases step
    dsimp only at entry ⊢
    by_cases same : j = g
    · exact .inr (same ▸ List.mem_cons_self)
    · rw [Function.update_of_ne same]
      exact (h j c entry).imp_right (List.mem_cons_of_mem _)
  | timer g =>
    rw [groupStep] at step
    split_ifs at step
    cases step
    dsimp only at entry ⊢
    rw [forward_cleanUp] at entry
    split_ifs at entry with same
    exact (h j c entry).imp_right (List.mem_erase_of_ne same).mpr

/-- Whatever numbers are used again, no entry of `invitedGroups` outlives its group and the
timers: once they have all fired, only groups that exist count as invited. -/
theorem invited_entries_owned (es : List GroupEvent) (s : Groups)
    (run : exec groupStep .init es = some s) :
    (∀ g c, s.invitedGroups.forward g = some c → s.joined g = some c ∨ g ∈ s.timers) ∧
    (s.timers = [] → ∀ g, isInvitedGroup s g = true → (s.joined g).isSome) := by
  have start : Owned .init := fun _ _ entry => nomatch entry
  have owned : Owned s := exec_invariant (fun _ e _ => Owned.step e) start run
  refine ⟨owned, fun quiet g invited => ?_⟩
  obtain ⟨c, entry⟩ := Option.isSome_iff_exists.mp invited
  rcases owned g c entry with there | pending
  · exact Option.isSome_of_eq_some there
  · rw [quiet] at pending
    cases pending

theorem invited_entries_owned_reused : ∃ s, exec groupStep .init reuse = some s ∧
    isInvitedGroup s 0 = true ∧ (s.joined 0).isSome := by
  obtain ⟨s, run, there, fresh, -, quiet⟩ := exec_reuse
  have invited := ((Entries.run run).isInvitedGroup_iff there).mpr fresh
  exact ⟨s, run, invited, (invited_entries_owned _ s run).2 quiet 0 invited⟩

end Xtox
