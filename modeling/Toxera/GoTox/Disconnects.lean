import Toxera.GoTox.Lifecycle

/-!
# How often the client reports a disconnect

`handleDisconnect` of `go-tox-tcpclient/tcpclient.go` ends by calling `OnDisconnected`,
with nothing that remembers an earlier call.
-/

namespace GoTox.Lifecycle

open CryptoCore Exec

def WriterAct.fails : WriterAct → Bool
  | .write ok => !ok
  | _ => false

def WriterAct.disconnects : WriterAct → Bool
  | .disconnect => true
  | _ => false

def LoopAct.fails : LoopAct → Bool
  | .fail => true
  | _ => false

def LoopAct.disconnects : LoopAct → Bool
  | .disconnect => true
  | _ => false

def Act.fails : Act → Bool
  | .writer _ a => a.fails
  | .reader _ a | .pinger _ a => a.fails
  | _ => false

def Act.disconnects : Act → Bool
  | .writer _ a => a.disconnects
  | .reader _ a | .pinger _ a => a.disconnects
  | _ => false

def Act.dials : Act → Bool
  | .connect _ (.dial _) => true
  | _ => false

def invocations (acts : List Act) : Nat := acts.countP Act.disconnects

def failures (acts : List Act) : Nat := acts.countP Act.fails

def Client.failedLoops (s : Client) : Nat :=
  s.writers.count .failed + s.readers.count .failed + s.pingers.count .failed

variable {L : Type} {a : LoopAct} {acts : List Act} {i : Nat} {l l' : Loop} {s s' t : Client}

def Alone (s : Client) (a : Act) : Prop :=
  a.fails = true → s.conn ≠ none ∧ s.failedLoops = 0

structure SameLoops (s s' : Client) : Prop where
  calls : s'.calls = s.calls
  writers : s'.writers = s.writers
  readers : s'.readers = s.readers
  pingers : s'.pingers = s.pingers

theorem handleDisconnect_loops (s : Client) : SameLoops s (handleDisconnect s) := by
  unfold handleDisconnect Client.closeCurrent
  cases s.conn
  all_goals exact ⟨rfl, rfl, rfl, rfl⟩

structure LoopStep {L : Type} [DecidableEq L] (bad : L) (s s' : Client) (l l' : L)
    (fails calls : Bool) : Prop where
  loops : SameLoops s s'
  failed : (if l' = bad then 1 else 0) + calls.toNat = (if l = bad then 1 else 0) + fails.toNat
  conn : s'.conn = none ↔ s.conn = none ∨ calls = true

theorem LoopStep.disconnect [DecidableEq L] {bad l' : L} (s : Client) (other : l' ≠ bad) :
    LoopStep bad s (handleDisconnect s) bad l' false true where
  loops := handleDisconnect_loops s
  failed := by rw [if_neg other, if_pos rfl]; rfl
  conn := iff_of_true rfl (Or.inr rfl)

theorem LoopStep.fail [DecidableEq L] {bad l : L} (s : Client) (other : l ≠ bad) :
    LoopStep bad s s l bad true false where
  loops := ⟨rfl, rfl, rfl, rfl⟩
  failed := by rw [if_neg other, if_pos rfl]; rfl
  conn := by simp

theorem LoopStep.pass [DecidableEq L] {bad l l' : L} (loops : SameLoops s s')
    (conn : s'.conn = s.conn) (before : l ≠ bad) (after : l' ≠ bad) :
    LoopStep bad s s' l l' false false where
  loops := loops
  failed := by rw [if_neg before, if_neg after]
  conn := by simp [conn]

theorem writerStep_loop {l l' : Writer} {a : WriterAct} (made : writerStep s l a = some (s', l')) :
    LoopStep .failed s s' l l' a.fails a.disconnects := by
  unfold writerStep at made
  split at made
  · split at made
    · cases made
    · cases made
      exact .pass ⟨rfl, rfl, rfl, rfl⟩ rfl (by rintro ⟨⟩) (by rintro ⟨⟩)
  · split_ifs at made
    cases made
    exact .pass ⟨rfl, rfl, rfl, rfl⟩ rfl (by rintro ⟨⟩) (by rintro ⟨⟩)
  · split_ifs at made
    cases made
    exact .pass ⟨rfl, rfl, rfl, rfl⟩ rfl (by rintro ⟨⟩) (by rintro ⟨⟩)
  · split_ifs at made
    split at made
    all_goals
      cases made
      exact .pass ⟨rfl, rfl, rfl, rfl⟩ rfl (by rintro ⟨⟩) (by rintro ⟨⟩)
  · split_ifs at made with ok
    · cases made
      rw [ok]
      exact .pass ⟨rfl, rfl, rfl, rfl⟩ rfl (by rintro ⟨⟩) (by rintro ⟨⟩)
    · cases made
      rw [Bool.eq_false_of_not_eq_true ok]
      exact .fail s (by rintro ⟨⟩)
  · cases made
    exact .disconnect s (by rintro ⟨⟩)
  · cases made

theorem readerStep_loop (made : readerStep s l a = some (s', l')) :
    LoopStep .failed s s' l l' a.fails a.disconnects := by
  unfold readerStep at made
  split at made
  · cases made
    exact .fail s (by rintro ⟨⟩)
  · cases made
    exact .disconnect s (by rintro ⟨⟩)
  · cases made

theorem pingerStep_loop (made : pingerStep s l a = some (s', l')) :
    LoopStep .failed s s' l l' a.fails a.disconnects := by
  unfold pingerStep at made
  split at made
  · cases made
    exact .fail s (by rintro ⟨⟩)
  · split_ifs at made
    cases made
    exact .pass ⟨rfl, rfl, rfl, rfl⟩ rfl (by rintro ⟨⟩) (by rintro ⟨⟩)
  · cases made
    exact .disconnect s (by rintro ⟨⟩)
  · cases made

theorem count_set_add [DecidableEq L] {ls : List L} {l : L} (at_ : ls[i]? = some l) (l' bad : L) :
    (ls.set i l').count bad + (if l = bad then 1 else 0) =
      ls.count bad + if l' = bad then 1 else 0 := by
  obtain ⟨inside, same⟩ := List.getElem?_eq_some_iff.mp at_
  have present : l = bad → 0 < ls.count bad := by grind
  rw [List.count_set inside, same]
  simp only [beq_iff_eq]
  split_ifs with old new new
  all_goals
    first
    | have := present old
      omega
    | omega

theorem LoopStep.count [DecidableEq L] {bad l l' : L} {fails calls : Bool}
    (h : LoopStep bad s s' l l' fails calls) {ls : List L} (at_ : ls[i]? = some l) :
    (ls.set i l').count bad + calls.toNat = ls.count bad + fails.toNat := by
  have counted := count_set_add at_ l' bad
  have failed := h.failed
  omega

def Settled (s : Client) : Prop := ∀ k, s.calls k = .idle ∨ s.calls k = .started

theorem SameLoops.settled (h : SameLoops s s') (settled : Settled s) : Settled s' := by
  intro k
  rw [h.calls]
  exact settled k

theorem connectStep_settled {k : Nat} {stage stage' : Stage} {a : ConnectAct}
    (settled : stage = .idle ∨ stage = .started) (dials : (Act.connect k a).dials = false)
    (made : connectStep s stage a = some (s', stage')) :
    stage' = .idle ∧ ∃ queue, s' = { s with writeCh := queue } := by
  rcases settled with rfl | rfl
  · cases a
    case dial => cases dials
    all_goals cases made
  · cases a
    case ping plain queued =>
      obtain ⟨s'', sent, same⟩ := Option.map_eq_some_iff.mp made
      cases same
      rcases sendPlaintext_cases sent with rfl | ⟨-, rfl⟩
      · exact ⟨rfl, _, rfl⟩
      · exact ⟨rfl, _, rfl⟩
    all_goals cases made

structure Effect (s t : Client) (a : Act) : Prop where
  settled : Settled t
  failed : t.failedLoops + a.disconnects.toNat = s.failedLoops + a.fails.toNat
  conn : t.conn = none ↔ s.conn = none ∨ a.disconnects = true

theorem step_effect {a : Act} (settled : Settled s) (dials : a.dials = false)
    (taken : step s a = some t) : Effect s t a := by
  cases a with
  | connect k a =>
    obtain ⟨⟨s', stage⟩, made, rfl⟩ := Option.map_eq_some_iff.mp taken
    obtain ⟨rfl, queue, rfl⟩ := connectStep_settled (settled k) dials made
    refine ⟨?_, rfl, by simp [Act.disconnects]⟩
    intro j
    rcases eq_or_ne j k with rfl | other
    · exact Or.inl (Function.update_self ..)
    · simpa [Function.update_of_ne other] using settled j
  | close =>
    cases taken
    unfold close Client.closeCurrent
    cases h : s.conn
    all_goals exact ⟨settled, rfl, by simp [Act.disconnects, h, Client.closeConn]⟩
  | send plain queued =>
    rcases sendPlaintext_cases taken with rfl | ⟨-, rfl⟩
    all_goals exact ⟨settled, rfl, by simp [Act.disconnects]⟩
  | writer w a =>
    obtain ⟨l, at_, taken⟩ := Option.bind_eq_some_iff.mp taken
    obtain ⟨⟨s', l'⟩, made, rfl⟩ := Option.map_eq_some_iff.mp taken
    have loop := writerStep_loop made
    refine ⟨loop.loops.settled settled, ?_, loop.conn⟩
    have counted := loop.count at_
    simp only [Client.failedLoops, loop.loops.writers, loop.loops.readers, loop.loops.pingers,
      Act.disconnects, Act.fails]
    omega
  | reader r a =>
    obtain ⟨l, at_, taken⟩ := Option.bind_eq_some_iff.mp taken
    obtain ⟨⟨s', l'⟩, made, rfl⟩ := Option.map_eq_some_iff.mp taken
    have loop := readerStep_loop made
    refine ⟨loop.loops.settled settled, ?_, loop.conn⟩
    have counted := loop.count at_
    simp only [Client.failedLoops, loop.loops.writers, loop.loops.readers, loop.loops.pingers,
      Act.disconnects, Act.fails]
    omega
  | pinger p a =>
    obtain ⟨l, at_, taken⟩ := Option.bind_eq_some_iff.mp taken
    obtain ⟨⟨s', l'⟩, made, rfl⟩ := Option.map_eq_some_iff.mp taken
    have loop := pingerStep_loop made
    refine ⟨loop.loops.settled settled, ?_, loop.conn⟩
    have counted := loop.count at_
    simp only [Client.failedLoops, loop.loops.writers, loop.loops.readers, loop.loops.pingers,
      Act.disconnects, Act.fails]
    omega

structure Counted (s : Client) (acts : List Act) (t : Client) : Prop where
  settled : Settled t
  failed : t.failedLoops + invocations acts = s.failedLoops + failures acts
  conn : t.conn = none ↔ s.conn = none ∨ 0 < invocations acts

theorem invocations_snoc (acts : List Act) (a : Act) :
    invocations (acts ++ [a]) = invocations acts + a.disconnects.toNat := by
  cases h : a.disconnects <;> simp [invocations, h]

theorem failures_snoc (acts : List Act) (a : Act) :
    failures (acts ++ [a]) = failures acts + a.fails.toNat := by
  cases h : a.fails <;> simp [failures, h]

theorem exec_counted (settled : Settled s) (once : ∀ a ∈ acts, a.dials = false)
    (run : exec step s acts = some t) : Counted s acts t := by
  induction acts using List.reverseRecOn generalizing t with
  | nil =>
    cases run
    exact ⟨settled, rfl, by simp [invocations]⟩
  | append_singleton acts a ih =>
    obtain ⟨m, before, taken⟩ := exec_snoc_iff.mp run
    have counted := ih (fun a ha => once a (List.mem_append_left _ ha)) before
    have effect := step_effect counted.settled (once a (by simp)) taken
    have calls := invocations_snoc acts a
    have fails := failures_snoc acts a
    refine ⟨effect.settled, ?_, ?_⟩
    · have := counted.failed
      have := effect.failed
      omega
    · rw [effect.conn, counted.conn, calls, or_assoc]
      cases a.disconnects <;> simp

theorem disconnect_next (some_ : 0 < s.failedLoops) :
    ∃ a t, a.disconnects = true ∧ step s a = some t := by
  have spread : 0 < s.writers.count .failed ∨ 0 < s.readers.count .failed ∨
      0 < s.pingers.count .failed := by
    unfold Client.failedLoops at some_
    omega
  rcases spread with writer | reader | pinger
  · obtain ⟨w, at_⟩ := List.mem_iff_getElem?.mp (List.count_pos_iff.mp writer)
    exact ⟨.writer w .disconnect, _, rfl, by rw [step, at_]; rfl⟩
  · obtain ⟨r, at_⟩ := List.mem_iff_getElem?.mp (List.count_pos_iff.mp reader)
    exact ⟨.reader r .disconnect, _, rfl, by rw [step, at_]; rfl⟩
  · obtain ⟨p, at_⟩ := List.mem_iff_getElem?.mp (List.count_pos_iff.mp pinger)
    exact ⟨.pinger p .disconnect, _, rfl, by rw [step, at_]; rfl⟩

theorem Act.calm_of_disconnects {a : Act} (calls : a.disconnects = true) :
    a.dials = false ∧ a.fails = false := by
  rcases a with ⟨k, a⟩ | _ | ⟨plain, queued⟩ | ⟨w, a⟩ | ⟨r, a⟩ | ⟨p, a⟩
  case writer | reader | pinger => cases a <;> first | exact ⟨rfl, rfl⟩ | cases calls
  all_goals cases calls

theorem disconnect_all (settled : Settled s) :
    ∃ more t, (∀ a ∈ more, a.disconnects = true) ∧ exec step s more = some t ∧
      t.failedLoops = 0 := by
  generalize size : s.failedLoops = n
  induction n generalizing s with
  | zero => exact ⟨[], s, by simp, rfl, size⟩
  | succ n ih =>
    obtain ⟨a, m, calls, taken⟩ := disconnect_next (s := s) (by omega)
    obtain ⟨dials, fails⟩ := a.calm_of_disconnects calls
    have effect := step_effect settled dials taken
    have failed := effect.failed
    rw [calls, fails, size, Bool.toNat_true, Bool.toNat_false] at failed
    obtain ⟨more, t, all, run, none_⟩ := ih effect.settled (by omega)
    refine ⟨a :: more, t, ?_, exec_cons_iff.mpr ⟨m, taken, run⟩, none_⟩
    intro b hb
    rcases List.mem_cons.mp hb with rfl | later
    · exact calls
    · exact all b later

theorem failures_eq_zero_iff (conn : s.conn ≠ none) (calm : s.failedLoops = 0)
    (counted : Counted s acts t) : failures acts = 0 ↔ t.conn ≠ none ∧ t.failedLoops = 0 := by
  have failed := counted.failed
  rw [ne_eq, counted.conn]
  constructor
  · intro none_
    refine ⟨?_, by omega⟩
    rintro (gone | some_)
    · exact conn gone
    · omega
  · grind

theorem alone_iff (settled : Settled s) (conn : s.conn ≠ none) (calm : s.failedLoops = 0)
    (once : ∀ a ∈ acts, a.dials = false) (run : exec step s acts = some t) :
    Along step Alone s acts ↔ failures acts ≤ 1 := by
  induction acts using List.reverseRecOn generalizing t with
  | nil => exact iff_of_true (along_nil Alone s) (Nat.zero_le 1)
  | append_singleton acts a ih =>
    obtain ⟨m, before, -⟩ := exec_snoc_iff.mp run
    have quiet : ∀ a ∈ acts, a.dials = false := fun a ha => once a (List.mem_append_left _ ha)
    rw [along_snoc_iff before, ih quiet before, Alone,
      ← failures_eq_zero_iff conn calm (exec_counted settled quiet before), failures_snoc]
    cases a.fails <;> simp
    omega

theorem connects_start (connected : exec step new (connects 0) = some s) :
    Settled s ∧ s.conn ≠ none ∧ s.failedLoops = 0 := by
  cases connected
  refine ⟨?_, by rintro ⟨⟩, by decide⟩
  intro k
  cases k with
  | zero => exact Or.inr (by decide)
  | succ k => exact Or.inl rfl

/-- After one `Connect`, and whatever the loops, `Close` and callers do, `OnDisconnected` is
called at most once, counting the loops that are about to, exactly if no loop fails after
another. -/
theorem disconnected_once_iff {s t : Client} {acts : List Act}
    (connected : exec step new (connects 0) = some s) (once : ∀ a ∈ acts, a.dials = false)
    (run : exec step s acts = some t) :
    (∀ more u, (∀ a ∈ more, a.disconnects = true) → exec step t more = some u →
      invocations (acts ++ more) ≤ 1) ↔ Along step Alone s acts := by
  obtain ⟨settled, conn, calm⟩ := connects_start connected
  rw [alone_iff settled conn calm once run]
  have total : ∀ more u, (∀ a ∈ more, a.disconnects = true) → exec step t more = some u →
      u.failedLoops + invocations (acts ++ more) = failures acts := by
    intro more u all later
    have quiet : ∀ a ∈ acts ++ more, a.dials = false := by
      intro a ha
      rcases List.mem_append.mp ha with old | new
      · exact once a old
      · exact (a.calm_of_disconnects (all a new)).1
    have counted := (exec_counted settled quiet (exec_append_iff.mpr ⟨t, run, later⟩)).failed
    have none_ : failures more = 0 :=
      List.countP_eq_zero.mpr fun a ha => by simp [(a.calm_of_disconnects (all a ha)).2]
    rw [calm, failures, List.countP_append] at counted
    unfold failures at none_ ⊢
    omega
  constructor
  · intro atMost
    obtain ⟨more, u, all, later, none_⟩ :=
      disconnect_all (exec_counted settled once run).settled
    have := total more u all later
    have := atMost more u all later
    omega
  · grind

def closes : List Act := [.connect 0 (.ping [4] true), .close, .writer 0 .stop, .pinger 0 .stop,
  .reader 0 .fail]

instance (s : Client) (a : Act) : Decidable (Alone s a) :=
  inferInstanceAs (Decidable (_ → _))

theorem closes_disconnected_once :
    ∃ s t, exec step new (connects 0) = some s ∧ exec step s closes = some t ∧
      ∀ more u, (∀ a ∈ more, a.disconnects = true) → exec step t more = some u →
        invocations (closes ++ more) ≤ 1 :=
  ⟨_, _, rfl, rfl, (disconnected_once_iff rfl (by decide) rfl).mpr (along_of_decide (by decide))⟩

def pingTimesOut : List Act :=
  [.connect 0 (.ping [4] true), .pinger 0 .fail, .pinger 0 .disconnect, .reader 0 .fail,
    .reader 0 .disconnect]

theorem disconnected_twice :
    ∃ s, exec step new (connects 0 ++ pingTimesOut) = some s ∧ s.closed 0 = true ∧
      (∀ a ∈ pingTimesOut, a.dials = false) ∧ invocations pingTimesOut = 2 :=
  ⟨_, rfl, by decide, by decide, by decide⟩

end GoTox.Lifecycle
