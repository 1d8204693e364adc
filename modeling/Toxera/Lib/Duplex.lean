import Toxera.Lib.Exec

/-!
# Two processes joined by byte streams

A process writes blocks and reads blocks of a known length, and stops with a result or an
error.
-/

namespace Duplex

open Exec

variable {j : Nat}

variable {β ε α γ : Type}

inductive Proc (β ε α : Type) where
  | done (result : α)
  | fail (error : ε)
  | write (block : List β) (next : Proc β ε α)
  | read (n : Nat) (next : List β → Proc β ε α)

namespace Proc

protected def bind : Proc β ε α → (α → Proc β ε γ) → Proc β ε γ
  | done result, f => f result
  | fail error, _ => fail error
  | write block next, f => write block (next.bind f)
  | read n next, f => read n fun block => (next block).bind f

instance : Monad (Proc β ε) where
  pure := done
  bind := Proc.bind

def mapError {ε' : Type} (f : ε → ε') : Proc β ε α → Proc β ε' α
  | done result => done result
  | fail error => fail (f error)
  | write block next => write block (next.mapError f)
  | read n next => read n fun block => (next block).mapError f

def put (block : List β) : Proc β ε Unit := write block (done ())

def get (n : Nat) : Proc β ε (List β) := read n done

section
variable {ε' : Type} (f : α → Proc β ε γ) (g : ε → ε') (block : List β) (n : Nat)

@[simp] theorem pure_bind (a : α) : ((pure a : Proc β ε α) >>= f) = f a := rfl

@[simp] theorem write_bind (next : Proc β ε α) :
    (write block next >>= f) = write block (next >>= f) := rfl

@[simp] theorem read_bind (next : List β → Proc β ε α) :
    (read n next >>= f) = read n fun block => next block >>= f := rfl

@[simp] theorem put_bind (h : Unit → Proc β ε γ) : (put block >>= h) = write block (h ()) := rfl

@[simp] theorem get_bind (h : List β → Proc β ε γ) : (get n >>= h) = read n h := rfl

@[simp] theorem mapError_pure (a : α) :
    (pure a : Proc β ε α).mapError g = (pure a : Proc β ε' α) := rfl

@[simp] theorem mapError_write (next : Proc β ε α) :
    (write block next).mapError g = write block (next.mapError g) := rfl

@[simp] theorem mapError_read (next : List β → Proc β ε α) :
    (read n next).mapError g = read n fun block => (next block).mapError g := rfl

@[simp] theorem mapError_put : (put block).mapError g = (write block (pure ()) : Proc β ε' Unit) :=
  rfl

end

theorem bind_done (p : Proc β ε α) : (p >>= done) = p := by
  show p.bind done = p
  induction p with
  | done | fail => rfl
  | write block next ih => exact congrArg (write block) ih
  | read n next ih => exact congrArg (read n) (funext ih)

theorem bind_assoc {δ : Type} (p : Proc β ε α) (f : α → Proc β ε γ) (g : γ → Proc β ε δ) :
    ((p >>= f) >>= g) = p >>= fun a => f a >>= g := by
  show (p.bind f).bind g = p.bind fun a => (f a).bind g
  induction p with
  | done | fail => rfl
  | write block next ih => exact congrArg (write block) ih
  | read n next ih => exact congrArg (read n) (funext ih)

/-- Up to `j` elements of the block at hand are passed on: the process, what is left
of its input, and what it wrote. -/
def move : Proc β ε α → List β → Nat → Option (Proc β ε α × List β × List β)
  | done _, _, _ => none
  | fail _, _, _ => none
  | write block next, input, j =>
    if block.length = 0 then some (next, input, [])
    else if 0 < j ∧ j ≤ block.length then
      some (write (block.drop j) next, input, block.take j)
    else none
  | read n next, input, j =>
    if n = 0 then some (next [], input, [])
    else if 0 < j ∧ j ≤ n ∧ j ≤ input.length then
      some (read (n - j) fun rest => next (input.take j ++ rest), input.drop j, [])
    else none

def advance : Proc β ε α → List β → Option (Proc β ε α × List β × List β)
  | done _, _ => none
  | fail _, _ => none
  | write block next, input => some (next, input, block)
  | read n next, input =>
    if n ≤ input.length then some (next (input.take n), input.drop n, []) else none

def cost : Proc β ε α → Nat
  | done _ => 0
  | fail _ => 0
  | write block _ => block.length + 1
  | read n _ => n + 1

theorem cost_pos {p : Proc β ε α} {input : List β} {r : Proc β ε α × List β × List β}
    (h : p.advance input = some r) : 0 < p.cost := by
  cases p with
  | done | fail => cases h
  | write | read => exact Nat.succ_pos _

theorem move_append {p p' : Proc β ε α} {input input' written : List β}
    (h : p.move input j = some (p', input', written)) (more : List β) :
    p.move (input ++ more) j = some (p', input' ++ more, written) := by
  cases p with
  | done | fail => cases h
  | write block next => grind [move]
  | read n next =>
    simp only [move] at h ⊢
    split_ifs at h with none_ fits
    · cases h
      rw [if_pos none_]
    · grind

theorem advance_append {p p' : Proc β ε α} {input input' written : List β}
    (h : p.advance input = some (p', input', written)) (more : List β) :
    p.advance (input ++ more) = some (p', input' ++ more, written) := by
  cases p with
  | done | fail => cases h
  | write block next =>
    cases h
    rfl
  | read n next => grind [advance]

theorem exists_move {p : Proc β ε α} {input : List β} (h : (p.advance input).isSome) :
    ∃ j, (p.move input j).isSome := by
  cases p with
  | done | fail => cases h
  | write block next =>
    refine ⟨block.length, ?_⟩
    simp only [move]
    split_ifs <;> first | rfl | omega
  | read n next =>
    simp only [advance] at h
    split_ifs at h with there
    · refine ⟨n, ?_⟩
      simp only [move]
      split_ifs <;> first | rfl | omega
    · cases h

theorem move_of_advance {p q p' : Proc β ε α} {input rest block input' written : List β}
    (whole : p.advance input = some (q, rest, block))
    (h : p.move input j = some (p', input', written)) :
    (p' = q ∧ input' = rest ∧ written = block) ∨
      ∃ left, block = written ++ left ∧ p'.advance input' = some (q, rest, left) ∧
        p'.cost < p.cost := by
  cases p with
  | done | fail => cases h
  | write all next =>
    cases whole
    simp only [move] at h
    split_ifs at h with none_ fits
    · grind
    · cases h
      refine .inr ⟨block.drop j, (List.take_append_drop j block).symm, rfl, ?_⟩
      simp only [cost, List.length_drop]
      omega
  | read n next =>
    simp only [advance] at whole
    split_ifs at whole with there
    cases whole
    simp only [move] at h
    split_ifs at h with none_ fits
    · grind
    · obtain ⟨pos, short, -⟩ := fits
      cases h
      refine .inr ⟨[], rfl, ?_, ?_⟩
      · have enough : n - j ≤ (input.drop j).length := by rw [List.length_drop]; omega
        have split : input.take j ++ (input.drop j).take (n - j) = input.take n := by
          rw [← List.take_add, Nat.add_sub_cancel' short]
        simp only [advance]
        rw [if_pos enough, split, List.drop_drop, Nat.add_sub_cancel' short]
      · simp only [cost]
        omega

end Proc

namespace Proc

def idle : Proc β ε α → Bool
  | done _ | fail _ => true
  | write _ _ => false
  | read n _ => 0 < n

def result : Proc β ε α → Option α
  | done a => some a
  | fail _ | write _ _ | read _ _ => none

theorem move_of_idle {p : Proc β ε α} (h : p.idle = true) (j : Nat) : p.move [] j = none := by
  cases p with
  | done | fail => rfl
  | write => cases h
  | read n next =>
    have pos : 0 < n := of_decide_eq_true h
    rw [move, if_neg (Nat.ne_of_gt pos), if_neg]
    rintro ⟨some_, -, none_⟩
    exact absurd some_ (Nat.not_lt.mpr none_)

end Proc

structure State (β ε α γ : Type) where
  left : Proc β ε α
  right : Proc β ε γ
  toLeft : List β
  toRight : List β

inductive Move where
  | left (j : Nat)
  | right (j : Nat)

def step (s : State β ε α γ) : Move → Option (State β ε α γ)
  | .left j =>
    (s.left.move s.toLeft j).map fun (p, input, written) =>
      { s with left := p, toLeft := input, toRight := s.toRight ++ written }
  | .right j =>
    (s.right.move s.toRight j).map fun (p, input, written) =>
      { s with right := p, toRight := input, toLeft := s.toLeft ++ written }

theorem step_of_idle {p : Proc β ε α} {q : Proc β ε γ} (left : p.idle = true)
    (right : q.idle = true) (e : Move) : step ⟨p, q, [], []⟩ e = none := by
  cases e with
  | left j => simp only [step, Proc.move_of_idle left, Option.map_none]
  | right j => simp only [step, Proc.move_of_idle right, Option.map_none]

def ended (a : α) (c : γ) : State β ε α γ := ⟨.done a, .done c, [], []⟩

/-- However the moves are ordered and the blocks are cut, the processes get to the
end: a run has at most so many moves, can be continued to the end, and is there when
nothing can move. -/
def Ends (s : State β ε α γ) (a : α) (c : γ) : Prop :=
  ∃ bound, ∀ moves t, exec step s moves = some t →
    moves.length ≤ bound ∧ (∃ more, exec step t more = some (ended a c)) ∧
      ((∀ e, step t e = none) → t = ended a c)

inductive Finishes : Nat → State β ε α γ → α → γ → Prop
  | done (a : α) (c : γ) : Finishes 0 (ended a c) a c
  | left {m : Nat} {p p' : Proc β ε α} {q : Proc β ε γ} {i i' o written : List β} {a : α} {c : γ}
      (h : p.advance i = some (p', i', written)) (rest : Finishes m ⟨p', q, i', o ++ written⟩ a c) :
      Finishes (m + p.cost) ⟨p, q, i, o⟩ a c
  | right {m : Nat} {p : Proc β ε α} {q q' : Proc β ε γ} {i o o' written : List β} {a : α} {c : γ}
      (h : q.advance o = some (q', o', written)) (rest : Finishes m ⟨p, q', i ++ written, o'⟩ a c) :
      Finishes (m + q.cost) ⟨p, q, i, o⟩ a c

namespace Finishes

variable {m : Nat} {s t : State β ε α γ} {a : α} {c : γ}

theorem swap (h : Finishes m s a c) :
    Finishes m ⟨s.right, s.left, s.toRight, s.toLeft⟩ c a := by
  induction h with
  | done a c => exact .done c a
  | left whole _ ih => exact .right whole ih
  | right whole _ ih => exact .left whole ih

theorem move_left (h : Finishes m s a c) {p : Proc β ε α} {input written : List β}
    (move : s.left.move s.toLeft j = some (p, input, written)) :
    ∃ m' < m, Finishes m' ⟨p, s.right, input, s.toRight ++ written⟩ a c := by
  induction h generalizing p input written with
  | done a c => cases move
  | @left m _ p' q _ i' o _ a c whole rest ih =>
    obtain ⟨rfl, rfl, rfl⟩ | ⟨left, rfl, later, less⟩ := Proc.move_of_advance whole move
    · exact ⟨m, Nat.lt_add_of_pos_right (Proc.cost_pos whole), rest⟩
    · rw [← List.append_assoc] at rest
      exact ⟨m + p.cost, Nat.add_lt_add_left less m, .left later rest⟩
  | @right m _ q _ _ _ _ sent a c whole rest ih =>
    obtain ⟨m', less, rest'⟩ := ih (Proc.move_append move sent)
    exact ⟨m' + q.cost, Nat.add_lt_add_right less _, .right (Proc.advance_append whole written) rest'⟩

theorem step_lt (h : Finishes m s a c) {e : Move} (next : step s e = some t) :
    ∃ m' < m, Finishes m' t a c := by
  cases e with
  | left j =>
    obtain ⟨⟨p, input, written⟩, move, rfl⟩ := Option.map_eq_some_iff.mp next
    exact h.move_left move
  | right j =>
    obtain ⟨⟨p, input, written⟩, move, rfl⟩ := Option.map_eq_some_iff.mp next
    obtain ⟨m', less, rest⟩ := h.swap.move_left move
    exact ⟨m', less, rest.swap⟩

theorem exists_step (h : Finishes m s a c) :
    s = ended a c ∨ ∃ e, (step s e).isSome := by
  cases h with
  | done => exact .inl rfl
  | left whole _ =>
    obtain ⟨j, moves⟩ := Proc.exists_move (Option.isSome_of_eq_some whole)
    exact .inr ⟨.left j, by simpa [step] using moves⟩
  | right whole _ =>
    obtain ⟨j, moves⟩ := Proc.exists_move (Option.isSome_of_eq_some whole)
    exact .inr ⟨.right j, by simpa [step] using moves⟩

theorem run (h : Finishes m s a c) {moves : List Move} (run : exec step s moves = some t) :
    ∃ m', m' + moves.length ≤ m ∧ Finishes m' t a c := by
  induction moves generalizing s m with
  | nil =>
    cases run
    exact ⟨m, Nat.le_refl m, h⟩
  | cons e moves ih =>
    obtain ⟨r, first, rest⟩ := exec_cons_iff.mp run
    obtain ⟨k, less, h⟩ := h.step_lt first
    obtain ⟨m', short, h⟩ := ih h rest
    exact ⟨m', by rw [List.length_cons]; omega, h⟩

theorem reaches_end (h : Finishes m s a c) : ∃ moves, exec step s moves = some (ended a c) := by
  induction m using Nat.strongRecOn generalizing s with
  | _ m ih =>
    obtain rfl | ⟨e, moves⟩ := h.exists_step
    · exact ⟨[], rfl⟩
    · obtain ⟨t, next⟩ := Option.isSome_iff_exists.mp moves
      obtain ⟨k, less, h⟩ := h.step_lt next
      obtain ⟨more, rest⟩ := ih k less h
      exact ⟨e :: more, exec_cons_iff.mpr ⟨t, next, rest⟩⟩

theorem ends (h : Finishes m s a c) : Ends s a c := by
  refine ⟨m, fun moves t run => ?_⟩
  obtain ⟨m', short, h⟩ := h.run run
  refine ⟨by omega, h.reaches_end, fun still => h.exists_step.resolve_right ?_⟩
  rintro ⟨e, moves⟩
  rw [still e] at moves
  cases moves

end Finishes

def Finishing (s : State β ε α γ) (a : α) (c : γ) : Prop := ∃ m, Finishes m s a c

namespace Finishing

variable {p : Proc β ε α} {q : Proc β ε γ} {i o block : List β} {n : Nat} {a : α} {c : γ}

theorem ends {s : State β ε α γ} : Finishing s a c → Ends s a c
  | ⟨_, h⟩ => h.ends

theorem done (a : α) (c : γ) : Finishing (⟨.done a, .done c, [], []⟩ : State β ε α γ) a c :=
  ⟨0, .done a c⟩

theorem swap : Finishing ⟨p, q, i, o⟩ a c → Finishing ⟨q, p, o, i⟩ c a
  | ⟨m, h⟩ => ⟨m, h.swap⟩

theorem write : Finishing ⟨p, q, i, o ++ block⟩ a c → Finishing ⟨.write block p, q, i, o⟩ a c
  | ⟨_, h⟩ => ⟨_, .left rfl h⟩

theorem read {next : List β → Proc β ε α} (len : block.length = n)
    (rest : Finishing ⟨next block, q, i, o⟩ a c) :
    Finishing ⟨.read n next, q, block ++ i, o⟩ a c := by
  obtain ⟨m, h⟩ := rest
  have there : n ≤ (block ++ i).length := by rw [List.length_append]; omega
  have whole : (Proc.read n next).advance (block ++ i) = some (next block, i, []) := by
    rw [Proc.advance, if_pos there, List.take_left' len, List.drop_left' len]
  rw [← List.append_nil o] at h
  exact ⟨_, .left whole h⟩

theorem read_last {next : List β → Proc β ε α} (len : block.length = n)
    (rest : Finishing ⟨next block, q, [], o⟩ a c) :
    Finishing ⟨.read n next, q, block, o⟩ a c := by
  have h := Finishing.read len rest
  rwa [List.append_nil] at h

end Finishing

namespace Proc

/-- What becomes of a process whose input ends: its result with the input that is left, its
error, or nothing if it waits for more than there is. -/
def run : Proc β ε α → List β → Except (Option ε) (α × List β)
  | done result, input => .ok (result, input)
  | fail error, _ => .error (some error)
  | write _ next, input => next.run input
  | read n next, input =>
    if n ≤ input.length then (next (input.take n)).run (input.drop n) else .error none

def output : Proc β ε α → List β → List β
  | done _, _ => []
  | fail _, _ => []
  | write block next, input => block ++ next.output input
  | read n next, input =>
    if n ≤ input.length then (next (input.take n)).output (input.drop n) else []

theorem run_read {next : List β → Proc β ε α} {n : Nat} {block : List β} (len : block.length = n)
    (rest : List β) : (read n next).run (block ++ rest) = (next block).run rest := by
  have there : n ≤ (block ++ rest).length := by rw [List.length_append]; omega
  rw [run, if_pos there, List.take_left' len, List.drop_left' len]

end Proc

end Duplex
