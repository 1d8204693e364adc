import Toxera.Lib.Duplex

/-!
# Programs on a stream

A program reads blocks of a known length from a stream and writes blocks to it, and every
read and write tells it whether it succeeded.
-/

namespace Dialogue

open Duplex

variable {δ χ' : Type}

variable {β ε χ α γ : Type}

inductive Prog (β ε α : Type) where
  | done (result : α)
  /-- the program does not return -/
  | crash
  | read (n : Nat) (next : Except ε (List β) → Prog β ε α)
  | write (block : List β) (next : Except ε Unit → Prog β ε α)
  | close (next : Prog β ε α)

namespace Prog

protected def bind : Prog β ε α → (α → Prog β ε γ) → Prog β ε γ
  | done result, f => f result
  | crash, _ => crash
  | read n next, f => read n fun block => (next block).bind f
  | write block next, f => write block fun sent => (next sent).bind f
  | close next, f => close (next.bind f)

instance : Monad (Prog β ε) where
  pure := done
  bind := Prog.bind

theorem bind_done (p : Prog β ε α) : p.bind done = p := by
  induction p with
  | done | crash => rfl
  | read n next ih => exact congrArg (read n) (funext ih)
  | write block next ih => exact congrArg (write block) (funext ih)
  | close next ih => exact congrArg close ih

theorem bind_bind (p : Prog β ε α) (f : α → Prog β ε γ) (g : γ → Prog β ε δ) :
    (p.bind f).bind g = p.bind fun a => (f a).bind g := by
  induction p with
  | done | crash => rfl
  | read n next ih => exact congrArg (read n) (funext ih)
  | write block next ih => exact congrArg (write block) (funext ih)
  | close next ih => exact congrArg close ih

instance : LawfulMonad (Prog β ε) := .mk' _ bind_done (fun _ _ => rfl) bind_bind

/-- The program against another process: nothing fails, and closing is not seen. -/
def proc : Prog β ε α → Proc β Unit α
  | done result => .done result
  | crash => .fail ()
  | read n next => .read n fun block => (next (.ok block)).proc
  | write block next => .write block (next (.ok ())).proc
  | close next => next.proc

@[simp] theorem proc_pure (a : α) : (pure a : Prog β ε α).proc = .done a := rfl

@[simp] theorem proc_bind (p : Prog β ε α) (f : α → Prog β ε γ) :
    (p >>= f).proc = p.proc >>= fun a => (f a).proc := by
  show (p.bind f).proc = p.proc.bind fun a => (f a).proc
  induction p with
  | done | crash => rfl
  | read n next ih => exact congrArg (Proc.read n) (funext fun block => ih (.ok block))
  | write block next ih => exact congrArg (Proc.write block) (ih (.ok ()))
  | close next ih => exact ih

end Prog

structure Conn (β ε : Type) where
  unread : List β
  short : Bool → ε
  writes : List (Except ε Unit)
  closed : Bool

namespace Prog

def run : Prog β ε α → Conn β ε → Option (α × Conn β ε)
  | done result, c => some (result, c)
  | crash, _ => none
  | read n next, c =>
    if n ≤ c.unread.length then
      (next (.ok (c.unread.take n))).run { c with unread := c.unread.drop n }
    else (next (.error (c.short (!c.unread.isEmpty)))).run { c with unread := [] }
  | write _ next, c =>
    match c.writes with
    | [] => (next (.ok ())).run c
    | sent :: later => (next sent).run { c with writes := later }
  | close next, c => next.run { c with closed := true }

@[simp] theorem run_pure (a : α) (c : Conn β ε) : (pure a : Prog β ε α).run c = some (a, c) := rfl

@[simp] theorem run_bind (p : Prog β ε α) (f : α → Prog β ε γ) (c : Conn β ε) :
    (p >>= f).run c = (p.run c).bind fun r => (f r.1).run r.2 := by
  show (p.bind f).run c = _
  induction p generalizing c with
  | done result => rfl
  | crash => rfl
  | read n next ih =>
    simp only [Prog.bind, run]
    split_ifs
    all_goals exact ih _ _
  | write block next ih =>
    simp only [Prog.bind, run]
    split
    all_goals exact ih _ _
  | close next ih => exact ih _

end Prog

abbrev Call (β ε χ α : Type) := ExceptT χ (Prog β ε) α

namespace Call

def get (n : Nat) : Call β ε ε (List β) := ExceptT.mk (.read n .done)

def put (block : List β) : Call β ε ε Unit := ExceptT.mk (.write block .done)

def close : Call β ε χ Unit := ExceptT.mk (.close (.done (.ok ())))

def crash : Call β ε χ α := ExceptT.mk .crash

@[simp] theorem run_get (n : Nat) : (get n : Call β ε ε (List β)).run = .read n .done := rfl

@[simp] theorem run_put (block : List β) : (put block : Call β ε ε Unit).run = .write block .done :=
  rfl

end Call

namespace Call

theorem run_bind_iff {x : Call β ε χ α} {f : α → Call β ε χ γ} {c c' : Conn β ε}
    {r : Except χ γ} :
    (x >>= f).run.run c = some (r, c') ↔
      (∃ a m, x.run.run c = some (.ok a, m) ∧ (f a).run.run m = some (r, c')) ∨
        ∃ err, x.run.run c = some (.error err, c') ∧ r = .error err := by
  rw [ExceptT.run_bind, Prog.run_bind, Option.bind_eq_some_iff]
  constructor
  · rintro ⟨⟨outcome, m⟩, first, rest⟩
    cases outcome with
    | ok a => exact .inl ⟨a, m, first, rest⟩
    | error err =>
      cases rest
      exact .inr ⟨err, first, rfl⟩
  · rintro (⟨a, m, first, rest⟩ | ⟨err, first, rfl⟩)
    · exact ⟨_, first, rest⟩
    · exact ⟨_, first, rfl⟩

theorem run_bind_ok_iff {x : Call β ε χ α} {f : α → Call β ε χ γ} {c c' : Conn β ε} {b : γ} :
    (x >>= f).run.run c = some (.ok b, c') ↔
      ∃ a m, x.run.run c = some (.ok a, m) ∧ (f a).run.run m = some (.ok b, c') := by
  rw [run_bind_iff]
  constructor
  · rintro (both | ⟨err, -, none_⟩)
    · exact both
    · cases none_
  · exact .inl

theorem run_adapt_iff {x : Call β ε χ α} {g : χ → χ'} {c c' : Conn β ε} {r : Except χ' α} :
    (x.adapt g).run.run c = some (r, c') ↔ ∃ o, x.run.run c = some (o, c') ∧ o.mapError g = r := by
  have mapped : (x.adapt g).run = x.run >>= fun o => pure (o.mapError g) := rfl
  rw [mapped, Prog.run_bind, Option.bind_eq_some_iff]
  constructor
  · rintro ⟨⟨o, m⟩, first, rest⟩
    cases rest
    exact ⟨o, first, rfl⟩
  · rintro ⟨o, first, rfl⟩
    exact ⟨_, first, rfl⟩

theorem run_adapt_ok_iff {x : Call β ε χ α} {g : χ → χ'} {c c' : Conn β ε} {a : α} :
    (x.adapt g).run.run c = some (.ok a, c') ↔ x.run.run c = some (.ok a, c') := by
  rw [run_adapt_iff]
  constructor
  · rintro ⟨o, first, same⟩
    cases o with
    | ok b =>
      obtain rfl := Except.ok.inj same
      exact first
    | error err => cases same
  · intro first
    exact ⟨_, first, rfl⟩

@[simp] theorem run_close (c : Conn β ε) :
    (close : Call β ε χ Unit).run.run c = some (.ok (), { c with closed := true }) := rfl

theorem run_put_iff {block : List β} {c c' : Conn β ε} :
    (put block : Call β ε ε Unit).run.run c = some (.ok (), c') ↔
      (∀ r ∈ c.writes.take 1, r = .ok ()) ∧ c' = { c with writes := c.writes.tail } := by
  rcases c with ⟨unread, short, writes, closed⟩
  cases writes with
  | nil =>
    simp only [run_put, Prog.run]
    constructor
    · grind
    · rintro ⟨-, rfl⟩
      rfl
  | cons sent later =>
    simp only [run_put, Prog.run, List.take_succ_cons, List.take_zero, List.mem_singleton,
      forall_eq, List.tail_cons]
    constructor
    · intro h
      cases h
      exact ⟨rfl, rfl⟩
    · rintro ⟨rfl, rfl⟩
      rfl

end Call

def KeepsOpen (p : Prog β ε α) : Prop :=
  ∀ c a c', p.run c = some (a, c') → c'.closed = c.closed

namespace KeepsOpen

theorem done (a : α) : KeepsOpen (.done a : Prog β ε α) := by
  intro c b c' h
  cases h
  rfl

theorem crash : KeepsOpen (.crash : Prog β ε α) := by
  intro c a c' h
  cases h

theorem bind {p : Prog β ε α} {f : α → Prog β ε γ} (first : KeepsOpen p)
    (rest : ∀ a, KeepsOpen (f a)) : KeepsOpen (p >>= f) := by
  intro c b c' h
  rw [Prog.run_bind, Option.bind_eq_some_iff] at h
  obtain ⟨⟨a, m⟩, before, after⟩ := h
  exact (rest a m b c' after).trans (first c a m before)

theorem call_bind {x : Call β ε χ α} {f : α → Call β ε χ γ} (first : KeepsOpen x.run)
    (rest : ∀ a, KeepsOpen (f a).run) : KeepsOpen (x >>= f).run := by
  refine first.bind fun r => ?_
  cases r with
  | ok a => exact rest a
  | error err => exact .done _

theorem adapt {x : Call β ε χ α} (h : KeepsOpen x.run) (g : χ → χ') : KeepsOpen (x.adapt g).run :=
  h.bind fun r => .done (r.mapError g)

theorem get (n : Nat) : KeepsOpen (Call.get n : Call β ε ε (List β)).run := by
  intro c a c' h
  rw [Call.run_get, Prog.run] at h
  split_ifs at h
  all_goals
    cases h
    rfl

theorem put (block : List β) : KeepsOpen (Call.put block : Call β ε ε Unit).run := by
  intro c a c' h
  rw [Call.run_put, Prog.run] at h
  split at h
  all_goals
    cases h
    rfl

end KeepsOpen

inductive Consumes : Prog β ε α → List β → α → Prop
  | done (a : α) : Consumes (.done a) [] a
  | read {n : Nat} {next : Except ε (List β) → Prog β ε α} {block bs : List β} {a : α}
      (len : block.length = n) (rest : Consumes (next (.ok block)) bs a) :
      Consumes (.read n next) (block ++ bs) a

namespace Consumes

theorem bind {p : Prog β ε α} {f : α → Prog β ε γ} {bs cs : List β} {a : α} {b : γ}
    (first : Consumes p bs a) (second : Consumes (f a) cs b) : Consumes (p >>= f) (bs ++ cs) b := by
  induction first with
  | done a => exact second
  | read len _ ih =>
    rw [List.append_assoc]
    exact .read len (ih second)

theorem bind_ok {x : Call β ε χ α} {f : α → Call β ε χ γ} {bs cs : List β} {a : α}
    {r : Except χ γ} (first : Consumes x.run bs (.ok a)) (second : Consumes (f a).run cs r) :
    Consumes (x >>= f).run (bs ++ cs) r :=
  first.bind second

theorem bind_last {x : Call β ε χ α} {f : α → Call β ε χ γ} {bs : List β} {a : α}
    {r : Except χ γ} (first : Consumes x.run bs (.ok a)) (second : Consumes (f a).run [] r) :
    Consumes (x >>= f).run bs r := by
  have h := first.bind_ok second
  rwa [List.append_nil] at h

theorem get {n : Nat} {block : List β} (len : block.length = n) :
    Consumes (Call.get n : Call β ε ε (List β)).run block (.ok block) := by
  have h : Consumes (Prog.read n Prog.done : Prog β ε (Except ε (List β))) (block ++ [])
      (.ok block) := .read len (.done _)
  rwa [List.append_nil] at h

theorem adapt {x : Call β ε χ α} {bs : List β} {a : α} (g : χ → χ') (h : Consumes x.run bs (.ok a)) :
    Consumes (x.adapt g).run bs (.ok a) := by
  have := h.bind (f := fun r => (pure (r.mapError g) : Prog β ε (Except χ' α))) (.done _)
  rwa [List.append_nil] at this

theorem run {p : Prog β ε α} {bs : List β} {a : α} (h : Consumes p bs a) {c : Conn β ε}
    {rest : List β} (front : c.unread = bs ++ rest) :
    p.run c = some (a, { c with unread := rest }) := by
  induction h generalizing c with
  | done a =>
    rw [List.nil_append] at front
    rw [← front]
    rfl
  | @read n next block bs a len _ ih =>
    rw [List.append_assoc] at front
    have there : n ≤ c.unread.length := by
      rw [front, List.length_append]
      omega
    rw [Prog.run, if_pos there, front, List.take_left' len, List.drop_left' len]
    exact ih rfl

variable {q : Proc β Unit γ} {i o : List β} {x : χ} {y : γ}

theorem finishing {p : Prog β ε α} {bs : List β} {a : α} (h : Consumes p bs a)
    {k : α → Proc β Unit χ} (rest : Finishing ⟨k a, q, i, o⟩ x y) :
    Finishing ⟨p.proc >>= k, q, bs ++ i, o⟩ x y := by
  induction h with
  | done a => exact rest
  | read len _ ih =>
    rw [List.append_assoc]
    exact .read len (ih rest)

end Consumes

section
variable (k : Except χ γ → Proc β Unit α)

/-- A call is followed by what is done with its outcome. -/
def andThen {δ : Type} (f : δ → Call β ε χ γ) : Except χ δ → Proc β Unit α
  | .ok a => (f a).run.proc >>= k
  | .error err => k (.error err)

theorem proc_call_bind (x : Call β ε χ δ) (f : δ → Call β ε χ γ) :
    ((x >>= f).run.proc >>= k) = x.run.proc >>= andThen k f := by
  rw [ExceptT.run_bind, Prog.proc_bind, Proc.bind_assoc]
  congr 1
  funext r
  cases r with
  | ok a => rfl
  | error err => rfl

theorem proc_call_adapt (x : Call β ε χ' γ) (g : χ' → χ) :
    ((x.adapt g).run.proc >>= k) = x.run.proc >>= fun r => k (r.mapError g) := by
  have mapped : (x.adapt g).run = x.run >>= fun r => pure (r.mapError g) := rfl
  rw [mapped, Prog.proc_bind, Proc.bind_assoc]
  rfl

end

theorem finishing_put {q : Proc β Unit γ} {i o block : List β} {a : α} {c : γ}
    {k : Except ε Unit → Proc β Unit α} (rest : Finishing ⟨k (.ok ()), q, i, o ++ block⟩ a c) :
    Finishing ⟨(Call.put block : Call β ε ε Unit).run.proc >>= k, q, i, o⟩ a c :=
  .write rest

end Dialogue
