import Mathlib.Data.List.Induction
import Mathlib.Data.Option.Basic

/-!
# Runs of a partial step function

A system is given by a step function that may refuse an event.
-/

namespace Exec

universe u v
variable {σ : Type u} {ε : Type v} {next : σ → ε → Option σ}

def exec (next : σ → ε → Option σ) : σ → List ε → Option σ
  | s, [] => some s
  | s, e :: es => (next s e).bind fun t => exec next t es

@[simp] theorem exec_nil (s : σ) : exec next s [] = some s := rfl

theorem exec_cons_iff {s t : σ} {e : ε} {es : List ε} :
    exec next s (e :: es) = some t ↔
      ∃ m, next s e = some m ∧ exec next m es = some t := by
  simp only [exec, Option.bind_eq_some_iff]

theorem exec_append_iff {s t : σ} {xs ys : List ε} :
    exec next s (xs ++ ys) = some t ↔
      ∃ m, exec next s xs = some m ∧ exec next m ys = some t := by
  induction xs generalizing s with
  | nil => simp
  | cons e xs ih =>
    rw [List.cons_append, exec_cons_iff]
    constructor
    · grind [exec_cons_iff]
    · grind [exec_cons_iff]

theorem exec_snoc_iff {s t : σ} {e : ε} {es : List ε} :
    exec next s (es ++ [e]) = some t ↔
      ∃ m, exec next s es = some m ∧ next m e = some t := by
  simp [exec_append_iff, exec_cons_iff]

theorem exec_invariant {P : σ → Prop}
    (step : ∀ s e t, P s → next s e = some t → P t)
    {s t : σ} {es : List ε} (start : P s) (run : exec next s es = some t) : P t := by
  induction es generalizing s with
  | nil =>
    obtain rfl : s = t := by simpa using run
    exact start
  | cons e es ih =>
    obtain ⟨m, he, rest⟩ := exec_cons_iff.mp run
    exact ih (step s e m start he) rest

theorem exec_history {s₀ : σ} {P : List ε → σ → Prop} (start : P [] s₀)
    (step : ∀ es s e t, exec next s₀ es = some s → P es s → next s e = some t →
      P (es ++ [e]) t)
    {t : σ} {es : List ε} (run : exec next s₀ es = some t) : P es t := by
  induction es using List.reverseRecOn generalizing t with
  | nil =>
    obtain rfl : s₀ = t := by simpa using run
    exact start
  | append_singleton es e ih =>
    obtain ⟨m, before, he⟩ := exec_snoc_iff.mp run
    exact step es m e t before (ih before) he

theorem foldlM_history {s₀ : σ} {P : List ε → σ → Prop} (start : P [] s₀)
    (step : ∀ es s e, P es s → ∃ t, next s e = some t ∧ P (es ++ [e]) t) (es : List ε) :
    ∃ t, es.foldlM next s₀ = some t ∧ P es t := by
  induction es using List.reverseRecOn with
  | nil => exact ⟨s₀, rfl, start⟩
  | append_singleton es e ih =>
    obtain ⟨m, before, holds⟩ := ih
    obtain ⟨t, last, holds'⟩ := step es m e holds
    refine ⟨t, ?_, holds'⟩
    rw [List.foldlM_append, before]
    simpa using last

/-- Something kept alongside a run: every step changes it, given the state before. -/
def tally {β : Type*} (next : σ → ε → Option σ) (f : σ → ε → β → β) : σ → List ε → β → β
  | _, [], b => b
  | s, e :: es, b =>
    match next s e with
    | none => b
    | some t => tally next f t es (f s e b)

theorem tally_snoc {β : Type*} {f : σ → ε → β → β} {s m t : σ} {es : List ε} {e : ε}
    (before : exec next s es = some m) (last : next m e = some t) (b : β) :
    tally next f s (es ++ [e]) b = f m e (tally next f s es b) := by
  induction es generalizing s b with
  | nil =>
    obtain rfl : s = m := Option.some.inj before
    simp [tally, last]
  | cons g es ih => grind [exec_cons_iff, tally]

def Along (next : σ → ε → Option σ) (C : σ → ε → Prop) (s : σ) (es : List ε) : Prop :=
  ∀ pre e post m, es = pre ++ e :: post → exec next s pre = some m → C m e

def Occurs (next : σ → ε → Option σ) (A : σ → ε → σ → Prop) (s : σ) (es : List ε) : Prop :=
  ∃ pre e post m m', es = pre ++ e :: post ∧ exec next s pre = some m ∧
    next m e = some m' ∧ A m e m'

theorem split_snoc {es pre post : List ε} {e f : ε} (cut : es ++ [e] = pre ++ f :: post) :
    (pre = es ∧ f = e ∧ post = []) ∨ ∃ front, post = front ++ [e] ∧ es = pre ++ f :: front := by
  rcases List.eq_nil_or_concat post with rfl | ⟨front, g, rfl⟩
  · obtain ⟨heq, hlast⟩ := List.append_inj' cut rfl
    exact Or.inl ⟨heq.symm, by simpa using hlast.symm, rfl⟩
  · have cut' : es ++ [e] = (pre ++ f :: front) ++ [g] := by simp [cut]
    obtain ⟨heq, hlast⟩ := List.append_inj' cut' rfl
    obtain rfl : e = g := by simpa using hlast
    exact Or.inr ⟨front, by simp, heq⟩

theorem along_nil (C : σ → ε → Prop) (s : σ) : Along next C s [] := by
  intro pre e post m cut
  simp at cut

theorem along_append_left {C : σ → ε → Prop} {s : σ} {pre post : List ε}
    (h : Along next C s (pre ++ post)) : Along next C s pre := by
  intro front e rest m cut run
  exact h front e (rest ++ post) m (by simp [cut]) run

theorem along_of_mem {C : σ → ε → Prop} {es : List ε} (h : ∀ e ∈ es, ∀ m, C m e) (s : σ) :
    Along next C s es := by
  intro pre e post m cut _
  exact h e (by simp [cut]) m

theorem along_append_of_mem {C : σ → ε → Prop} {s : σ} {xs ys : List ε} (h : Along next C s xs)
    (rest : ∀ e ∈ ys, ∀ m, C m e) : Along next C s (xs ++ ys) := by
  intro pre e post m cut run
  rcases List.append_eq_append_iff.mp cut with ⟨mid, rfl, tail⟩ | ⟨mid, rfl, tail⟩
  · exact rest e (by simp [tail]) m
  · cases mid with
    | nil => grind
    | cons f mid =>
      obtain ⟨rfl, -⟩ := List.cons.inj tail
      exact h pre e mid m rfl run

def check (next : σ → ε → Option σ) (c : σ → ε → Bool) : σ → List ε → Bool
  | _, [] => true
  | s, e :: es => c s e && match next s e with
    | none => true
    | some t => check next c t es

theorem along_of_check {C : σ → ε → Prop} {c : σ → ε → Bool}
    (sound : ∀ m e, c m e = true → C m e) {s : σ} {es : List ε}
    (h : check next c s es = true) : Along next C s es := by
  induction es generalizing s with
  | nil => exact along_nil C s
  | cons f es ih =>
    rw [check, Bool.and_eq_true] at h
    intro pre e post m cut run
    cases pre with
    | nil =>
      obtain ⟨rfl, rfl⟩ := List.cons.inj cut
      cases run
      exact sound s f h.1
    | cons g pre =>
      obtain ⟨rfl, rfl⟩ := List.cons.inj cut
      obtain ⟨t, ht, rest⟩ := exec_cons_iff.mp run
      have h2 := h.2
      rw [ht] at h2
      exact ih h2 pre e post m rfl rest

theorem along_of_decide {C : σ → ε → Prop} [∀ m e, Decidable (C m e)] {s : σ} {es : List ε}
    (h : check next (fun m e => decide (C m e)) s es = true) : Along next C s es :=
  along_of_check (fun _ _ => of_decide_eq_true) h

theorem Occurs.mem {A : σ → ε → σ → Prop} {s : σ} {es : List ε} (h : Occurs next A s es) :
    ∃ e ∈ es, ∃ m m', A m e m' := by
  obtain ⟨pre, e, post, m, m', rfl, -, -, ha⟩ := h
  exact ⟨e, by simp, m, m', ha⟩

theorem Occurs.append_left {A : σ → ε → σ → Prop} {s m : σ} {xs ys : List ε}
    (before : exec next s xs = some m) (h : Occurs next A m ys) : Occurs next A s (xs ++ ys) := by
  obtain ⟨pre, e, post, n, n', rfl, run, last, ha⟩ := h
  exact ⟨xs ++ pre, e, post, n, n', by simp, exec_append_iff.mpr ⟨m, before, run⟩, last, ha⟩

theorem along_snoc_iff {C : σ → ε → Prop} {s m : σ} {es : List ε} {e : ε}
    (before : exec next s es = some m) :
    Along next C s (es ++ [e]) ↔ Along next C s es ∧ C m e := by
  constructor
  · intro h
    refine ⟨?_, h es e [] m (by simp) before⟩
    intro pre f post n cut run
    exact h pre f (post ++ [e]) n (by simp [cut]) run
  · rintro ⟨h, last⟩ pre f post n cut run
    rcases split_snoc cut with ⟨rfl, rfl, rfl⟩ | ⟨front, rfl, rfl⟩
    · grind
    · exact h pre f front n rfl run

theorem along_cons_iff {C : σ → ε → Prop} {s m : σ} {e : ε} {es : List ε}
    (first : next s e = some m) : Along next C s (e :: es) ↔ C s e ∧ Along next C m es := by
  constructor
  · intro h
    refine ⟨h [] e es s rfl rfl, fun pre f post n cut run => ?_⟩
    exact h (e :: pre) f post n (by simp [cut]) (exec_cons_iff.mpr ⟨m, first, run⟩)
  · rintro ⟨here, later⟩ pre f post n cut run
    cases pre with
    | nil =>
      obtain ⟨rfl, -⟩ := List.cons.inj cut
      exact Option.some.inj run ▸ here
    | cons g pre =>
      obtain ⟨rfl, cut'⟩ := List.cons.inj cut
      obtain ⟨m', step, rest⟩ := exec_cons_iff.mp run
      exact later pre f post n cut' (Option.some.inj (first.symm.trans step) ▸ rest)

theorem occurs_snoc_iff {A : σ → ε → σ → Prop} {s m t : σ} {es : List ε} {e : ε}
    (before : exec next s es = some m) (last : next m e = some t) :
    Occurs next A s (es ++ [e]) ↔ Occurs next A s es ∨ A m e t := by
  constructor
  · rintro ⟨pre, f, post, n, n', cut, run, hf, ha⟩
    rcases split_snoc cut with ⟨rfl, rfl, rfl⟩ | ⟨front, rfl, rfl⟩
    · grind
    · exact Or.inl ⟨pre, f, front, n, n', rfl, run, hf, ha⟩
  · rintro (⟨pre, f, post, n, n', rfl, run, hf, ha⟩ | ha)
    · exact ⟨pre, f, post ++ [e], n, n', by simp, run, hf, ha⟩
    · exact ⟨es, e, [], m, t, rfl, before, last, ha⟩

theorem along_iff_not_occurs {C : σ → ε → Prop} {A : σ → ε → σ → Prop} {s t : σ} {es : List ε}
    (run : exec next s es = some t)
    (exact_ : ∀ pre e m m', exec next s pre = some m → next m e = some m' →
      (C m e ↔ ¬ A m e m')) :
    Along next C s es ↔ ¬ Occurs next A s es := by
  constructor
  · rintro h ⟨pre, e, post, m, m', cut, hm, hm', ha⟩
    exact (exact_ pre e m m' hm hm').mp (h pre e post m cut hm) ha
  · intro h pre e post m cut hm
    rw [cut] at run
    obtain ⟨n, hn, rest⟩ := exec_append_iff.mp run
    obtain rfl := Option.some.inj (hn.symm.trans hm)
    obtain ⟨n', hn', -⟩ := exec_cons_iff.mp rest
    exact (exact_ pre e n n' hn hn').mpr fun ha => h ⟨pre, e, post, n, n', cut, hn, hn', ha⟩

theorem exec_invariant_along {P : σ → Prop} {C : σ → ε → Prop}
    (step : ∀ s e t, P s → C s e → next s e = some t → P t)
    {s t : σ} {es : List ε} (start : P s) (good : Along next C s es)
    (run : exec next s es = some t) : P t := by
  induction es using List.reverseRecOn generalizing t with
  | nil =>
    obtain rfl : s = t := by simpa using run
    exact start
  | append_singleton es e ih =>
    obtain ⟨m, before, last⟩ := exec_snoc_iff.mp run
    obtain ⟨front, here⟩ := (along_snoc_iff before).mp good
    exact step m e t (ih front before) here last

def Throughout (next : σ → ε → Option σ) (P : σ → Prop) (s : σ) (es : List ε) : Prop :=
  ∀ pre post m, es = pre ++ post → exec next s pre = some m → P m

theorem throughout_snoc_iff {P : σ → Prop} {s t : σ} {es : List ε} {e : ε}
    (run : exec next s (es ++ [e]) = some t) :
    Throughout next P s (es ++ [e]) ↔ Throughout next P s es ∧ P t := by
  constructor
  · intro h
    exact ⟨fun pre post m cut before => h pre (post ++ [e]) m (by simp [cut]) before,
      h (es ++ [e]) [] t (by simp) run⟩
  · rintro ⟨front, last⟩ pre post m cut before
    rcases List.eq_nil_or_concat post with rfl | ⟨post, f, rfl⟩
    · grind
    · have cut' : es ++ [e] = (pre ++ post) ++ [f] := by simp [cut]
      exact front pre post m (List.append_inj' cut' rfl).1 before

theorem throughout_of_along {P : σ → Prop} {s : σ} {es : List ε} (start : P s)
    (steps : Along next (fun m e => ∀ t ∈ next m e, P t) s es) : Throughout next P s es := by
  intro pre post m cut run
  rcases List.eq_nil_or_concat pre with rfl | ⟨pre, e, rfl⟩
  · exact Option.some.inj run ▸ start
  · rw [List.concat_eq_append] at cut run
    obtain ⟨n, before, last⟩ := exec_snoc_iff.mp run
    exact steps pre e post n (by simp [cut]) before m last

theorem throughout_iff_along {P I : σ → Prop} {C D : σ → ε → Prop}
    (step : ∀ s e t, I s → P s → D s e → next s e = some t → I t ∧ (P t ↔ C s e))
    {s t : σ} {es : List ε} (inv : I s) (start : P s) (allowed : Along next D s es)
    (run : exec next s es = some t) :
    Throughout next P s es ↔ Along next C s es := by
  induction es using List.reverseRecOn generalizing t with
  | nil =>
    refine iff_of_true (fun pre post m cut before => ?_) (along_nil C s)
    obtain ⟨rfl, rfl⟩ := List.append_eq_nil_iff.mp cut.symm
    exact Option.some.inj before ▸ start
  | append_singleton es e ih =>
    obtain ⟨m, before, last⟩ := exec_snoc_iff.mp run
    obtain ⟨front, here⟩ := (along_snoc_iff before).mp allowed
    rw [throughout_snoc_iff run, along_snoc_iff before, ← ih front before]
    refine and_congr_right fun earlier => ?_
    have good : Along next (fun s e => P s ∧ D s e) s es := fun pre f post n cut run =>
      ⟨earlier pre (f :: post) n cut run, front pre f post n cut run⟩
    have inv_m : I m :=
      exec_invariant_along (fun s f t h c hf => (step s f t h c.1 c.2 hf).1) inv good before
    exact (step m e t inv_m (earlier es [] m (by simp) before) here last).2

theorem exec_simulation {σ' : Type*} {ε' : Type*} {next' : σ' → ε' → Option σ'}
    {R : σ → σ' → Prop} {label : ε → Option ε'}
    (hidden : ∀ s s' e t, R s s' → next s e = some t → label e = none → R t s')
    (matched : ∀ s s' e e' t, R s s' → next s e = some t → label e = some e' →
      ∃ t', next' s' e' = some t' ∧ R t t')
    {s t : σ} {s' : σ'} {es : List ε} (start : R s s') (run : exec next s es = some t) :
    ∃ t', exec next' s' (es.filterMap label) = some t' ∧ R t t' := by
  induction es generalizing s s' with
  | nil =>
    obtain rfl : s = t := by simpa using run
    exact ⟨s', rfl, start⟩
  | cons e es ih =>
    obtain ⟨m, he, rest⟩ := exec_cons_iff.mp run
    cases hl : label e with
    | none => grind
    | some e' =>
      obtain ⟨m', he', related⟩ := matched s s' e e' m start he hl
      obtain ⟨t', rest', final⟩ := ih related rest
      rw [List.filterMap_cons_some hl]
      exact ⟨t', exec_cons_iff.mpr ⟨m', he', rest'⟩, final⟩

end Exec
