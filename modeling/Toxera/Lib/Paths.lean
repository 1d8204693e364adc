import Mathlib.Data.List.DropRight
import Mathlib.Logic.Function.Iterate

/-!
# Slash-separated paths

The place that a path names, resolved by its text alone: from where it starts (the root or
the current directory), how far up it goes and which names it then follows.
-/

namespace Paths

abbrev Path := List Char

abbrev Part := List Char

structure Place where
  rooted : Bool
  ups : Nat
  names : List Part
  deriving DecidableEq

variable {a : Path} {n part : Part} {p : Place}

def dotdot : Part := ['.', '.']

def IsName (n : Part) : Prop := n ≠ [] ∧ n ≠ ['.'] ∧ n ≠ dotdot ∧ '/' ∉ n

/-- Above the root is the root; above the current directory there is always another one. -/
def Place.up (p : Place) : Place :=
  if p.names ≠ [] then { p with names := p.names.dropLast }
  else if p.rooted then p
  else { p with ups := p.ups + 1 }

def Place.child (p : Place) (n : Part) : Place := { p with names := p.names ++ [n] }

def Place.enter (p : Place) (part : Part) : Place :=
  if part = [] ∨ part = ['.'] then p
  else if part = dotdot then p.up
  else p.child part

def parts (p : Path) : List Part := p.splitOn '/'

def origin (p : Path) : Place := ⟨p.head? == some '/', 0, []⟩

def place (p : Path) : Place := (parts p).foldl Place.enter (origin p)

def Place.path (p : Place) : Path :=
  if p.rooted then '/' :: ['/'].intercalate p.names
  else if p.ups = 0 ∧ p.names = [] then ['.']
  else ['/'].intercalate (List.replicate p.ups dotdot ++ p.names)

def clean (p : Path) : Path := (place p).path

def dir (p : Path) : Path := clean (p.rdropWhile (· != '/'))

def joinPath (dir : Path) (name : Part) : Path :=
  if dir.getLast? = some '/' then dir ++ name else dir ++ '/' :: name

structure Place.Valid (p : Place) : Prop where
  top : p.rooted = true → p.ups = 0
  names : ∀ n ∈ p.names, IsName n

theorem Place.Valid.up (h : p.Valid) : p.up.Valid := by
  unfold Place.up
  split_ifs with some_ rooted
  · exact ⟨h.top, fun n hn => h.names n (List.dropLast_subset _ hn)⟩
  · exact h
  · exact ⟨fun top => absurd top rooted, h.names⟩

theorem Place.Valid.enter (h : p.Valid) (slash : '/' ∉ part) : (p.enter part).Valid := by
  unfold Place.enter
  split_ifs with same above
  · exact h
  · exact h.up
  · refine ⟨h.top, fun n hn => ?_⟩
    rcases List.mem_append.mp hn with old | new
    · exact h.names n old
    · obtain rfl := List.mem_singleton.mp new
      exact ⟨fun e => same (Or.inl e), fun e => same (Or.inr e), above, slash⟩

theorem parts_append (a b : Path) : parts (a ++ '/' :: b) = parts a ++ parts b :=
  List.splitOnP_append_cons a b (beq_self_eq_true '/')

theorem slash_not_mem_parts {p : Path} (h : part ∈ parts p) : '/' ∉ part := by
  induction p generalizing part with
  | nil =>
    obtain rfl : part = [] := by simpa [parts] using h
    exact List.not_mem_nil
  | cons c p ih =>
    rw [parts, List.splitOn, List.splitOnP_cons_eq_if_modifyHead] at h
    split_ifs at h with slash
    · rcases List.mem_cons.mp h with rfl | later
      · exact List.not_mem_nil
      · exact ih later
    · obtain ⟨first, rest, split⟩ := List.exists_cons_of_ne_nil
        (List.splitOnP_ne_nil (· == '/') p)
      rw [split, List.modifyHead_cons] at h
      have first_ok : '/' ∉ first := ih (show first ∈ p.splitOnP _ by rw [split]; simp)
      rcases List.mem_cons.mp h with rfl | later
      · intro here
        rcases List.mem_cons.mp here with rfl | here
        · exact slash (by simp)
        · exact first_ok here
      · exact ih (show part ∈ p.splitOnP _ by rw [split]; exact List.mem_cons_of_mem _ later)

theorem place_valid (p : Path) : (place p).Valid := by
  have all : ∀ (ps : List Part) (q : Place), (∀ part ∈ ps, '/' ∉ part) → q.Valid →
      (ps.foldl Place.enter q).Valid := by
    intro ps
    induction ps with
    | nil => exact fun q _ h => h
    | cons part ps ih =>
      intro q slash h
      exact ih _ (fun x hx => slash x (List.mem_cons_of_mem _ hx))
        (h.enter (slash part List.mem_cons_self))
  exact all _ _ (fun part => slash_not_mem_parts) ⟨fun _ => rfl, by simp [origin]⟩

theorem enter_name (h : IsName n) (p : Place) : p.enter n = p.child n := by
  rw [Place.enter, if_neg (not_or.mpr ⟨h.1, h.2.1⟩), if_neg h.2.2.1]

theorem enter_dotdot (p : Place) : p.enter dotdot = p.up := by
  rw [Place.enter, if_neg (by decide), if_pos rfl]

@[simp] theorem enter_nil (p : Place) : p.enter [] = p := by simp [Place.enter]

@[simp] theorem enter_dot (p : Place) : p.enter ['.'] = p := by simp [Place.enter]

def Place.join (p q : Place) : Place :=
  let top := Place.up^[q.ups] p
  { top with names := top.names ++ q.names }

theorem foldl_names {names : List Part} (h : ∀ n ∈ names, IsName n) (p : Place) :
    names.foldl Place.enter p = { p with names := p.names ++ names } := by
  induction names generalizing p with
  | nil => simp
  | cons n names ih => grind [enter_name, Place.child]

theorem foldl_dotdots (k : Nat) (p : Place) :
    (List.replicate k dotdot).foldl Place.enter p = Place.up^[k] p := by
  induction k generalizing p with
  | zero => rfl
  | succ k ih =>
    rw [List.replicate_succ, List.foldl_cons, ih, enter_dotdot]
    rfl

theorem slash_not_mem_all (h : p.Valid) :
    ∀ part ∈ List.replicate p.ups dotdot ++ p.names, '/' ∉ part := by
  intro part hp
  rcases List.mem_append.mp hp with up | name
  · rw [List.eq_of_mem_replicate up]
    decide
  · exact (h.names part name).2.2.2

theorem foldl_parts_path (h : p.Valid) (q : Place) :
    (parts p.path).foldl Place.enter q = q.join p := by
  have along : (List.replicate p.ups dotdot ++ p.names).foldl Place.enter q = q.join p := by
    rw [List.foldl_append, foldl_dotdots, foldl_names h.names]
    rfl
  rw [← along]
  unfold Place.path
  split_ifs with rooted here
  · rw [h.top rooted, List.replicate_zero, List.nil_append]
    have split : parts ('/' :: ['/'].intercalate p.names) =
        [] :: parts (['/'].intercalate p.names) := parts_append [] _
    rw [split, List.foldl_cons, enter_nil]
    by_cases empty : p.names = []
    · rw [empty]
      rfl
    · rw [parts, List.splitOn_intercalate _ (fun n hn => (h.names n hn).2.2.2) empty]
  · rw [here.1, here.2]
    exact enter_dot q
  · rw [parts, List.splitOn_intercalate _ (slash_not_mem_all h)]
    intro empty
    obtain ⟨noUps, noNames⟩ := List.append_eq_nil_iff.mp empty
    exact here ⟨by simpa using noUps, noNames⟩

theorem head_intercalate {xs : List Part} (some_ : xs ≠ []) (full : ∀ x ∈ xs, x ≠ [])
    (slash : ∀ x ∈ xs, '/' ∉ x) : ∃ c, (['/'].intercalate xs).head? = some c ∧ c ≠ '/' := by
  obtain ⟨x, rest, rfl⟩ := List.exists_cons_of_ne_nil some_
  obtain ⟨c, cs, rfl⟩ := List.exists_cons_of_ne_nil (full x List.mem_cons_self)
  refine ⟨c, ?_, ?_⟩
  · cases rest <;> simp [List.intercalate]
  · rintro rfl
    exact slash _ List.mem_cons_self List.mem_cons_self

theorem head_path (h : p.Valid) : ∃ c, p.path.head? = some c ∧ (c = '/' ↔ p.rooted = true) := by
  unfold Place.path
  split_ifs with rooted here
  · exact ⟨'/', rfl, by simp [rooted]⟩
  · exact ⟨'.', rfl, by simp [rooted]⟩
  · have full : ∀ x ∈ List.replicate p.ups dotdot ++ p.names, x ≠ [] := by
      intro x hx
      rcases List.mem_append.mp hx with up | name
      · rw [List.eq_of_mem_replicate up]
        decide
      · exact (h.names x name).1
    obtain ⟨c, head, other⟩ := head_intercalate (fun empty => here (by simpa using empty)) full
      (slash_not_mem_all h)
    exact ⟨c, head, by simp [other, rooted]⟩

theorem path_ne_nil (h : p.Valid) : p.path ≠ [] := by
  obtain ⟨c, head, -⟩ := head_path h
  intro empty
  rw [empty] at head
  cases head

theorem origin_path (h : p.Valid) : origin p.path = ⟨p.rooted, 0, []⟩ := by
  obtain ⟨c, head, slash⟩ := head_path h
  rw [origin, head]
  congr 1
  rw [Bool.eq_iff_iff, ← slash]
  simp

theorem up_iterate_origin (k : Nat) : Place.up^[k] ⟨false, 0, []⟩ = ⟨false, k, []⟩ := by
  induction k with
  | zero => rfl
  | succ k ih =>
    rw [Function.iterate_succ_apply', ih]
    rfl

theorem place_path (h : p.Valid) : place p.path = p := by
  rw [place, foldl_parts_path h, origin_path h, Place.join]
  cases rooted : p.rooted with
  | true =>
    have top := h.top rooted
    obtain ⟨r, u, names⟩ := p
    subst rooted top
    rfl
  | false =>
    rw [up_iterate_origin]
    obtain ⟨r, u, names⟩ := p
    subst rooted
    rfl

theorem place_clean (p : Path) : place (clean p) = place p := place_path (place_valid p)

theorem origin_append (h : a ≠ []) (b : Path) : origin (a ++ b) = origin a := by
  obtain ⟨c, rest, rfl⟩ := List.exists_cons_of_ne_nil h
  rfl

theorem place_append (h : a ≠ []) (b : Path) :
    place (a ++ '/' :: b) = (parts b).foldl Place.enter (place a) := by
  rw [place, parts_append, List.foldl_append, origin_append h]
  rfl

theorem foldl_parts_joinPath (d : Path) (name : Part) (q : Place) :
    (parts (joinPath d name)).foldl Place.enter q =
      (parts name).foldl Place.enter ((parts d).foldl Place.enter q) := by
  unfold joinPath
  split_ifs with last
  · -- the empty part after the last slash does nothing
    obtain ⟨front, rfl⟩ : ∃ front, d = front ++ ['/'] :=
      ⟨d.dropLast, (List.dropLast_append_getLast? _ last).symm⟩
    rw [List.append_assoc, parts_append, show ['/'] ++ name = '/' :: name from rfl, parts_append,
      List.foldl_append, List.foldl_append]
    exact congrArg (List.foldl _ · _) (enter_nil _).symm
  · rw [parts_append, List.foldl_append]

theorem foldl_parts_name (h : IsName n) (q : Place) :
    (parts n).foldl Place.enter q = q.child n := by
  have single : parts n = [n] := by
    refine List.splitOnP_eq_singleton fun c hc => ?_
    refine beq_eq_false_iff_ne.mpr ?_
    rintro rfl
    exact h.2.2.2 hc
  rw [single, List.foldl_cons, List.foldl_nil, enter_name h]

theorem place_joinPath {d : Path} (h : d ≠ []) (name : IsName n) :
    place (joinPath d n) = (place d).child n := by
  have same : origin (joinPath d n) = origin d := by
    unfold joinPath
    split_ifs
    · exact origin_append h _
    · exact origin_append h _
  rw [place, foldl_parts_joinPath, same, foldl_parts_name name]
  rfl

theorem place_twice (h : p.Valid) (name : IsName n) :
    place (p.path ++ '/' :: joinPath p.path n) = (p.join p).child n := by
  rw [place_append (path_ne_nil h), foldl_parts_joinPath, foldl_parts_name name,
    foldl_parts_path h, place_path h]

theorem up_iterate_names (rel : p.rooted = false) (k : Nat) :
    Place.up^[k] p = { p with
      ups := p.ups + (k - p.names.length)
      names := p.names.take (p.names.length - k) } := by
  induction k with
  | zero => simp
  | succ k ih =>
    rw [Function.iterate_succ_apply', ih]
    by_cases left : k < p.names.length
    · have some_ : p.names.take (p.names.length - k) ≠ [] := by
        intro empty
        have size := congrArg List.length empty
        rw [List.length_take, List.length_nil] at size
        omega
      rw [Place.up, if_pos some_]
      simp only [List.dropLast_eq_take, List.take_take, List.length_take]
      congr 2 <;> omega
    · have none_ : p.names.length - k = 0 := by omega
      have none' : p.names.length - (k + 1) = 0 := by omega
      rw [Place.up, none_, none', List.take_zero, if_neg (by simp), rel, if_neg (by simp)]
      congr 1
      show p.ups + (k - p.names.length) + 1 = _
      omega

theorem join_self_iff (h : p.Valid) :
    p.join p = p ↔ if p.rooted then p.names = [] else p.ups = p.names.length := by
  obtain ⟨rooted, ups, names⟩ := p
  cases rooted with
  | true =>
    obtain rfl : ups = 0 := h.top rfl
    simp [Place.join]
  | false =>
    rw [Place.join, up_iterate_names rfl]
    simp only [Place.mk.injEq, true_and, Bool.false_eq_true, if_false]
    constructor
    · grind
    · rintro rfl
      simp

theorem child_inj {q : Place} : p.child n = q.child n ↔ p = q := by
  obtain ⟨r, u, names⟩ := p
  obtain ⟨r', u', names'⟩ := q
  simp [Place.child]

end Paths
