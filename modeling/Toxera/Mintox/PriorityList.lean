import Mathlib.Data.List.AList
import Toxera.Lib.LastWrite

/-!
# The priority list

`mintox/priority_list.go`: a list of items with distinct keys, kept together with a map
from keys to items.
-/

universe u v

open Exec

structure PriorityList (κ : Type u) (α : Type v) where
  max : Nat
  keys : AList fun _ : κ => α
  lst : List α

namespace PriorityList
variable {κ : Type u} {α : Type v}

def newPriorityList (max : Nat) : PriorityList κ α := ⟨max, ∅, []⟩

/-- The place of an item, from the given index on: before the first item that it does not
compare below. -/
def position (cmp : Nat → α → Int) : Nat → List α → Nat
  | i, [] => i
  | i, x :: rest => if 0 ≤ cmp i x then i else position cmp (i + 1) rest

theorem position_spec (cmp : Nat → α → Int) (i : Nat) (xs : List α) :
    ∃ front back, xs = front ++ back ∧ position cmp i xs = i + front.length ∧
      (∀ j x, front[j]? = some x → cmp (i + j) x < 0) ∧
      ∀ x, back.head? = some x → 0 ≤ cmp (i + front.length) x := by
  induction xs generalizing i with
  | nil => exact ⟨[], [], rfl, rfl, by simp, by simp⟩
  | cons x rest ih =>
    rw [position]
    split_ifs with here
    · exact ⟨[], x :: rest, rfl, rfl, by simp, by simpa using here⟩
    · obtain ⟨front, back, rfl, pos, below, above⟩ := ih (i + 1)
      refine ⟨x :: front, back, rfl, ?_, ?_, ?_⟩
      · rw [pos, List.length_cons]
        omega
      · intro j y hy
        cases j with
        | zero => grind
        | succ j => grind
      · grind

section Representation
variable (key : α → κ)

structure Valid (l : PriorityList κ α) : Prop where
  nodup : (l.lst.map key).Nodup
  mem_keys : ∀ k, k ∈ l.keys ↔ k ∈ l.lst.map key
  bounded : l.lst.length ≤ l.max

variable {key} {l : PriorityList κ α} {item : α}

theorem valid_new (max : Nat) : (newPriorityList max : PriorityList κ α).Valid key := by
  refine ⟨List.nodup_nil, ?_, Nat.zero_le _⟩
  intro k
  simp [newPriorityList, AList.notMem_empty]

theorem length_keys (nodup : (l.lst.map key).Nodup)
    (mem_keys : ∀ k, k ∈ l.keys ↔ k ∈ l.lst.map key) : l.lst.length = l.keys.keys.length := by
  have perm : l.keys.keys.Perm (l.lst.map key) :=
    (List.perm_ext_iff_of_nodup l.keys.nodupKeys nodup).mpr mem_keys
  rw [perm.length_eq, List.length_map]

theorem mem_inserted {front back : List α} {k : κ} :
    k ∈ (front ++ item :: back).map key ↔ k = key item ∨ k ∈ (front ++ back).map key := by
  simp only [List.map_append, List.map_cons, List.mem_append, List.mem_cons]
  tauto

theorem nodup_inserted {front back : List α} (nodup : ((front ++ back).map key).Nodup)
    (new : key item ∉ (front ++ back).map key) : ((front ++ item :: back).map key).Nodup := by
  have perm : ((front ++ item :: back).map key).Perm (key item :: (front ++ back).map key) :=
    List.perm_middle.map key
  exact perm.nodup_iff.mpr (List.nodup_cons.mpr ⟨new, nodup⟩)

theorem take_or_snoc {xs : List κ} {n : Nat} (short : xs.length ≤ n + 1) :
    xs.take n = xs ∨ ∃ last, xs.take n ++ [last] = xs := by
  by_cases fits : xs.length ≤ n
  · exact Or.inl (List.take_of_length_le fits)
  · have one : (xs.drop n).length = 1 := by
      rw [List.length_drop]
      omega
    obtain ⟨last, hlast⟩ := List.length_eq_one_iff.mp one
    exact Or.inr ⟨last, by rw [← hlast, List.take_append_drop]⟩

end Representation

variable [DecidableEq κ] (key : α → κ)

def replaceItem (item : α) : List α → List α
  | [] => []
  | x :: rest => if key x = key item then item :: rest else x :: replaceItem item rest

def truncate (l : PriorityList κ α) : PriorityList κ α :=
  if l.max < l.lst.length then
    { l with
      keys := (l.lst.drop l.max).foldl (fun keys todrop => keys.erase (key todrop)) l.keys
      lst := l.lst.take l.max }
  else l

def put (l : PriorityList κ α) (cmp : Nat → α → Int) (item : α) : Option (PriorityList κ α) :=
  if key item ∈ l.keys then some { l with lst := replaceItem key item l.lst }
  else
    let i := position cmp 0 l.lst
    let l := truncate key
      { l with
        lst := l.lst.take i ++ item :: l.lst.drop i
        keys := l.keys.insert (key item) item }
    if l.lst.length ≠ l.keys.keys.length then none else some l

def remove (l : PriorityList κ α) (item : α) : Option (PriorityList κ α × Bool) :=
  if key item ∉ l.keys then some (l, false)
  else
    let i := l.lst.findIdx fun x => key x = key item
    if i < l.lst.length then
      some ({ l with
        lst := l.lst.take i ++ l.lst.drop (i + 1)
        keys := l.keys.erase (key item) }, true)
    else none

def getByKey (l : PriorityList κ α) (k : κ) : Option α := l.keys.lookup k

inductive Event (α : Type v) where
  | put (cmp : Nat → α → Int) (item : α)
  | remove (item : α)

def next (l : PriorityList κ α) : Event α → Option (PriorityList κ α)
  | .put cmp item => l.put key cmp item
  | .remove item => (l.remove key item).map Prod.fst

variable {key} {l l' : PriorityList κ α} {item : α}

theorem replaceItem_keys (item : α) (xs : List α) :
    (replaceItem key item xs).map key = xs.map key := by
  induction xs with
  | nil => rfl
  | cons x rest ih =>
    rw [replaceItem]
    split_ifs with same
    · rw [List.map_cons, List.map_cons, same]
    · rw [List.map_cons, List.map_cons, ih]

theorem lookup_foldl_erase (xs : List α) (keys : AList fun _ : κ => α) (k : κ) :
    (xs.foldl (fun keys todrop => keys.erase (key todrop)) keys).lookup k =
      if k ∈ xs.map key then none else keys.lookup k := by
  induction xs generalizing keys with
  | nil => simp
  | cons x rest ih =>
    rw [List.foldl_cons, ih, List.map_cons]
    by_cases hx : k = key x
    · subst hx
      simp
    · simp [hx, AList.lookup_erase_ne hx]

theorem getByKey_isSome {k : κ} : (l.getByKey k).isSome ↔ k ∈ l.keys := AList.lookup_isSome

inductive Puts (key : α → κ) (cmp : Nat → α → Int) (item : α) (l : PriorityList κ α) :
    PriorityList κ α → Prop
  | replaced : key item ∈ l.keys → Puts key cmp item l { l with lst := replaceItem key item l.lst }
  | inserted {front back : List α} {keys : AList fun _ : κ => α} :
    key item ∉ l.keys → l.lst = front ++ back →
    (∀ i x, front[i]? = some x → cmp i x < 0) →
    (∀ x, back.head? = some x → 0 ≤ cmp front.length x) →
    (∀ k, keys.lookup k = if k ∈ ((front ++ item :: back).take l.max).map key then
      (if k = key item then some item else l.keys.lookup k) else none) →
    Puts key cmp item l ⟨l.max, keys, (front ++ item :: back).take l.max⟩

theorem Puts.valid {cmp : Nat → α → Int} (valid : l.Valid key) (h : Puts key cmp item l l') :
    l'.Valid key := by
  cases h with
  | replaced known =>
    refine ⟨?_, ?_, ?_⟩
    · rw [replaceItem_keys]
      exact valid.nodup
    · rw [replaceItem_keys]
      exact valid.mem_keys
    · have lengths : (replaceItem key item l.lst).length = l.lst.length := by
        simpa using congrArg List.length (replaceItem_keys item l.lst)
      rw [lengths]
      exact valid.bounded
  | @inserted front back keys new split _ _ lookup =>
    have old : key item ∉ (front ++ back).map key := by
      rw [← split, ← valid.mem_keys]
      exact new
    have nodup := nodup_inserted (split ▸ valid.nodup) old
    refine ⟨?_, ?_, ?_⟩
    · grind
    · intro k
      rw [← AList.lookup_isSome, lookup]
      split_ifs with kept same
      · simpa using kept
      · rw [AList.lookup_isSome, valid.mem_keys, split]
        refine ⟨fun _ => kept, fun _ => ?_⟩
        have listed : k ∈ (front ++ item :: back).map key := by grind
        simp only [List.map_append, List.map_cons, List.mem_append, List.mem_cons] at listed ⊢
        tauto
      · simpa using kept
    · rw [List.length_take]
      exact Nat.min_le_left ..

theorem Puts.max {cmp : Nat → α → Int} (h : Puts key cmp item l l') : l'.max = l.max := by
  cases h <;> rfl

theorem Puts.ne_nil {cmp : Nat → α → Int} (valid : l.Valid key) (h : Puts key cmp item l l')
    (room : 0 < l.max) : l'.lst ≠ [] := by
  cases h with
  | replaced known =>
    intro empty
    have keys : (replaceItem key item l.lst).map key = l.lst.map key := replaceItem_keys item l.lst
    rw [show replaceItem key item l.lst = [] from empty] at keys
    have listed := (valid.mem_keys _).mp known
    rw [← keys] at listed
    exact List.not_mem_nil listed
  | inserted =>
    intro empty
    rcases List.take_eq_nil_iff.mp empty with none | none
    · omega
    · simp at none

theorem truncate_spec (nodup : (l.lst.map key).Nodup) (listed : ∀ k ∈ l.keys, k ∈ l.lst.map key) :
    ∃ keys, truncate key l = ⟨l.max, keys, l.lst.take l.max⟩ ∧
      ∀ k, keys.lookup k =
        if k ∈ (l.lst.take l.max).map key then l.keys.lookup k else none := by
  have absent : ∀ k, k ∉ l.lst.map key → l.keys.lookup k = none := by
    intro k out
    rw [AList.lookup_eq_none]
    exact fun known => out (listed k known)
  unfold truncate
  split_ifs with long
  · refine ⟨_, rfl, ?_⟩
    intro k
    rw [lookup_foldl_erase]
    have parts : k ∈ l.lst.map key ↔
        k ∈ (l.lst.take l.max).map key ∨ k ∈ (l.lst.drop l.max).map key := by
      rw [← List.mem_append, ← List.map_append, List.take_append_drop]
    split_ifs with dropped kept kept
    · rw [← List.take_append_drop l.max l.lst, List.map_append] at nodup
      exact absurd rfl ((List.nodup_append.mp nodup).2.2 k kept k dropped)
    · rfl
    · rfl
    · exact absent k fun h => (parts.mp h).elim kept dropped
  · have whole : l.lst.take l.max = l.lst := List.take_of_length_le (Nat.not_lt.mp long)
    refine ⟨l.keys, by rw [whole], ?_⟩
    intro k
    rw [whole]
    split_ifs with h
    · rfl
    · exact absent k h

theorem put_spec (valid : l.Valid key) (cmp : Nat → α → Int) (item : α) :
    ∃ l', l.put key cmp item = some l' ∧ Puts key cmp item l l' := by
  unfold put
  by_cases known : key item ∈ l.keys
  · exact ⟨_, if_pos known, .replaced known⟩
  · obtain ⟨front, back, split, pos, below, above⟩ := position_spec cmp 0 l.lst
    simp only [Nat.zero_add] at pos below above
    have cut : l.lst.take (position cmp 0 l.lst) ++ item :: l.lst.drop (position cmp 0 l.lst) =
        front ++ item :: back := by
      rw [pos, split, List.take_left, List.drop_left]
    have new : key item ∉ (front ++ back).map key := by
      rw [← split, ← valid.mem_keys]
      exact known
    obtain ⟨keys, truncated, lookup⟩ := truncate_spec
      (l := { l with lst := front ++ item :: back, keys := l.keys.insert (key item) item })
      (nodup_inserted (split ▸ valid.nodup) new) (by
        intro k hk
        rw [mem_inserted, ← split, ← valid.mem_keys]
        exact (AList.mem_insert _).mp hk)
    have puts : Puts key cmp item l ⟨l.max, keys, (front ++ item :: back).take l.max⟩ := by
      refine .inserted known split below above ?_
      intro k
      rw [lookup]
      split_ifs with kept same
      · rw [same, AList.lookup_insert]
      · exact AList.lookup_insert_ne same
      · rfl
    have ok := puts.valid valid
    refine ⟨_, ?_, puts⟩
    simp only [if_neg known, cut, truncated]
    exact if_neg (not_not.mpr (length_keys ok.nodup ok.mem_keys))

inductive Removes (key : α → κ) (item : α) (l : PriorityList κ α) : PriorityList κ α × Bool → Prop
  | absent : key item ∉ l.keys → Removes key item l (l, false)
  | removed {front back : List α} {x : α} : l.lst = front ++ x :: back → key x = key item →
    Removes key item l ({ l with lst := front ++ back, keys := l.keys.erase (key item) }, true)

theorem Removes.valid {r : PriorityList κ α × Bool} (valid : l.Valid key)
    (h : Removes key item l r) : r.1.Valid key := by
  cases h with
  | absent => exact valid
  | @removed front back x split same =>
    have nodup := valid.nodup
    rw [split, List.map_append, List.map_cons, List.nodup_middle, ← List.map_append] at nodup
    obtain ⟨out, nodup⟩ := List.nodup_cons.mp nodup
    refine ⟨nodup, ?_, ?_⟩
    · intro k
      rw [AList.mem_erase, valid.mem_keys, split, mem_inserted, same]
      rw [same] at out
      constructor
      · grind
      · grind
    · have bounded := valid.bounded
      rw [split] at bounded
      simp only [List.length_append, List.length_cons] at bounded ⊢
      omega

theorem remove_spec (valid : l.Valid key) (item : α) :
    ∃ r, l.remove key item = some r ∧ Removes key item l r := by
  unfold remove
  by_cases known : key item ∈ l.keys
  · obtain ⟨x, hx, same⟩ := List.mem_map.mp ((valid.mem_keys _).mp known)
    have found : l.lst.findIdx (fun x => key x = key item) < l.lst.length :=
      List.findIdx_lt_length_of_exists ⟨x, hx, by simpa using same⟩
    refine ⟨_, by rw [if_neg (not_not.mpr known), if_pos found], ?_⟩
    refine .removed (x := l.lst[l.lst.findIdx fun x => key x = key item]) ?_ ?_
    · rw [List.getElem_cons_drop, List.take_append_drop]
    · grind
  · exact ⟨_, if_pos known, .absent known⟩

theorem next_spec (valid : l.Valid key) (e : Event α) :
    ∃ l', next key l e = some l' ∧ l'.Valid key ∧ l'.max = l.max := by
  cases e with
  | put cmp item =>
    obtain ⟨l', put, puts⟩ := put_spec valid cmp item
    exact ⟨l', put, puts.valid valid, puts.max⟩
  | remove item =>
    obtain ⟨r, remove, removes⟩ := remove_spec valid item
    refine ⟨r.1, by rw [next, remove, Option.map_some], removes.valid valid, ?_⟩
    cases removes <;> rfl

theorem exec_valid (key : α → κ) (max : Nat) (es : List (Event α)) :
    ∃ l, exec (next key) (newPriorityList max) es = some l ∧ l.Valid key ∧ l.max = max := by
  induction es using List.reverseRecOn with
  | nil => exact ⟨_, rfl, valid_new max, rfl⟩
  | append_singleton es e ih =>
    obtain ⟨l, run, valid, hmax⟩ := ih
    obtain ⟨l', step, valid', hmax'⟩ := next_spec valid e
    exact ⟨l', exec_snoc_iff.mpr ⟨l, run, step⟩, valid', hmax'.trans hmax⟩

/-- After any calls with any comparisons the list and the map hold the same keys, each
once and no more than the capacity; and every further call returns, with the effect on
the order of the keys that one expects. -/
theorem keeps_representation (key : α → κ) (max : Nat) (es : List (Event α)) :
    ∃ l, exec (next key) (newPriorityList max) es = some l ∧
      (l.lst.map key).Nodup ∧ (∀ k, k ∈ l.keys ↔ k ∈ l.lst.map key) ∧ l.lst.length ≤ max ∧
      (∀ cmp item, ∃ l', l.put key cmp item = some l' ∧
        if key item ∈ l.keys then l'.lst.map key = l.lst.map key
        else ∃ front back, l.lst.map key = front ++ back ∧
          (l'.lst.map key = front ++ key item :: back ∨
            ∃ last, l'.lst.map key ++ [last] = front ++ key item :: back)) ∧
      ∀ item, ∃ r, l.remove key item = some r ∧
        r.1.lst.map key = (l.lst.map key).erase (key item) := by
  obtain ⟨l, run, valid, rfl⟩ := exec_valid key max es
  refine ⟨l, run, valid.nodup, valid.mem_keys, valid.bounded, ?_, ?_⟩
  · intro cmp item
    obtain ⟨l', put, puts⟩ := put_spec valid cmp item
    refine ⟨l', put, ?_⟩
    cases puts with
    | replaced known =>
      rw [if_pos known]
      exact replaceItem_keys item l.lst
    | @inserted front back _ new split _ _ _ =>
      rw [if_neg new]
      refine ⟨front.map key, back.map key, by rw [split, List.map_append], ?_⟩
      have bounded := valid.bounded
      rw [split, List.length_append] at bounded
      have short : (front.map key ++ key item :: back.map key).length ≤ l.max + 1 := by grind
      rw [List.map_take, List.map_append, List.map_cons]
      exact take_or_snoc short
  · intro item
    obtain ⟨r, remove, removes⟩ := remove_spec valid item
    refine ⟨r, remove, ?_⟩
    cases removes with
    | absent unknown =>
      rw [List.erase_of_not_mem]
      rwa [← valid.mem_keys]
    | @removed front back x split same =>
      have nodup := valid.nodup
      rw [split, List.map_append, List.map_cons, List.nodup_middle, List.nodup_cons] at nodup
      have out : key item ∉ front.map key := by grind
      rw [split, List.map_append, List.map_append, List.map_cons, same,
        List.erase_append_right _ out, List.erase_cons_head]

theorem mem_replaceItem {xs : List α} (nodup : (xs.map key).Nodup) {x : α}
    (h : x ∈ replaceItem key item xs) : x = item ∨ x ∈ xs ∧ key x ≠ key item := by
  induction xs with
  | nil => simp [replaceItem] at h
  | cons y rest ih =>
    rw [List.map_cons, List.nodup_cons] at nodup
    rw [replaceItem] at h
    split_ifs at h with same
    · rcases List.mem_cons.mp h with rfl | hx
      · exact Or.inl rfl
      · grind
    · rcases List.mem_cons.mp h with rfl | hx
      · exact Or.inr ⟨List.mem_cons_self, same⟩
      · grind

theorem item_mem_replaceItem {xs : List α} (h : key item ∈ xs.map key) :
    item ∈ replaceItem key item xs := by
  induction xs with
  | nil => simp at h
  | cons y rest ih =>
    rw [replaceItem]
    split_ifs with same
    · exact List.mem_cons_self
    · grind

theorem Puts.mem {cmp : Nat → α → Int} (valid : l.Valid key) (h : Puts key cmp item l l') {x : α}
    (hx : x ∈ l'.lst) : x = item ∨ x ∈ l.lst ∧ key x ≠ key item := by
  cases h with
  | replaced known => exact mem_replaceItem valid.nodup hx
  | @inserted front back _ new split _ _ _ =>
    have hx' : x ∈ front ++ item :: back := List.mem_of_mem_take hx
    have old : x ∈ l.lst → key x ≠ key item := by
      intro listed same
      exact new ((valid.mem_keys _).mpr (same ▸ List.mem_map_of_mem listed))
    rw [split] at old ⊢
    simp only [List.mem_append, List.mem_cons] at hx' old ⊢
    tauto

theorem Removes.mem {r : PriorityList κ α × Bool} (h : Removes key item l r) {x : α}
    (hx : x ∈ r.1.lst) : x ∈ l.lst := by
  cases h with
  | absent => exact hx
  | removed split _ => grind

def Agrees (key : α → κ) (l : PriorityList κ α) : Prop :=
  ∀ x ∈ l.lst, l.keys.lookup (key x) = some x

def Fresh (key : α → κ) (l : PriorityList κ α) (item : α) : Prop :=
  ∀ a, l.keys.lookup (key item) = some a → a = item

theorem Puts.agrees {cmp : Nat → α → Int} (valid : l.Valid key) (agrees : l.Agrees key)
    (fresh : l.Fresh key item) (h : Puts key cmp item l l') : l'.Agrees key := by
  intro x hx
  have origin := h.mem valid hx
  cases h with
  | replaced known =>
    rcases origin with rfl | ⟨hx, -⟩
    · obtain ⟨a, ha⟩ := Option.isSome_iff_exists.mp (AList.lookup_isSome.mpr known)
      exact fresh a ha ▸ ha
    · exact agrees x hx
  | inserted new split _ _ lookup =>
    rw [lookup, if_pos (List.mem_map_of_mem hx)]
    rcases origin with rfl | ⟨hx, ne⟩
    · exact if_pos rfl
    · rw [if_neg ne]
      exact agrees x hx

theorem Removes.agrees {r : PriorityList κ α × Bool} (valid : l.Valid key) (agrees : l.Agrees key)
    (h : Removes key item l r) : r.1.Agrees key := by
  intro x hx
  cases h with
  | absent => exact agrees x hx
  | @removed front back y split same =>
    have nodup := valid.nodup
    rw [split, List.map_append, List.map_cons, List.nodup_middle, List.nodup_cons,
      ← List.map_append, same] at nodup
    have ne : key x ≠ key item := fun eq => nodup.1 (eq ▸ List.mem_map_of_mem hx)
    rw [AList.lookup_erase_ne ne]
    refine agrees x ?_
    rw [split]
    simp only [List.mem_append, List.mem_cons] at hx ⊢
    tauto

theorem Puts.not_agrees {cmp : Nat → α → Int} (valid : l.Valid key)
    (stale : ¬ l.Fresh key item) (h : Puts key cmp item l l') : ¬ l'.Agrees key := by
  obtain ⟨a, ha, ne⟩ : ∃ a, l.keys.lookup (key item) = some a ∧ a ≠ item := by
    simpa [Fresh] using stale
  have known : key item ∈ l.keys := AList.lookup_isSome.mp (Option.isSome_iff_exists.mpr ⟨a, ha⟩)
  intro agrees
  cases h with
  | replaced =>
    have held := agrees item (item_mem_replaceItem ((valid.mem_keys _).mp known))
    exact ne (Option.some.inj (ha.symm.trans held))
  | inserted new => exact new known

theorem valid_of_exec {max : Nat} {es : List (Event α)}
    (run : exec (next key) (newPriorityList max) es = some l) : l.Valid key := by
  obtain ⟨l', run', valid, -⟩ := exec_valid key max es
  exact Option.some.inj (run.symm.trans run') ▸ valid

def lastPut (key : α → κ) (k : κ) : List (Event α) → Option α :=
  LastWrite.value fun
    | .put _ item => if key item = k then some (some item) else none
    | .remove _ => none

theorem mem_lastPut {max : Nat} {es : List (Event α)}
    (run : exec (next key) (newPriorityList max) es = some l) :
    ∀ x ∈ l.lst, lastPut key (key x) es = some x := by
  refine exec_history (P := fun es l => ∀ x ∈ l.lst, lastPut key (key x) es = some x)
    (by simp [newPriorityList]) ?_ run
  intro es l e l' run ih step x hx
  have valid := valid_of_exec run
  rw [lastPut, LastWrite.value_snoc]
  cases e with
  | put cmp item =>
    obtain ⟨_, put, puts⟩ := put_spec valid cmp item
    obtain rfl := Option.some.inj (step.symm.trans put)
    rcases puts.mem valid hx with rfl | ⟨hx, ne⟩
    · simp
    · simp only [if_neg (Ne.symm ne), Option.getD_none]
      exact ih x hx
  | remove item =>
    obtain ⟨r, remove, removes⟩ := remove_spec valid item
    rw [next, remove, Option.map_some] at step
    cases step
    exact ih x (removes.mem hx)

theorem agrees_iff_fresh {max : Nat} {es : List (Event α)} :
    (∀ pre post l, es = pre ++ post → exec (next key) (newPriorityList max) pre = some l →
      l.Agrees key) ↔
    Along (next key) (fun l e => ∀ cmp item, e = .put cmp item → l.Fresh key item)
      (newPriorityList max) es := by
  constructor
  · rintro agrees pre _ post l cut run cmp item rfl
    by_contra stale
    have valid := valid_of_exec run
    obtain ⟨l', put, puts⟩ := put_spec valid cmp item
    refine puts.not_agrees valid stale (agrees (pre ++ [.put cmp item]) post l' (by simp [cut]) ?_)
    exact exec_snoc_iff.mpr ⟨l, run, put⟩
  · rintro fresh pre post l rfl run
    -- validity goes along, as the agreement rests on it
    have both : l.Valid key ∧ l.Agrees key := by
      refine exec_invariant_along (P := fun l => l.Valid key ∧ l.Agrees key) ?_
        ⟨valid_new max, by simp [Agrees, newPriorityList]⟩ (along_append_left fresh) run
      rintro l e l' ⟨valid, agrees⟩ here step
      cases e with
      | put cmp item =>
        obtain ⟨_, put, puts⟩ := put_spec valid cmp item
        obtain rfl := Option.some.inj (step.symm.trans put)
        exact ⟨puts.valid valid, puts.agrees valid agrees (here cmp item rfl)⟩
      | remove item =>
        obtain ⟨r, remove, removes⟩ := remove_spec valid item
        rw [next, remove, Option.map_some] at step
        cases step
        exact ⟨removes.valid valid, removes.agrees valid agrees⟩
    exact both.2

end PriorityList
