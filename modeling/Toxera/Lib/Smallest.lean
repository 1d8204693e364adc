import Mathlib.Data.Finset.Card

/-!
# The smallest elements of a set

A list of bounded length that holds the elements of a set with the smallest measures, in
increasing order.
-/

universe u v

namespace Smallest
variable {α : Type u} {β : Type v} [LinearOrder β] {f : α → β} {n : Nat}

/-- The list holds the `n` elements of the set with the smallest measures, or all of
them, in increasing order. -/
structure Holds (f : α → β) (n : Nat) (s : Finset α) (l : List α) : Prop where
  increasing : l.Pairwise fun a b => f a < f b
  mem : ∀ a ∈ l, a ∈ s
  length : l.length = min n s.card
  below : ∀ a ∈ s, a ∉ l → ∀ b ∈ l, f b < f a

theorem nodup_of_increasing {l : List α} (h : l.Pairwise fun a b => f a < f b) : l.Nodup := by
  refine h.imp ?_
  rintro a b less rfl
  exact lt_irrefl _ less

theorem Holds.empty : Holds f n ∅ [] :=
  ⟨List.Pairwise.nil, by simp, by simp, by simp⟩

theorem Holds.subset {s : Finset α} {l l' : List α} (h : Holds f n s l) (h' : Holds f n s l') :
    l ⊆ l' := by
  classical
  intro a ha
  by_contra out
  -- the lists are equally long, so the second has an element that the first misses
  have lengths : l.toFinset.card = l'.toFinset.card := by
    rw [List.toFinset_card_of_nodup (nodup_of_increasing h.increasing),
      List.toFinset_card_of_nodup (nodup_of_increasing h'.increasing), h.length, h'.length]
  obtain ⟨b, hb, missing⟩ : ∃ b ∈ l', b ∉ l := by
    by_contra none
    push Not at none
    have sub : l'.toFinset ⊆ l.toFinset := by
      intro b hb
      exact List.mem_toFinset.mpr (none b (List.mem_toFinset.mp hb))
    have same := Finset.eq_of_subset_of_card_le sub lengths.le
    exact out (List.mem_toFinset.mp (same ▸ List.mem_toFinset.mpr ha))
  have below := h.below b (h'.mem b hb) missing a ha
  have above := h'.below a (h.mem a ha) out b hb
  exact lt_asymm below above

theorem Holds.unique {s : Finset α} {l l' : List α} (h : Holds f n s l) (h' : Holds f n s l') :
    l = l' := by
  refine List.Perm.eq_of_pairwise ?_ h.increasing h'.increasing ?_
  · grind
  · refine (List.perm_ext_iff_of_nodup (nodup_of_increasing h.increasing)
      (nodup_of_increasing h'.increasing)).mpr ?_
    intro a
    exact ⟨fun ha => h.subset h' ha, fun ha => h'.subset h ha⟩

section Insert
variable {s : Finset α} {front back : List α} {a : α}

theorem insert_increasing (h : (front ++ back).Pairwise fun a b => f a < f b)
    (before : ∀ b ∈ front, f b < f a) (after : ∀ b ∈ back, f a < f b) :
    (front ++ a :: back).Pairwise fun a b => f a < f b := by
  obtain ⟨hfront, hback, across⟩ := List.pairwise_append.mp h
  refine List.pairwise_append.mpr ⟨hfront, List.pairwise_cons.mpr ⟨after, hback⟩, ?_⟩
  intro b hb c hc
  rcases List.mem_cons.mp hc with rfl | hc
  · exact before b hb
  · exact across b hb c hc

theorem take_below_drop {l : List α} (h : l.Pairwise fun a b => f a < f b) {b c : α}
    (kept : b ∈ l.take n) (dropped : c ∈ l.drop n) : f b < f c := by
  rw [← List.take_append_drop n l] at h
  exact (List.pairwise_append.mp h).2.2 b kept c dropped

theorem mem_drop_of_not_mem_take {l : List α} {b : α} (hb : b ∈ l) (out : b ∉ l.take n) :
    b ∈ l.drop n := by
  rw [← List.take_append_drop n l] at hb
  exact (List.mem_append.mp hb).resolve_left out

theorem Holds.full {l : List α} (h : Holds f n s l) {b : α} (hb : b ∈ s) (out : b ∉ l) :
    l.length = n := by
  classical
  have fewer : l.length < s.card := by
    rw [← List.toFinset_card_of_nodup (nodup_of_increasing h.increasing)]
    refine Finset.card_lt_card ⟨?_, ?_⟩
    · intro c hc
      exact h.mem c (List.mem_toFinset.mp hc)
    · intro sub
      exact out (List.mem_toFinset.mp (sub hb))
  have := h.length
  omega

theorem Holds.insert [DecidableEq α] (h : Holds f n s (front ++ back)) (new : a ∉ front ++ back)
    (before : ∀ b ∈ front, f b < f a) (after : ∀ b ∈ back, f a < f b) :
    Holds f n (insert a s) ((front ++ a :: back).take n) := by
  have increasing := insert_increasing h.increasing before after
  have members : ∀ b, b ∈ front ++ a :: back ↔ b = a ∨ b ∈ front ++ back := by grind
  have longer : (front ++ a :: back).length = (front ++ back).length + 1 := by grind
  refine ⟨increasing.sublist (List.take_sublist _ _), ?_, ?_, ?_⟩
  · intro b hb
    rcases (members b).mp (List.mem_of_mem_take hb) with rfl | hb
    · exact Finset.mem_insert_self ..
    · exact Finset.mem_insert_of_mem (h.mem b hb)
  · have length := h.length
    rw [List.length_take, longer]
    by_cases old : a ∈ s
    · have full := h.full old new
      rw [Finset.insert_eq_of_mem old]
      omega
    · rw [Finset.card_insert_of_notMem old]
      omega
  · intro c hc out b hb
    by_cases listed : c ∈ front ++ a :: back
    · exact take_below_drop increasing hb (mem_drop_of_not_mem_take listed out)
    · -- the list was full, and what is cut off now lies between the two
      have hca : c ≠ a := fun eq => listed ((members c).mpr (Or.inl eq))
      have missing : c ∉ front ++ back := fun hc => listed ((members c).mpr (Or.inr hc))
      have old := Finset.mem_of_mem_insert_of_ne hc hca
      have full := h.full old missing
      rcases (members b).mp (List.mem_of_mem_take hb) with rfl | hb'
      · obtain ⟨z, hz⟩ : ∃ z, z ∈ (front ++ b :: back).drop n :=
          List.exists_mem_of_ne_nil _ (by
            rw [ne_eq, List.drop_eq_nil_iff]
            omega)
        have less := take_below_drop increasing hb hz
        have hzb : z ≠ b := by
          rintro rfl
          exact lt_irrefl _ less
        have hz' := ((members z).mp (List.mem_of_mem_drop hz)).resolve_left hzb
        exact less.trans (h.below c old missing z hz')
      · exact h.below c old missing b hb'

end Insert

end Smallest
