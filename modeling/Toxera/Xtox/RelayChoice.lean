import Mathlib.Data.List.Nodup

/-!
# Choosing relays

`get3nodesFrom` of `xtox/node_pool.go`.
-/

namespace Xtox

structure ToxNode where
  ipaddr : String
  statusTcp : Bool
  deriving DecidableEq, Inhabited

def emptyNode : ToxNode := ⟨"", false⟩

/-- The loop on the numbers that `rand.Int` returns; nothing where it divides by zero. -/
def pickLoop (srcnodes : List ToxNode) (currips : List String) : List Nat → List Nat →
    Option (List Nat)
  | [], idxes => some idxes
  | r :: draws, idxes =>
    if srcnodes.length = 0 then none
    else
      let idx := r % srcnodes.length
      let node := srcnodes.getD idx emptyNode
      if idx ∉ idxes ∧ node.ipaddr ∉ currips ∧ node.statusTcp = true then
        if (idxes ++ [idx]).length = 3 then some (idxes ++ [idx])
        else pickLoop srcnodes currips draws (idxes ++ [idx])
      else pickLoop srcnodes currips draws idxes

/-- The array that is returned, with the positions in the order in which the map gives them. -/
def fill (srcnodes : List ToxNode) (order : List Nat) : List ToxNode :=
  order.map (srcnodes.getD · emptyNode) ++ List.replicate (3 - order.length) emptyNode

def Get3nodesFrom (srcnodes : List ToxNode) (draws : List Nat) (nodes : List ToxNode) : Prop :=
  draws.length = srcnodes.length * 3 ∧ ∃ idxes order, pickLoop srcnodes [] draws [] = some idxes ∧
    order.Perm idxes ∧ nodes = fill srcnodes order

variable {srcnodes nodes : List ToxNode} {draws idxes order : List Nat}

structure Picked (srcnodes : List ToxNode) (idxes : List Nat) : Prop where
  nodup : idxes.Nodup
  relay : ∀ k ∈ idxes, k < srcnodes.length ∧ (srcnodes.getD k emptyNode).statusTcp = true
  few : idxes.length ≤ 3

theorem Picked.nil : Picked srcnodes [] := ⟨List.nodup_nil, by simp, by simp⟩

theorem Picked.add (h : Picked srcnodes idxes) {k : Nat} (new : k ∉ idxes)
    (inside : k < srcnodes.length) (relay : (srcnodes.getD k emptyNode).statusTcp = true)
    (room : idxes.length < 3) : Picked srcnodes (idxes ++ [k]) where
  nodup := List.Nodup.append h.nodup (List.nodup_singleton k) (by simpa using new)
  relay j mem := by
    rcases List.mem_append.mp mem with old | last
    · exact h.relay j old
    · rw [List.mem_singleton.mp last]
      exact ⟨inside, relay⟩
  few := by rw [List.length_append]; exact room

theorem pickLoop_picked (nonempty : draws ≠ [] → srcnodes ≠ []) (h : Picked srcnodes idxes)
    (room : idxes.length < 3) : ∃ idxes', pickLoop srcnodes [] draws idxes = some idxes' ∧
      Picked srcnodes idxes' ∧ idxes <+: idxes' := by
  induction draws generalizing idxes with
  | nil => exact ⟨idxes, rfl, h, List.prefix_rfl⟩
  | cons r draws ih =>
    have some_ : srcnodes.length ≠ 0 := by simpa using nonempty
    have inside := Nat.mod_lt r (Nat.pos_of_ne_zero some_)
    have rest : draws ≠ [] → srcnodes ≠ [] := fun _ => nonempty (by simp)
    rw [pickLoop, if_neg some_]
    dsimp only
    split_ifs with kept full
    · exact ⟨_, rfl, h.add kept.1 inside kept.2.2 room, List.prefix_append ..⟩
    · have room' : (idxes ++ [r % srcnodes.length]).length < 3 := by
        rw [List.length_append, List.length_singleton] at full ⊢
        omega
      obtain ⟨all, eq, picked, longer⟩ := ih rest (h.add kept.1 inside kept.2.2 room) room'
      exact ⟨all, eq, picked, (List.prefix_append ..).trans longer⟩
    · exact ih rest h room

theorem exists_pickLoop (len : draws.length = srcnodes.length * 3) :
    ∃ idxes, pickLoop srcnodes [] draws [] = some idxes ∧ Picked srcnodes idxes := by
  have nonempty : draws ≠ [] → srcnodes ≠ [] := by
    rintro more rfl
    exact more (List.length_eq_zero_iff.mp len)
  obtain ⟨idxes, eq, picked, -⟩ := pickLoop_picked nonempty .nil (by decide)
  exact ⟨idxes, eq, picked⟩

theorem Picked.perm (h : Picked srcnodes idxes) (same : order.Perm idxes) :
    Picked srcnodes order :=
  ⟨same.nodup_iff.mpr h.nodup, fun k mem => h.relay k (same.mem_iff.mp mem),
    same.length_eq ▸ h.few⟩

theorem filter_fill (h : Picked srcnodes order) :
    (fill srcnodes order).filter (· ≠ emptyNode) = order.map (srcnodes.getD · emptyNode) := by
  have full : ∀ n ∈ order.map (srcnodes.getD · emptyNode), n ≠ emptyNode := by
    intro n mem same
    obtain ⟨k, at_, rfl⟩ := List.mem_map.mp mem
    have relay := (h.relay k at_).2
    rw [same] at relay
    cases relay
  rw [fill, List.filter_append, List.filter_eq_self.mpr (by simpa using full),
    List.filter_eq_nil_iff.mpr (by simp), List.append_nil]

theorem pickLoop_keep {k : Nat} (inside : k < srcnodes.length) (new : k ∉ idxes)
    (relay : (srcnodes.getD k emptyNode).statusTcp = true) (room : idxes.length < 2) :
    pickLoop srcnodes [] (k :: draws) idxes = pickLoop srcnodes [] draws (idxes ++ [k]) := by
  rw [pickLoop, if_neg (by omega)]
  simp only [Nat.mod_eq_of_lt inside]
  rw [if_pos ⟨new, List.not_mem_nil, relay⟩, if_neg]
  rw [List.length_append, List.length_singleton]
  omega

theorem pickLoop_two {i j : Nat} (hi : i < srcnodes.length) (hj : j < srcnodes.length)
    (ri : (srcnodes.getD i emptyNode).statusTcp = true)
    (rj : (srcnodes.getD j emptyNode).statusTcp = true) (ne : i ≠ j) :
    ∃ idxes, pickLoop srcnodes [] (i :: j :: List.replicate (srcnodes.length * 3 - 2) i) [] =
      some idxes ∧ Picked srcnodes idxes ∧ [i, j] <+: idxes := by
  have second : j ∉ [i] := by simpa using ne.symm
  have one : Picked srcnodes [i] := Picked.nil.add List.not_mem_nil hi ri (by simp)
  rw [pickLoop_keep hi List.not_mem_nil ri (by simp), List.nil_append,
    pickLoop_keep hj second rj (by simp)]
  exact pickLoop_picked (fun _ => List.ne_nil_of_length_pos (by omega))
    (one.add second hj rj (by simp)) (by simp)

/-- The positions are always different and those of relays. -/
theorem get3nodesFrom_distinct_iff (srcnodes : List ToxNode) :
    (∀ draws, draws.length = srcnodes.length * 3 → ∃ nodes, Get3nodesFrom srcnodes draws nodes) ∧
    (∀ draws nodes, Get3nodesFrom srcnodes draws nodes → ∃ order : List Nat, order.Nodup ∧
      (∀ k ∈ order, k < srcnodes.length ∧ (srcnodes.getD k emptyNode).statusTcp = true) ∧
      nodes.filter (· ≠ emptyNode) = order.map (srcnodes.getD · emptyNode)) ∧
    ((∀ draws nodes, Get3nodesFrom srcnodes draws nodes →
        ((nodes.filter (· ≠ emptyNode)).map (·.ipaddr)).Nodup) ↔
      ∀ i j, i < srcnodes.length → j < srcnodes.length →
        (srcnodes.getD i emptyNode).statusTcp = true →
        (srcnodes.getD j emptyNode).statusTcp = true →
        (srcnodes.getD i emptyNode).ipaddr = (srcnodes.getD j emptyNode).ipaddr → i = j) := by
  have returned : ∀ draws nodes, Get3nodesFrom srcnodes draws nodes →
      ∃ order, Picked srcnodes order ∧
        nodes.filter (· ≠ emptyNode) = order.map (srcnodes.getD · emptyNode) := by
    rintro draws nodes ⟨len, idxes, order, eq, perm, rfl⟩
    obtain ⟨_, eq', picked⟩ := exists_pickLoop len
    cases eq.symm.trans eq'
    exact ⟨order, picked.perm perm, filter_fill (picked.perm perm)⟩
  refine ⟨fun draws len => ?_, fun draws nodes h => ?_, fun all i j hi hj ri rj same => ?_,
    fun apart draws nodes h => ?_⟩
  · obtain ⟨idxes, eq, -⟩ := exists_pickLoop len
    exact ⟨_, len, idxes, idxes, eq, .rfl, rfl⟩
  · obtain ⟨order, picked, eq⟩ := returned draws nodes h
    exact ⟨order, picked.nodup, picked.relay, eq⟩
  · by_contra ne
    obtain ⟨idxes, eq, picked, rest, rfl⟩ := pickLoop_two hi hj ri rj ne
    have addresses := all _ _ ⟨by simp; omega, _, _, eq, .rfl, rfl⟩
    rw [filter_fill picked] at addresses
    exact (List.nodup_cons.mp addresses).1 (List.mem_cons.mpr (.inl same))
  · obtain ⟨order, picked, eq⟩ := returned draws nodes h
    rw [eq, List.map_map]
    refine List.Nodup.map_on (fun i mi j mj same => ?_) picked.nodup
    exact apart i j (picked.relay i mi).1 (picked.relay j mj).1 (picked.relay i mi).2
      (picked.relay j mj).2 same

/-- Two relays of one address at two positions. -/
theorem shared_address_returned : ∃ nodes,
    Get3nodesFrom [⟨"10.0.0.1", true⟩, ⟨"10.0.0.1", true⟩] [0, 1, 0, 0, 0, 0] nodes ∧
    ¬ ((nodes.filter (· ≠ emptyNode)).map (·.ipaddr)).Nodup :=
  ⟨_, ⟨rfl, [0, 1], [0, 1], by decide, .rfl, rfl⟩, by decide⟩

end Xtox
