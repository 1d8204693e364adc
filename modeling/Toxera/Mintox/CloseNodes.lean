import Toxera.Mintox.SendNodes

/-!
# Which nodes answer a request

A request for nodes names a key, and the answer of `sendnodes_ipv6` is drawn at random
from all nodes known, whatever the key.
-/

namespace PriorityList

universe u v
variable {κ : Type u} {α : Type v} {key : α → κ} {k : Nat}

theorem selectRandn_few {l : PriorityList κ α} (draw : Draws k) (few : l.lst.length ≤ k) :
    l.selectRandn draw = l.lst := by
  simp only [selectRandn, List.take_of_length_le few, List.drop_of_length_le few, replaceDrawn,
    ite_self]

def drawOnce (j : Fin k) : Draws k
  | 0 => ⟨j, Nat.lt_of_lt_of_le j.isLt (Nat.le_add_left k 0)⟩
  | x + 1 => ⟨k, Nat.lt_add_of_pos_left (Nat.succ_pos x)⟩

theorem replaceDrawn_drawOnce (j : Fin k) (x : Nat) (slts rest : List α) :
    replaceDrawn (drawOnce j) (x + 1) slts rest = slts := by
  induction rest generalizing x with
  | nil => rfl
  | cons item rest ih => grind [drawOnce, replaceDrawn]

theorem selectRandn_drawOnce {l : PriorityList κ α} {first rest : List α} {item : α}
    (split : l.lst = first ++ item :: rest) (len : first.length = k) (j : Fin k) :
    l.selectRandn (drawOnce j) = first.set j item := by
  have start : (first ++ item :: rest).take k = first := List.take_left' len
  have later : (first ++ item :: rest).drop k = item :: rest := List.drop_left' len
  simp only [selectRandn, split, start, later]
  rw [if_neg (by omega), replaceDrawn, replaceDrawn_drawOnce]
  exact if_pos j.isLt

variable [DecidableEq κ]

theorem Puts.perm {cmp : Nat → α → Int} {l l' : PriorityList κ α} {item : α}
    (valid : l.Valid key) (h : Puts key cmp item l l') (new : key item ∉ l.lst.map key)
    (room : l.lst.length < l.max) : l'.lst.Perm (item :: l.lst) := by
  cases h with
  | replaced known => exact absurd ((valid.mem_keys _).mp known) new
  | @inserted front back _ _ split _ _ _ =>
    have fits : (front ++ item :: back).length ≤ l.max := by grind
    show ((front ++ item :: back).take l.max).Perm _
    rw [List.take_of_length_le fits, split]
    exact List.perm_middle

end PriorityList

namespace Dht

open CryptoCore Exec PriorityList Smallest

universe u
variable {Addr : Type u}

theorem putItems_perm (clock : CryptoKey → Nat → Time)
    (clients : List (ClientData Addr)) {tmplst : PriorityList CryptoKey (ClientData Addr)}
    (valid : tmplst.Valid ClientData.pubkey)
    (nodup : ((clients ++ tmplst.lst).map ClientData.pubkey).Nodup)
    (room : clients.length + tmplst.lst.length ≤ tmplst.max) :
    ∃ l, (clients.map PLItem.clientData).foldlM (putItem clock) tmplst = some l ∧
      l.lst.Perm (clients ++ tmplst.lst) := by
  induction clients generalizing tmplst with
  | nil => exact ⟨tmplst, rfl, List.Perm.refl _⟩
  | cons c clients ih =>
    obtain ⟨l, put, puts⟩ := put_spec valid (fun i x => c.compare x (clock c.pubkey i)) c
    rw [List.cons_append, List.map_cons, List.nodup_cons] at nodup
    have new : c.pubkey ∉ tmplst.lst.map ClientData.pubkey := by grind
    rw [List.length_cons] at room
    have perm := puts.perm valid new (by omega)
    have perm' : (clients ++ l.lst).Perm (c :: (clients ++ tmplst.lst)) :=
      (perm.append_left clients).trans List.perm_middle
    obtain ⟨l', fold, permFold⟩ := ih (puts.valid valid)
      ((perm'.map ClientData.pubkey).nodup_iff.mpr (List.nodup_cons.mpr nodup))
      (by rw [perm.length_eq, puts.max, List.length_cons]; omega)
    refine ⟨l', ?_, permFold.trans perm'⟩
    rw [List.map_cons, List.foldlM_cons, putItem_clientData, put]
    exact fold

/-- The answer to a request for the nodes near a key: as many known nodes as fit in a packet,
none farther from the key than a node left out. -/
structure ClosestAnswer (d : DHT Addr) (s : CryptoKey) (nodes : List (CloseNode Addr)) : Prop where
  known : ∀ node ∈ nodes, ∃ c ∈ d.closeClientList.lst, node = ⟨c.assoc.addr, c.pubkey⟩
  closest : ∃ l, Holds (distance s) maxSentNodes
      (d.closeClientList.lst.map ClientData.pubkey).toFinset l ∧
    (nodes.map CloseNode.pubkey).Perm l

theorem exists_holds (s : CryptoKey) (n : Nat) (keys : List CryptoKey) :
    ∃ l, Holds (distance s) n keys.toFinset l := by
  have same : ∀ node ∈ keys.map fun k => (⟨k, (), s⟩ : NodeFormat Unit), node.cmppk = s := by grind
  obtain ⟨l, -, holds⟩ := putNodes_holds n same
  rw [List.map_map, show NodeFormat.pubkey ∘ (fun k => ⟨k, (), s⟩) = id from rfl, List.map_id]
    at holds
  exact ⟨_, holds⟩

theorem Holds.perm_of_few {s : CryptoKey} {n : Nat} {keys l : List CryptoKey}
    (holds : Holds (distance s) n keys.toFinset l) (nodup : keys.Nodup) (few : keys.length ≤ n) :
    keys.Perm l := by
  have distinct := nodup_of_increasing holds.increasing
  have size : keys.toFinset.card ≤ l.toFinset.card := by
    rw [List.toFinset_card_of_nodup distinct, holds.length, List.toFinset_card_of_nodup nodup,
      Nat.min_eq_right few]
  have same : l.toFinset = keys.toFinset := by
    refine Finset.eq_of_subset_of_card_le ?_ size
    intro k hk
    exact holds.mem k (List.mem_toFinset.mp hk)
  exact (List.perm_of_nodup_nodup_toFinset_eq distinct nodup same).symm

section
variable {d : DHT Addr} (valid : d.closeClientList.Valid ClientData.pubkey)
  (bounded : d.closeClientList.lst.length ≤ 1000) (alone : d.friendsList.lst = [])

include valid bounded alone

theorem getCloseNodes_drawn (pubkey : CryptoKey) (clock : CryptoKey → Nat → Time) :
    ∃ tmplst : PriorityList CryptoKey (ClientData Addr),
      tmplst.lst.Perm d.closeClientList.lst ∧ ∀ draw, getCloseNodes d pubkey clock draw =
        some ((tmplst.selectRandn draw).map fun clidat => ⟨clidat.assoc.addr, clidat.pubkey⟩) := by
  obtain ⟨tmplst, copied, perm⟩ := putItems_perm clock d.closeClientList.lst (valid_new 1000)
    (by simpa [newPriorityList] using valid.nodup) (by simpa [newPriorityList] using bounded)
  have free : ¬ Populated d := by
    rintro ⟨p, hp, -⟩
    rw [alone] at hp
    exact List.not_mem_nil hp
  refine ⟨tmplst, ?_, fun draw => getCloseNodes_eq free pubkey draw copied⟩
  simpa [newPriorityList] using perm

theorem closestAnswer_of_few (few : d.closeClientList.lst.length ≤ maxSentNodes)
    (pubkey s : CryptoKey) (clock : CryptoKey → Nat → Time) (draw : Draws maxSentNodes) :
    ∃ nodes, getCloseNodes d pubkey clock draw = some nodes ∧ ClosestAnswer d s nodes := by
  obtain ⟨tmplst, perm, answer⟩ := getCloseNodes_drawn valid bounded alone pubkey clock
  rw [← perm.length_eq] at few
  refine ⟨_, answer draw, ?_, ?_⟩
  · intro node hnode
    rw [selectRandn_few draw few] at hnode
    obtain ⟨c, hc, rfl⟩ := List.mem_map.mp hnode
    exact ⟨c, perm.mem_iff.mp hc, rfl⟩
  · obtain ⟨l, holds⟩ := exists_holds s maxSentNodes
      (d.closeClientList.lst.map ClientData.pubkey)
    refine ⟨l, holds, ?_⟩
    rw [selectRandn_few draw few, List.map_map]
    have keys : (tmplst.lst.map (CloseNode.pubkey ∘ fun clidat : ClientData Addr =>
        ⟨clidat.assoc.addr, clidat.pubkey⟩)).Perm (d.closeClientList.lst.map ClientData.pubkey) :=
      perm.map ClientData.pubkey
    rw [perm.length_eq] at few
    exact keys.trans (Holds.perm_of_few holds valid.nodup (by simpa using few))

theorem exists_wrong_draw (many : maxSentNodes < d.closeClientList.lst.length)
    (pubkey s : CryptoKey) (clock : CryptoKey → Nat → Time) :
    ∃ draw nodes, getCloseNodes d pubkey clock draw = some nodes ∧ ¬ ClosestAnswer d s nodes := by
  obtain ⟨tmplst, perm, answer⟩ := getCloseNodes_drawn valid bounded alone pubkey clock
  have nodup := (perm.map ClientData.pubkey).nodup_iff.mpr valid.nodup
  obtain ⟨a, b, c, e, item, rest, split⟩ : ∃ a b c e item rest,
      tmplst.lst = [a, b, c, e] ++ item :: rest := by
    rw [← perm.length_eq] at many
    match h : tmplst.lst, many with
    | a :: b :: c :: e :: item :: rest, _ => exact ⟨a, b, c, e, item, rest, rfl⟩
  rw [split] at nodup
  have first := selectRandn_drawOnce (k := maxSentNodes) split rfl ⟨0, by decide⟩
  have second := selectRandn_drawOnce (k := maxSentNodes) split rfl ⟨1, by decide⟩
  by_contra right
  push Not at right
  obtain ⟨l, holds, keys⟩ := (right _ _ (answer (drawOnce ⟨0, by decide⟩))).closest
  obtain ⟨l', holds', keys'⟩ := (right _ _ (answer (drawOnce ⟨1, by decide⟩))).closest
  obtain rfl := holds.unique holds'
  rw [first] at keys
  rw [second] at keys'
  -- the first item is in the second answer only
  have moved : a.pubkey ∈ [item.pubkey, b.pubkey, c.pubkey, e.pubkey] := by
    refine (keys'.trans keys.symm).mem_iff.mp ?_
    simp
  simp only [List.cons_append, List.nil_append, List.map_cons, List.nodup_cons, List.mem_cons,
    not_or] at nodup
  simp only [List.mem_cons, List.not_mem_nil, or_false] at moved
  obtain ⟨⟨ab, ac, ae, ai, -⟩, -⟩ := nodup
  rcases moved with same | same | same | same
  · exact ai same
  · exact ab same
  · exact ac same
  · exact ae same

end

/-- A request is answered with the known nodes closest to the key it names, for every draw,
exactly when at most four nodes are known. -/
theorem get_nodes_answer_iff (d : DHT UDPAddr)
    (valid : d.closeClientList.Valid ClientData.pubkey)
    (bounded : d.closeClientList.lst.length ≤ 1000) (alone : d.friendsList.lst = [])
    (requester s : CryptoKey) (sbdata : Bytes) :
    (∀ clock draw, ∃ nodes, getCloseNodes d requester clock draw = some nodes ∧
      ClosestAnswer d s nodes ∧
      sendnodesIpv6 d requester s sbdata clock draw =
        some (if nodes.length ≤ 0 then none else some (sendNodesBody nodes sbdata))) ↔
    d.closeClientList.lst.length ≤ maxSentNodes := by
  constructor
  · intro right
    by_contra many
    obtain ⟨draw, nodes, answer, wrong⟩ := exists_wrong_draw valid bounded alone
      (not_le.mp many) requester s fun _ _ => 0
    obtain ⟨nodes', answer', closest, -⟩ := right (fun _ _ => 0) draw
    obtain rfl := Option.some.inj (answer.symm.trans answer')
    exact wrong closest
  · intro few clock draw
    obtain ⟨nodes, answer, closest⟩ :=
      closestAnswer_of_few valid bounded alone few requester s clock draw
    refine ⟨nodes, answer, closest, ?_⟩
    rw [sendnodesIpv6, answer, Option.map_some]

def receivedNodes (keys : List UInt8) : List (Received UDPAddr) :=
  keys.map fun k => ⟨keyOf k, ⟨⟨[192, 0, 2, k], by simp⟩, 33445⟩, 0, 0, 0, fun _ => 0⟩

theorem two_known_nodes_answer : ∃ d,
    handleSendNodes (newDHT (keyOf 0)) (receivedNodes [1, 2]) = some d ∧
    ∀ clock draw, ∃ nodes, getCloseNodes d (keyOf 9) clock draw = some nodes ∧
      ClosestAnswer d (keyOf 1) nodes ∧
      sendnodesIpv6 d (keyOf 9) (keyOf 1) [] clock draw =
        some (if nodes.length ≤ 0 then none else some (sendNodesBody nodes [])) := by
  obtain ⟨d, run, sound, same, -⟩ := (Sound.new (keyOf 0)).handleSendNodes (receivedNodes [1, 2])
  have count : (handleSendNodes (newDHT (keyOf 0)) (receivedNodes [1, 2])).map
      (fun d => d.closeClientList.lst.length) = some 2 := by decide +kernel
  rw [run, Option.map_some, Option.some.injEq] at count
  have alone : d.friendsList.lst = [] := by rw [same]; rfl
  refine ⟨d, run, (get_nodes_answer_iff d sound.clients ?_ alone (keyOf 9) (keyOf 1) []).mpr ?_⟩
  · rw [count]
    decide
  · rw [count]
    decide

/-- Five nodes are known, the first of them is searched for and is not in the answer. -/
theorem searched_node_left_out : ∃ d,
    handleSendNodes (newDHT (keyOf 0)) (receivedNodes [1, 2, 3, 4, 5]) = some d ∧
    ∃ nodes, getCloseNodes d (keyOf 9) (fun _ _ => 0) (drawOnce ⟨0, by decide⟩) = some nodes ∧
      nodes.map CloseNode.pubkey = [keyOf 5, keyOf 2, keyOf 3, keyOf 4] ∧
      ¬ ClosestAnswer d (keyOf 1) nodes := by
  have run : (handleSendNodes (newDHT (keyOf 0)) (receivedNodes [1, 2, 3, 4, 5])).map (fun d =>
      (d.closeClientList.lst.map ClientData.pubkey,
        (getCloseNodes d (keyOf 9) (fun _ _ => 0) (drawOnce ⟨0, by decide⟩)).map
          fun nodes => nodes.map CloseNode.pubkey)) =
      some ([keyOf 1, keyOf 2, keyOf 3, keyOf 4, keyOf 5],
        some [keyOf 5, keyOf 2, keyOf 3, keyOf 4]) := by
    decide +kernel
  obtain ⟨d, reach, values⟩ := Option.map_eq_some_iff.mp run
  rw [Prod.mk.injEq] at values
  obtain ⟨nodes, answer, keys⟩ := Option.map_eq_some_iff.mp values.2
  refine ⟨d, reach, nodes, answer, keys, ?_⟩
  rintro ⟨-, l, holds, perm⟩
  rw [values.1] at holds
  rw [keys] at perm
  have missing : keyOf 1 ∉ l := fun h => absurd (perm.mem_iff.mpr h) (by decide)
  have nearer := holds.below (keyOf 1) (by decide) missing (keyOf 2) (perm.mem_iff.mp (by decide))
  have zero : distance (keyOf 1) (keyOf 1) = 0 := by decide +kernel
  rw [zero] at nearer
  exact Nat.not_lt_zero _ nearer

end Dht
