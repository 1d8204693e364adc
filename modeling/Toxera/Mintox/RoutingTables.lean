import Toxera.Lib.Pointwise
import Toxera.Mintox.TcpServer

/-!
# Consistency of the three routing tables

One connection keeps its peers by key, by connection id, and as a set of used ids shifted
by the sixteen reserved ports.
-/

namespace TcpServer

open CryptoCore Pointwise

theorem initConnids_fold (n : Nat) (hn : n ≤ 256) (k : UInt8) :
    (List.range n).foldl (fun ids i => Function.update ids (UInt8.ofNat i) (some false))
      (fun _ => none) k = if k.toNat < n then some false else none := by
  induction n with
  | zero => simp
  | succ n ih =>
    rw [List.range_succ, List.foldl_append, List.foldl_cons, List.foldl_nil]
    have hval : (UInt8.ofNat n).toNat = n := by simp; omega
    by_cases hk : k = UInt8.ofNat n
    · rw [hk, Function.update_self, hval, if_pos (by omega)]
    · rw [Function.update_of_ne hk, ih (by omega)]
      have hne : k.toNat ≠ n := fun h => hk (UInt8.toNat_inj.mp (h.trans hval.symm))
      by_cases hlt : k.toNat < n
      · rw [if_pos hlt, if_pos (by omega)]
      · rw [if_neg hlt, if_neg (by omega)]

theorem initConnids_apply (k : UInt8) :
    initConnids k = if k.toNat < 240 then some false else none :=
  initConnids_fold 240 (by decide) k

theorem mem_connidKeys (k : UInt8) : k ∈ connidKeys ↔ k.toNat < 240 := by
  simp only [connidKeys, numClientConnections, List.mem_map, List.mem_range]
  constructor
  · rintro ⟨n, hn, rfl⟩
    simp
    omega
  · intro h
    exact ⟨k.toNat, h, by simp⟩

theorem nextConnid_cases (ids : UInt8 → Option Bool) (order : List UInt8) :
    (∃ k ∈ order, ids k = some false ∧
      nextConnid ids order = (Function.update ids k (some true), k + numReservedPorts)) ∨
    ((∀ k ∈ order, ids k ≠ some false) ∧ nextConnid ids order = (ids, 0)) := by
  induction order with
  | nil => exact Or.inr ⟨by simp, rfl⟩
  | cons k rest ih =>
    by_cases free : ids k = some false
    · exact Or.inl ⟨k, by simp, free, by simp [nextConnid, free]⟩
    · rcases ih with ⟨m, hm, hfree, heq⟩ | ⟨taken, heq⟩
      · grind [nextConnid]
      · exact Or.inr ⟨by simpa using ⟨free, taken⟩, by simp [nextConnid, free, heq]⟩

theorem offset_toNat {k : UInt8} (hk : k.toNat < 240) :
    (k + numReservedPorts).toNat = k.toNat + 16 := by
  rw [UInt8.toNat_add]
  change (k.toNat + 16) % 256 = _
  omega

theorem offset_ne_zero {k : UInt8} (hlt : k.toNat < 240) : k + numReservedPorts ≠ 0 := by
  intro hzero
  have := offset_toNat hlt
  rw [hzero] at this
  simp at this

theorem offset_sub (k : UInt8) : k + numReservedPorts - numReservedPorts = k :=
  UInt8.add_sub_cancel k numReservedPorts

theorem sub_offset (c : UInt8) : c - numReservedPorts + numReservedPorts = c :=
  UInt8.sub_add_cancel c numReservedPorts

/-- The pointers in the two maps agree with the objects, ids are outside the reserved range, and
`ConnIds` marks exactly the ids in use. -/
structure RoutingTables.Consistent (t : RoutingTables) : Prop where
  info : ∀ pk p, t.connInfos pk = some p →
    (t.pcis p).pubkey = pk ∧ t.connInfos2 (t.pcis p).connid = some p
  info2 : ∀ c p, t.connInfos2 c = some p →
    t.connInfos (t.pcis p).pubkey = some p ∧ (t.pcis p).connid = c
  range : ∀ c p, t.connInfos2 c = some p → 16 ≤ c.toNat
  used : ∀ c, t.connIds (c - numReservedPorts) = some true ↔ ∃ p, t.connInfos2 c = some p
  keys : ∀ k, (∃ b, t.connIds k = some b) ↔ k.toNat < 240
  allocated : ∀ pk p, t.connInfos pk = some p → p < t.npci
  active : ∀ pk p, t.connInfos pk = some p → (t.pcis p).status = 1 ∨ (t.pcis p).status = 2

theorem RoutingTables.empty_consistent : RoutingTables.empty.Consistent where
  info := by intro pk p h; cases h
  info2 := by intro c p h; cases h
  range := by intro c p h; cases h
  used := by
    intro c
    simp only [RoutingTables.empty, initConnids_apply]
    split_ifs <;> simp
  keys := by
    intro k
    simp only [RoutingTables.empty, initConnids_apply]
    split_ifs with h <;> simp [h]
  allocated := by intro pk p h; cases h
  active := by intro pk p h; cases h

theorem RoutingTables.Consistent.not_all_taken {t : RoutingTables} (h : t.Consistent)
    (free : ∃ k : UInt8, t.connIds k = some false) :
    ¬ ∀ k : UInt8, k.toNat < 240 → t.connIds k = some true := by
  obtain ⟨k, hk⟩ := free
  intro taken
  rw [taken k ((h.keys k).mp ⟨_, hk⟩)] at hk
  cases hk

theorem RoutingTables.Consistent.pointer_inj {t : RoutingTables} (h : t.Consistent)
    {pk pk' : CryptoKey} {p : Nat} (hp : t.connInfos pk = some p)
    (hp' : t.connInfos pk' = some p) : pk = pk' :=
  (h.info pk p hp).1.symm.trans (h.info pk' p hp').1

theorem RoutingTables.Consistent.connid_inj {t : RoutingTables} (h : t.Consistent)
    {pk pk' : CryptoKey} {p p' : Nat} (hp : t.connInfos pk = some p)
    (hp' : t.connInfos pk' = some p') (same : (t.pcis p).connid = (t.pcis p').connid) :
    pk = pk' := by
  have h1 := (h.info pk p hp).2
  rw [same, (h.info pk' p' hp').2] at h1
  cases h1
  exact h.pointer_inj hp hp'

theorem RoutingTables.Consistent.modifyPci {t : RoutingTables} (h : t.Consistent) (p : Nat)
    {f : PeerConnInfo → PeerConnInfo} (hkey : ∀ x, (f x).pubkey = x.pubkey)
    (hid : ∀ x, (f x).connid = x.connid)
    (hst : ∀ x, (f x).status = 1 ∨ (f x).status = 2) : (t.modifyPci p f).Consistent := by
  have key : ∀ q, ((t.modifyPci p f).pcis q).pubkey = (t.pcis q).pubkey := by
    intro q
    by_cases hq : q = p
    · subst q; simp [RoutingTables.modifyPci, hkey]
    · simp [RoutingTables.modifyPci, Function.update_of_ne hq]
  have id : ∀ q, ((t.modifyPci p f).pcis q).connid = (t.pcis q).connid := by
    intro q
    by_cases hq : q = p
    · subst q; simp [RoutingTables.modifyPci, hid]
    · simp [RoutingTables.modifyPci, Function.update_of_ne hq]
  refine ⟨?_, ?_, h.range, h.used, h.keys, h.allocated, ?_⟩
  · intro pk q hq
    rw [key, id]
    exact h.info pk q hq
  · intro c q hq
    rw [key, id]
    exact h.info2 c q hq
  · intro pk q hq
    by_cases hqp : q = p
    · subst q; simpa [RoutingTables.modifyPci] using hst (t.pcis p)
    · simpa [RoutingTables.modifyPci, Function.update_of_ne hqp] using h.active pk q hq

/-- The tables after `nextConnid` has marked the key `k` and the peer is entered. -/
def RoutingTables.grant (t : RoutingTables) (pk : CryptoKey) (k : UInt8) : RoutingTables :=
  RoutingTables.enter { t with connIds := Function.update t.connIds k (some true) }
    ⟨pk, 1, 0, k + numReservedPorts⟩

section Grant
variable (t : RoutingTables) (pk : CryptoKey) (k : UInt8)

@[simp] theorem RoutingTables.grant_connInfos :
    (t.grant pk k).connInfos = Function.update t.connInfos pk (some t.npci) := rfl

@[simp] theorem RoutingTables.grant_connInfos2 :
    (t.grant pk k).connInfos2 =
      Function.update t.connInfos2 (k + numReservedPorts) (some t.npci) := rfl

@[simp] theorem RoutingTables.grant_connIds :
    (t.grant pk k).connIds = Function.update t.connIds k (some true) := rfl

@[simp] theorem RoutingTables.grant_pcis :
    (t.grant pk k).pcis = Function.update t.pcis t.npci ⟨pk, 1, 0, k + numReservedPorts⟩ := rfl

end Grant

theorem RoutingTables.Consistent.grant {t : RoutingTables} (h : t.Consistent) {k : UInt8}
    (hk : t.connIds k = some false) {pk : CryptoKey} (new : t.connInfos pk = none) :
    (t.grant pk k).Consistent := by
  have hlt : k.toNat < 240 := (h.keys k).mp ⟨_, hk⟩
  -- the id is not in use: its mark was still false
  have unused : t.connInfos2 (k + numReservedPorts) = none := by
    by_contra hne
    obtain ⟨p, hp⟩ := Option.ne_none_iff_exists'.mp hne
    have := (h.used (k + numReservedPorts)).mpr ⟨p, hp⟩
    rw [offset_sub, hk] at this
    cases this
  have old : ∀ pk' p, t.connInfos pk' = some p → p ≠ t.npci := by
    intro pk' p hp
    exact Nat.ne_of_lt (h.allocated pk' p hp)
  have old2 : ∀ c p, t.connInfos2 c = some p → p ≠ t.npci := by
    intro c p hp
    exact old _ p (h.info2 c p hp).1
  constructor
  · intro pk' p hp
    rw [RoutingTables.grant_connInfos] at hp
    rcases update_some hp with ⟨rfl, rfl⟩ | ⟨-, hp⟩
    · simp
    · obtain ⟨hkey, hid⟩ := h.info pk' p hp
      have hne : (t.pcis p).connid ≠ k + numReservedPorts := by
        intro heq; rw [heq, unused] at hid; cases hid
      simp [Function.update_of_ne (old pk' p hp), hkey, Function.update_of_ne hne, hid]
  · intro c p hp
    rw [RoutingTables.grant_connInfos2] at hp
    rcases update_some hp with ⟨rfl, rfl⟩ | ⟨-, hp⟩
    · simp
    · obtain ⟨hkey, hid⟩ := h.info2 c p hp
      have hne : (t.pcis p).pubkey ≠ pk := by
        intro heq; rw [heq, new] at hkey; cases hkey
      simp [Function.update_of_ne (old2 c p hp), hid, Function.update_of_ne hne, hkey]
  · intro c p hp
    rw [RoutingTables.grant_connInfos2] at hp
    rcases update_some hp with ⟨rfl, -⟩ | ⟨-, hp⟩
    · rw [offset_toNat hlt]; omega
    · exact h.range c p hp
  · intro c
    by_cases hc : c = k + numReservedPorts
    · subst c; simp
    · have hne : c - numReservedPorts ≠ k := by
        intro heq; exact hc (by rw [← heq, sub_offset])
      simpa [Function.update_of_ne hc, Function.update_of_ne hne] using h.used c
  · intro m
    by_cases hm : m = k
    · subst m; simp [hlt]
    · simpa [Function.update_of_ne hm] using h.keys m
  · intro pk' p hp
    rw [RoutingTables.grant_connInfos] at hp
    rcases update_some hp with ⟨-, rfl⟩ | ⟨-, hp⟩
    · exact Nat.lt_succ_self _
    · exact Nat.lt_succ_of_lt (h.allocated pk' p hp)
  · intro pk' p hp
    rw [RoutingTables.grant_connInfos] at hp
    rcases update_some hp with ⟨-, rfl⟩ | ⟨-, hp⟩
    · simp
    · simpa [Function.update_of_ne (old pk' p hp)] using h.active pk' p hp

end TcpServer
