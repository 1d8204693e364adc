import Toxera.Mintox.OnionAnnounce

/-!
# Expired announces

`Put` drops the last entry of a full list.
-/

namespace PriorityList

universe u v
variable {κ : Type u} {α : Type v} [DecidableEq κ] {key : α → κ} {l l' : PriorityList κ α}
  {item : α}

def Filed (key : α → κ) (l : PriorityList κ α) : Prop :=
  ∀ k x, l.keys.lookup k = some x → key x = k

theorem Puts.filed {cmp : Nat → α → Int} (filed : l.Filed key) (h : Puts key cmp item l l') :
    l'.Filed key := by
  cases h with
  | replaced known => exact filed
  | inserted _ _ _ _ lookup =>
    intro k x found
    rw [lookup] at found
    split_ifs at found with _ same
    · rw [← Option.some.inj found, same]
    · exact filed k x found

theorem Removes.filed {r : PriorityList κ α × Bool} (filed : l.Filed key)
    (h : Removes key item l r) : r.1.Filed key := by
  cases h with
  | absent => exact filed
  | removed =>
    intro k x found
    by_cases same : k = key item
    · rw [same, AList.lookup_erase] at found
      cases found
    · rw [AList.lookup_erase_ne same] at found
      exact filed k x found

theorem replaceItem_split {xs : List α} (h : key item ∈ xs.map key) :
    ∃ front old back, xs = front ++ old :: back ∧ key old = key item ∧
      replaceItem key item xs = front ++ item :: back := by
  induction xs with
  | nil => cases h
  | cons x rest ih =>
    rw [replaceItem]
    split_ifs with same
    · exact ⟨[], x, rest, rfl, same, rfl⟩
    · grind

theorem filter_other {front back : List α} {x : α}
    (nodup : ((front ++ x :: back).map key).Nodup) :
    (front ++ x :: back).filter (fun y => key y ≠ key x) = front ++ back := by
  rw [List.map_append, List.map_cons, List.nodup_middle, List.nodup_cons, ← List.map_append]
    at nodup
  have others : ∀ y ∈ front ++ back, key y ≠ key x := fun y hy same =>
    nodup.1 (same ▸ List.mem_map_of_mem hy)
  rw [List.filter_append, List.filter_cons_of_neg (by simp), ← List.filter_append]
  exact List.filter_eq_self.mpr fun y hy => by simpa using others y hy

end PriorityList

namespace Onion

open CryptoCore Dht Exec

universe u
variable {Addr : Type u}

structure Call (Addr : Type u) where
  now : Time
  retaddr : Addr
  pubkey : CryptoKey
  datpubkey : CryptoKey
  retdat : Bytes

def TimedOut (now : Time) (x : AnnounceEntry Addr) : Prop :=
  isTimeout4Now now x.timestamp announceTimeout = true

instance (now : Time) (x : AnnounceEntry Addr) : Decidable (TimedOut now x) :=
  inferInstanceAs (Decidable (_ = true))

namespace Announce

def entryOf (o : Announce Addr) (a : Call Addr) : AnnounceEntry Addr :=
  o.newEntry a.now a.retaddr a.pubkey a.datpubkey a.retdat

def putEntry (o : Announce Addr) (a : Call Addr) :
    Option (PriorityList CryptoKey (AnnounceEntry Addr)) :=
  o.entries.put AnnounceEntry.pubkey (fun _ x => (o.entryOf a).compare x (a.now, a.now))
    (o.entryOf a)

def add (o : Announce Addr) (a : Call Addr) : Option (Announce Addr) :=
  (o.addToEntries a.now (fun _ => (a.now, a.now)) a.now a.retaddr a.pubkey a.datpubkey
    a.retdat).map Prod.fst

/-- If the call drops a live entry of a full list, no entry that remains has timed out. -/
def PrefersLive (o : Announce Addr) (a : Call Addr) : Prop :=
  ∀ entries, o.putEntry a = some entries → o.entries.lst.length = o.entries.max →
    ∀ x, x ∈ o.entries.lst ∨ x = o.entryOf a → x.pubkey ∉ entries.lst.map AnnounceEntry.pubkey →
      ¬ TimedOut a.now x → ∀ y ∈ entries.lst, ¬ TimedOut a.now y

def NewestFirst (o : Announce Addr) : Prop :=
  o.entries.lst.Pairwise fun x y => y.timestamp ≤ x.timestamp

instance (o : Announce Addr) : Decidable o.NewestFirst :=
  inferInstanceAs (Decidable (o.entries.lst.Pairwise fun x y => y.timestamp ≤ x.timestamp))

def NewKey (o : Announce Addr) (a : Call Addr) : Prop := a.pubkey ∉ o.entries.keys

theorem add_eq (o : Announce Addr) (a : Call Addr) :
    o.add a = ((o.putEntry a).bind fun entries =>
      { o with entries := entries }.findInEntries a.now a.pubkey).map Prod.fst :=
  rfl

end Announce

theorem isTimeout4Now_iff (now old : Int) :
    isTimeout4Now now old announceTimeout = true ↔ old + 301 * 1000000000 ≤ now := by
  unfold isTimeout4Now announceTimeout
  rw [decide_eq_true_iff]
  by_cases late : old ≤ now
  · grind
  · -- before its time stamp the age of an entry is not positive
    have ahead := Int.tdiv_nonneg (show 0 ≤ old - now by omega) (show 0 ≤ 1000000000 by omega)
    rw [← Int.neg_sub, Int.neg_tdiv]
    omega

theorem TimedOut.older {now : Time} {x y : AnnounceEntry Addr} (h : TimedOut now y)
    (older : x.timestamp ≤ y.timestamp) : TimedOut now x := by
  rw [TimedOut, isTimeout4Now_iff] at h ⊢
  exact (Int.add_le_add_right older _).trans h

theorem exists_timedOut_between {x y : Int} (older : x < y) :
    ∃ t, y ≤ t ∧ isTimeout4Now t x announceTimeout = true ∧
      ¬ isTimeout4Now t y announceTimeout = true := by
  refine ⟨max y (x + 301 * 1000000000), le_max_left .., ?_, ?_⟩
  · rw [isTimeout4Now_iff]
    exact le_max_right ..
  · rw [isTimeout4Now_iff]
    omega

theorem not_timedOut_entryOf (o : Announce Addr) (a : Call Addr) :
    ¬ TimedOut a.now (o.entryOf a) := by
  rw [TimedOut, isTimeout4Now_iff]
  exact not_le.mpr (Int.lt_add_of_pos_right a.now (by decide))

theorem not_timedOut_of_compare {o : Announce Addr} {a : Call Addr} {x : AnnounceEntry Addr}
    (below : (o.entryOf a).compare x (a.now, a.now) < 0) : ¬ TimedOut a.now x := by
  intro old
  have live : isTimeout4Now a.now (o.entryOf a).timestamp announceTimeout = false :=
    Bool.eq_false_iff.mpr (not_timedOut_entryOf o a)
  have old' : isTimeout4Now a.now x.timestamp announceTimeout = true := old
  simp [AnnounceEntry.compare, live, old'] at below

namespace Announce
variable {o o' : Announce Addr} {a : Call Addr}

/-- What a call makes of the list: a new key is inserted where it belongs and the list is cut;
the entry of a stored key is replaced, or removed if the map has one that has timed out. -/
inductive Adds (o : Announce Addr) (a : Call Addr) : Announce Addr → Prop
  | inserted {front back : List (AnnounceEntry Addr)}
      {entries : PriorityList CryptoKey (AnnounceEntry Addr)} :
    o.NewKey a → o.putEntry a = some entries → o.entries.lst = front ++ back →
    (∀ x ∈ front, (o.entryOf a).compare x (a.now, a.now) < 0) →
    (∀ x, back.head? = some x → 0 ≤ (o.entryOf a).compare x (a.now, a.now)) →
    entries.lst = (front ++ o.entryOf a :: back).take o.entries.max →
    Adds o a { o with entries := entries }
  | replaced {front back : List (AnnounceEntry Addr)} {old : AnnounceEntry Addr}
      {entries : PriorityList CryptoKey (AnnounceEntry Addr)} :
    ¬ o.NewKey a → o.entries.lst = front ++ old :: back →
    entries.lst = front ++ o.entryOf a :: back →
    Adds o a { o with entries := entries }
  | removed {front back : List (AnnounceEntry Addr)} {old : AnnounceEntry Addr}
      {entries : PriorityList CryptoKey (AnnounceEntry Addr)} :
    ¬ o.NewKey a → o.entries.lst = front ++ old :: back → entries.lst = front ++ back →
    Adds o a { o with entries := entries }

structure Sound (o : Announce Addr) : Prop where
  valid : o.entries.Valid AnnounceEntry.pubkey
  filed : o.entries.Filed AnnounceEntry.pubkey
  max : o.entries.max = announceMaxEntries

theorem sound_new (selfPubkey : CryptoKey) :
    (newOnionAnnounce selfPubkey : Announce Addr).Sound :=
  ⟨PriorityList.valid_new _, nofun, rfl⟩

theorem findInEntries_live {now : Time} {k : CryptoKey}
    (live : ∀ x, o.entries.getByKey k = some x → ¬ TimedOut now x) :
    (o.findInEntries now k).map Prod.fst = some o := by
  unfold findInEntries
  cases found : o.entries.getByKey k with
  | none => rfl
  | some x => grind [TimedOut]

theorem findInEntries_timedOut {now : Time} {x : AnnounceEntry Addr} {k : CryptoKey}
    (valid : o.entries.Valid AnnounceEntry.pubkey) (found : o.entries.getByKey k = some x)
    (old : TimedOut now x) :
    ∃ r, PriorityList.Removes AnnounceEntry.pubkey x o.entries r ∧
      (o.findInEntries now k).map Prod.fst = some { o with entries := r.1 } := by
  obtain ⟨r, remove, removes⟩ := PriorityList.remove_spec valid x
  refine ⟨r, removes, ?_⟩
  rw [TimedOut] at old
  simp only [findInEntries, found, if_pos old, remove, Option.map_some]

theorem find_replaced {l : PriorityList CryptoKey (AnnounceEntry Addr)}
    {front back : List (AnnounceEntry Addr)} {old : AnnounceEntry Addr}
    (known : ¬ o.NewKey a)
    (valid : l.Valid AnnounceEntry.pubkey) (filed : l.Filed AnnounceEntry.pubkey)
    (max : l.max = announceMaxEntries) (split : o.entries.lst = front ++ old :: back)
    (lst : l.lst = front ++ o.entryOf a :: back) :
    ∃ o', ({ o with entries := l }.findInEntries a.now a.pubkey).map Prod.fst = some o' ∧
      Adds o a o' ∧ o'.Sound := by
  by_cases live : ∀ x, l.getByKey a.pubkey = some x → ¬ TimedOut a.now x
  · exact ⟨_, findInEntries_live live, .replaced known split lst, ⟨valid, filed, max⟩⟩
  · obtain ⟨x, found, expired⟩ : ∃ x, l.getByKey a.pubkey = some x ∧ TimedOut a.now x := by
      simpa using live
    obtain ⟨r, removes, find⟩ := findInEntries_timedOut (o := { o with entries := l }) valid
      found expired
    have own : x.pubkey = a.pubkey := filed a.pubkey x found
    have valid' := removes.valid valid
    have filed' := removes.filed filed
    refine ⟨_, find, ?_, ⟨valid', filed', ?_⟩⟩
    · refine .removed known split ?_
      cases removes with
      | absent unknown =>
        have listed : a.pubkey ∈ l.keys := PriorityList.getByKey_isSome.mp (by rw [found]; rfl)
        exact absurd (own ▸ listed) unknown
      | @removed front' back' y split' same =>
        have split'' : l.lst = front' ++ y :: back' := split'
        have key : y.pubkey = (o.entryOf a).pubkey := same.trans own
        calc front' ++ back'
            = l.lst.filter (fun z => z.pubkey ≠ y.pubkey) := by
              rw [split'', PriorityList.filter_other (split'' ▸ valid.nodup)]
          _ = front ++ back := by
              rw [key, lst, PriorityList.filter_other (lst ▸ valid.nodup)]
    · cases removes with
      | absent => exact max
      | removed => exact max

theorem add_spec (sound : o.Sound) (a : Call Addr) :
    ∃ o', o.add a = some o' ∧ Adds o a o' ∧ o'.Sound := by
  obtain ⟨entries, put, puts⟩ := PriorityList.put_spec sound.valid
    (fun _ x => (o.entryOf a).compare x (a.now, a.now)) (o.entryOf a)
  have valid := puts.valid sound.valid
  have filed := puts.filed sound.filed
  have max := puts.max.trans sound.max
  have put' : o.putEntry a = some entries := put
  rw [add_eq, put', Option.bind_some]
  cases puts with
  | @inserted front back keys new split below above lookup =>
    refine ⟨_, findInEntries_live ?_, .inserted new put' split ?_ above rfl, ⟨valid, filed, max⟩⟩
    · -- the map has the new entry, or has lost it again
      intro x found
      have found' : keys.lookup a.pubkey = some x := found
      rw [lookup] at found'
      split_ifs at found' with _ same
      · rw [← Option.some.inj found']
        exact not_timedOut_entryOf o a
      · exact absurd rfl same
    · intro x hx
      obtain ⟨i, hi, rfl⟩ := List.mem_iff_getElem.mp hx
      exact below i _ (List.getElem?_eq_getElem hi)
  | replaced known =>
    obtain ⟨front, old, back, split, hold, eq⟩ :=
      PriorityList.replaceItem_split ((sound.valid.mem_keys _).mp known)
    exact find_replaced (not_not.mpr known) valid filed max split eq

theorem add_newKey (sound : o.Sound) (new : o.NewKey a) :
    ∃ o' front back, o.add a = some o' ∧ o'.Sound ∧ o'.selfPubkey = o.selfPubkey ∧
      o.putEntry a = some o'.entries ∧ o.entries.lst = front ++ back ∧
      (∀ x ∈ front, (o.entryOf a).compare x (a.now, a.now) < 0) ∧
      (∀ x, back.head? = some x → 0 ≤ (o.entryOf a).compare x (a.now, a.now)) ∧
      o'.entries.lst = (front ++ o.entryOf a :: back).take announceMaxEntries := by
  obtain ⟨o', step, adds, sound'⟩ := add_spec sound a
  cases adds with
  | replaced known => exact absurd new known
  | removed known => exact absurd new known
  | inserted _ put split below above lst =>
    exact ⟨_, _, _, step, sound', rfl, put, split, below, above, sound.max ▸ lst⟩

def LiveFirst (t : Time) (o : Announce Addr) : Prop :=
  o.entries.lst.Pairwise fun x y => TimedOut t x → TimedOut t y

theorem NewestFirst.liveFirst (h : o.NewestFirst) (t : Time) : o.LiveFirst t :=
  h.imp fun le old => old.older le

theorem liveFirst_inserted {t : Time} {front back : List (AnnounceEntry Addr)}
    {e : AnnounceEntry Addr}
    (h : (front ++ back).Pairwise fun x y => TimedOut t x → TimedOut t y)
    (live : ∀ x ∈ front, ¬ TimedOut t x) (new : ¬ TimedOut t e) :
    (front ++ e :: back).Pairwise fun x y => TimedOut t x → TimedOut t y := by
  obtain ⟨hfront, hback, -⟩ := List.pairwise_append.mp h
  refine List.pairwise_append.mpr ⟨hfront, List.pairwise_cons.mpr ⟨?_, hback⟩, ?_⟩
  · exact fun _ _ old => absurd old new
  · exact fun x hx _ _ old => absurd old (live x hx)

theorem putEntry_known (known : ¬ o.NewKey a) :
    o.putEntry a = some { o.entries with
      lst := PriorityList.replaceItem AnnounceEntry.pubkey (o.entryOf a) o.entries.lst } :=
  if_pos (not_not.mp known)

theorem LiveFirst.prefersLive (sound : o.Sound) (h : o.LiveFirst a.now) : o.PrefersLive a := by
  intro entries put full x hx dropped live y hy old
  by_cases new : o.NewKey a
  · obtain ⟨o', front, back, -, -, -, put', split, below, -, lst⟩ := add_newKey sound new
    obtain rfl := Option.some.inj (put.symm.trans put')
    rw [LiveFirst, split] at h
    have order := liveFirst_inserted h (fun x hx => not_timedOut_of_compare (below x hx))
      (not_timedOut_entryOf o a)
    have member : x ∈ front ++ o.entryOf a :: back := by grind
    -- the entry is not in the part that is kept, so it is behind it
    rw [← List.take_append_drop announceMaxEntries (front ++ _ :: back), ← lst] at member order
    rcases List.mem_append.mp member with kept | behind
    · exact dropped (List.mem_map_of_mem kept)
    · grind
  · -- a replacement drops nothing
    rw [putEntry_known new] at put
    cases put
    rw [PriorityList.replaceItem_keys] at dropped
    rcases hx with hx | rfl
    · exact dropped (List.mem_map_of_mem hx)
    · exact dropped ((sound.valid.mem_keys _).mp (not_not.mp new))

theorem LiveFirst.add {t : Time} (sound : o.Sound) (h : o.LiveFirst t) (now : a.now = t)
    (new : o.NewKey a) (step : o.add a = some o') : o'.LiveFirst t := by
  obtain ⟨o₁, front, back, step', -, -, -, split, below, -, lst⟩ := add_newKey sound new
  obtain rfl := Option.some.inj (step.symm.trans step')
  subst now
  rw [LiveFirst, split] at h
  rw [LiveFirst, lst]
  exact (liveFirst_inserted h (fun x hx => not_timedOut_of_compare (below x hx))
    (not_timedOut_entryOf o a)).sublist (List.take_sublist _ _)

theorem older_in_front {front back : List (AnnounceEntry Addr)} {e : AnnounceEntry Addr}
    (old : (front ++ back).Pairwise fun x y => y.timestamp ≤ x.timestamp)
    (latest : ∀ x ∈ back, x.timestamp ≤ e.timestamp)
    (disorder : ¬ (front ++ e :: back).Pairwise fun x y => y.timestamp ≤ x.timestamp) :
    ∃ A x B, front = A ++ x :: B ∧ x.timestamp < e.timestamp := by
  by_contra none
  obtain ⟨hfront, hback, across⟩ := List.pairwise_append.mp old
  refine disorder (List.pairwise_append.mpr
    ⟨hfront, List.pairwise_cons.mpr ⟨latest, hback⟩, fun x hx y hy => ?_⟩)
  rcases List.mem_cons.mp hy with rfl | hy
  · obtain ⟨A, B, rfl⟩ := List.append_of_mem hx
    exact not_lt.mp fun older => none ⟨A, x, B, rfl, older⟩
  · exact across x hx y hy

theorem Adds.disorder (h : o.NewestFirst) (latest : ∀ x ∈ o.entries.lst, x.timestamp ≤ a.now)
    (adds : Adds o a o') (disorder : ¬ o'.NewestFirst) :
    ∃ A x B C, o'.entries.lst = A ++ x :: (B ++ o.entryOf a :: C) ∧ x.timestamp < a.now := by
  cases adds with
  | @inserted front back entries _ _ split _ _ lst =>
    have disorder' : ¬ entries.lst.Pairwise fun x y => y.timestamp ≤ x.timestamp := disorder
    rw [NewestFirst, split] at h
    have latest' : ∀ x ∈ back, x.timestamp ≤ (o.entryOf a).timestamp := fun x hx =>
      latest x (split ▸ List.mem_append_right _ hx)
    have room : front.length < o.entries.max := by grind
    obtain ⟨A, x, B, rfl, older⟩ := older_in_front h latest' fun order =>
      disorder' (lst ▸ order.sublist (List.take_sublist _ _))
    obtain ⟨k, hk⟩ := Nat.exists_eq_add_of_lt room
    refine ⟨A, x, B, back.take k, ?_, older⟩
    show entries.lst = _
    rw [lst, hk, Nat.add_assoc, List.take_length_add_append, List.take_succ_cons,
      List.append_assoc, List.cons_append]
  | @replaced front back old entries _ split lst =>
    rw [NewestFirst, split] at h
    have h' := h.sublist (List.Sublist.append_left (List.sublist_cons_self old back) front)
    have disorder' : ¬ entries.lst.Pairwise fun x y => y.timestamp ≤ x.timestamp := disorder
    obtain ⟨A, x, B, rfl, older⟩ := older_in_front h'
      (fun x hx => latest x (by rw [split]; simp [hx]) : ∀ x ∈ back, _ ≤ (o.entryOf a).timestamp)
      (lst ▸ disorder')
    exact ⟨A, x, B, back, by simp [lst], older⟩
  | @removed front back old entries _ split lst => grind [NewestFirst]

theorem keyOf_ofNat_inj {m n : Nat} (hm : m < 256) (hn : n < 256)
    (same : keyOf (UInt8.ofNat m) = keyOf (UInt8.ofNat n)) : m = n := by
  have bytes := congrArg (fun k : CryptoKey => k.val.headD 0) same
  have nats := congrArg UInt8.toNat (show UInt8.ofNat m = UInt8.ofNat n from bytes)
  rwa [UInt8.toNat_ofNat', UInt8.toNat_ofNat', Nat.mod_eq_of_lt hm, Nat.mod_eq_of_lt hn] at nats

theorem exists_newKey (sound : o.Sound) : ∃ k : CryptoKey, k ∉ o.entries.keys := by
  by_contra all
  have subset : (List.range 256).map (fun n => keyOf (UInt8.ofNat n)) ⊆
      o.entries.lst.map AnnounceEntry.pubkey := by
    intro k _
    exact (sound.valid.mem_keys k).mp (not_not.mp fun out => all ⟨k, out⟩)
  have nodup : ((List.range 256).map fun n => keyOf (UInt8.ofNat n)).Nodup := by
    refine List.Nodup.map_on ?_ List.nodup_range
    intro m hm n hn same
    exact keyOf_ofNat_inj (List.mem_range.mp hm) (List.mem_range.mp hn) same
  have few := sound.valid.bounded
  have many := (List.subperm_of_subset nodup subset).length_le
  rw [sound.max] at few
  simp only [List.length_map, List.length_range] at many
  exact absurd (many.trans few) (by decide)

theorem add_before {t : Time} {A R : List (AnnounceEntry Addr)} {x : AnnounceEntry Addr}
    (sound : o.Sound) (lst : o.entries.lst = A ++ x :: R) (old : TimedOut t x)
    (now : a.now = t) (new : o.NewKey a) :
    ∃ o' A', o.add a = some o' ∧ o'.Sound ∧ o.putEntry a = some o'.entries ∧
      A'.length = A.length + 1 ∧ ((A' ++ x :: R).map AnnounceEntry.pubkey).Nodup ∧
      o'.entries.lst = (A' ++ x :: R).take announceMaxEntries := by
  obtain ⟨o', front, back, step, sound', -, put, split, below, -, lst'⟩ := add_newKey sound new
  subst now
  have parts : ∃ A₂, A = front ++ A₂ ∧ back = A₂ ++ x :: R := by
    rcases List.append_eq_append_iff.mp (split.symm.trans lst) with ⟨A₂, hA, hback⟩ |
      ⟨c, hfront, hx⟩
    · exact ⟨A₂, hA, hback⟩
    · cases c with
      | nil => exact ⟨[], by simpa using hfront.symm, by simpa using hx.symm⟩
      | cons y c =>
        obtain ⟨rfl, -⟩ := List.cons.inj hx
        exact absurd old (not_timedOut_of_compare (below x (by simp [hfront])))
  obtain ⟨A₂, rfl, rfl⟩ := parts
  have whole : front ++ o.entryOf a :: A₂ ++ x :: R =
      front ++ o.entryOf a :: (A₂ ++ x :: R) := by rw [List.append_assoc, List.cons_append]
  refine ⟨o', front ++ o.entryOf a :: A₂, step, sound', put, ?_, ?_, ?_⟩
  · grind
  · rw [whole]
    refine PriorityList.nodup_inserted (split ▸ sound.valid.nodup) ?_
    rw [← split, ← sound.valid.mem_keys]
    exact new
  · rw [lst', whole]

theorem not_prefersLive {t : Time} {A B : List (AnnounceEntry Addr)} {x e : AnnounceEntry Addr}
    (sound : o.Sound) (lst : o.entries.lst = A ++ x :: (B ++ [e]))
    (full : A.length + B.length + 2 = announceMaxEntries) (old : TimedOut t x)
    (live : ¬ TimedOut t e) (now : a.now = t) (new : o.NewKey a) : ¬ o.PrefersLive a := by
  obtain ⟨o', A', -, -, put, length, nodup, lst'⟩ := add_before sound lst old now new
  have whole : A' ++ x :: (B ++ [e]) = (A' ++ x :: B) ++ [e] := by
    rw [List.append_assoc, List.cons_append]
  rw [whole, List.map_append] at nodup
  have kept : o'.entries.lst = A' ++ x :: B := by
    rw [lst', whole]
    refine List.take_left' ?_
    simp only [List.length_append, List.length_cons]
    omega
  intro prefers
  refine prefers _ put ?_ e (.inl (by simp [lst])) ?_ (now ▸ live) x (by simp [kept]) (now ▸ old)
  · rw [lst, sound.max]
    simp only [List.length_append, List.length_cons, List.length_nil]
    omega
  · grind

theorem pushed_out {t : Time} (addr : Addr) {x e : AnnounceEntry Addr} (old : TimedOut t x)
    (live : ¬ TimedOut t e) (k : Nat) {A B C : List (AnnounceEntry Addr)} (sound : o.Sound)
    (lst : o.entries.lst = A ++ x :: (B ++ e :: C))
    (place : A.length + B.length + 2 + k = announceMaxEntries) :
    ∃ ds : List (Call Addr), (∀ a ∈ ds, a.now = t) ∧ Along add NewKey o ds ∧
      ¬ Along add PrefersLive o ds := by
  induction k generalizing o A C with
  | zero =>
    -- the entry is the last one
    obtain ⟨key, new⟩ := exists_newKey sound
    have bounded := sound.valid.bounded
    rw [lst, sound.max] at bounded
    simp only [List.length_append, List.length_cons] at bounded
    obtain rfl : C = [] := List.length_eq_zero_iff.mp (by omega)
    obtain ⟨o', step, -, -⟩ := add_spec sound ⟨t, addr, key, key, []⟩
    have bad := not_prefersLive (a := ⟨t, addr, key, key, []⟩) sound lst place old live rfl new
    exact ⟨[⟨t, addr, key, key, []⟩], by simp, (along_cons_iff step).mpr ⟨new, along_nil _ _⟩,
      fun prefers => bad ((along_cons_iff step).mp prefers).1⟩
  | succ k ih =>
    obtain ⟨key, new⟩ := exists_newKey sound
    obtain ⟨o', A', step, sound', -, length, -, lst'⟩ :=
      add_before (a := ⟨t, addr, key, key, []⟩) sound lst old rfl new
    have next : o'.entries.lst = A' ++ x :: (B ++ e :: C.take k) := by
      have whole : A' ++ x :: (B ++ e :: C) = (A' ++ x :: (B ++ [e])) ++ C := by simp
      have size : announceMaxEntries = (A' ++ x :: (B ++ [e])).length + k := by grind
      rw [lst', whole, size, List.take_length_add_append]
      simp
    obtain ⟨ds, times, newKeys, pushed⟩ := ih sound' next (by omega)
    refine ⟨⟨t, addr, key, key, []⟩ :: ds, ?_, (along_cons_iff step).mpr ⟨new, newKeys⟩, ?_⟩
    · intro a ha
      rcases List.mem_cons.mp ha with rfl | ha
      · rfl
      · exact times a ha
    · exact fun prefers => pushed ((along_cons_iff step).mp prefers).2

theorem sound_of_run {selfPubkey : CryptoKey} {es : List (Call Addr)} {m : Announce Addr}
    (run : exec add (newOnionAnnounce selfPubkey) es = some m) : m.Sound := by
  refine exec_invariant (P := Sound) ?_ (sound_new selfPubkey) run
  intro o a o' sound step
  obtain ⟨o₁, step', -, sound'⟩ := add_spec sound a
  exact Option.some.inj (step.symm.trans step') ▸ sound'

theorem Adds.mem (adds : Adds o a o') {x : AnnounceEntry Addr} (hx : x ∈ o'.entries.lst) :
    x = o.entryOf a ∨ x ∈ o.entries.lst := by
  cases adds with
  | inserted _ _ split _ _ lst => grind
  | replaced _ split lst => grind
  | removed _ split lst => grind

theorem timestamp_of_run {selfPubkey : CryptoKey} {es : List (Call Addr)} {m : Announce Addr}
    (run : exec add (newOnionAnnounce selfPubkey) es = some m) :
    ∀ x ∈ m.entries.lst, ∃ a ∈ es, x.timestamp = a.now := by
  refine exec_history
    (P := fun es m => ∀ x ∈ m.entries.lst, ∃ a ∈ es, x.timestamp = a.now) nofun ?_ run
  intro es o a o' before ih step x hx
  obtain ⟨o₁, step', adds, -⟩ := add_spec (sound_of_run before) a
  obtain rfl := Option.some.inj (step.symm.trans step')
  rcases adds.mem hx with rfl | hx
  · exact ⟨a, by simp, rfl⟩
  · grind

theorem prefersLive_of_burst {t : Time} {ds : List (Call Addr)} (sound : o.Sound)
    (h : o.LiveFirst t) (times : ∀ a ∈ ds, a.now = t) (new : Along add NewKey o ds) :
    Along add PrefersLive o ds := by
  induction ds generalizing o with
  | nil => exact along_nil _ _
  | cons a ds ih =>
    obtain ⟨o', step, -, sound'⟩ := add_spec sound a
    obtain ⟨here, later⟩ := (along_cons_iff step).mp new
    have now : a.now = t := times a (.head _)
    refine (along_cons_iff step).mpr ⟨(now ▸ h : o.LiveFirst a.now).prefersLive sound, ?_⟩
    exact ih sound' (h.add sound now here step) (fun b hb => times b (.tail _ hb)) later

theorem newestFirst_of_bursts {selfPubkey : CryptoKey} {es : List (Call Addr)}
    (times : (es.map Call.now).Pairwise (· ≤ ·))
    (bursts : ∀ pre post m t ds, es = pre ++ post →
      exec add (newOnionAnnounce selfPubkey) pre = some m → (∀ a ∈ pre, a.now ≤ t) →
      (∀ a ∈ ds, a.now = t) → Along add NewKey m ds → Along add PrefersLive m ds) :
    Throughout add NewestFirst (newOnionAnnounce selfPubkey) es := by
  intro pre post m cut run
  induction pre using List.reverseRecOn generalizing post m with
  | nil =>
    cases run
    exact List.Pairwise.nil
  | append_singleton pre a ih =>
    obtain ⟨o, before, step⟩ := exec_snoc_iff.mp run
    have sound := sound_of_run before
    obtain ⟨o₁, step', adds, -⟩ := add_spec sound a
    obtain rfl := Option.some.inj (step.symm.trans step')
    have sorted : ∀ b ∈ pre, b.now ≤ a.now := by
      rw [cut, List.append_assoc, List.map_append] at times
      exact fun b hb => (List.pairwise_append.mp times).2.2 _ (List.mem_map_of_mem hb) _
        (.head _)
    have latest : ∀ x ∈ o.entries.lst, x.timestamp ≤ a.now := by grind [timestamp_of_run]
    by_contra disorder
    obtain ⟨A, x, B, C, lst, older⟩ :=
      adds.disorder (ih (a :: post) o (by simp [cut]) before) latest disorder
    obtain ⟨t, after, old, live⟩ := exists_timedOut_between older
    have sound' := sound_of_run run
    have place : A.length + B.length + 2 ≤ announceMaxEntries := by
      have bounded := sound'.valid.bounded
      rw [lst, sound'.max] at bounded
      simp only [List.length_append, List.length_cons] at bounded
      omega
    obtain ⟨k, place⟩ := Nat.exists_eq_add_of_le place
    obtain ⟨ds, now, new, pushed⟩ := pushed_out a.retaddr (e := o.entryOf a) old live k sound' lst
      place.symm
    refine pushed (bursts (pre ++ [a]) post m t ds cut run (fun b hb => ?_) now new)
    rcases List.mem_append.mp hb with hb | hb
    · exact (sorted b hb).trans after
    · exact List.mem_singleton.mp hb ▸ after

/-- A run that keeps its newest entries first prefers live entries. -/
theorem prefers_live_iff (selfPubkey : CryptoKey) (es : List (Call Addr))
    (times : (es.map Call.now).Pairwise (· ≤ ·)) :
    (Throughout add NewestFirst (newOnionAnnounce selfPubkey) es →
      Along add PrefersLive (newOnionAnnounce selfPubkey) es) ∧
    (Throughout add NewestFirst (newOnionAnnounce selfPubkey) es ↔
      ∀ pre post m t ds, es = pre ++ post →
        exec add (newOnionAnnounce selfPubkey) pre = some m → (∀ a ∈ pre, a.now ≤ t) →
        (∀ a ∈ ds, a.now = t) → Along add NewKey m ds → Along add PrefersLive m ds) := by
  refine ⟨fun newest pre a post m cut run => ?_, fun newest => ?_, newestFirst_of_bursts times⟩
  · exact ((newest pre (a :: post) m cut run).liveFirst a.now).prefersLive (sound_of_run run)
  · intro pre post m t ds cut run _ now new
    exact prefersLive_of_burst (sound_of_run run) ((newest pre post m cut run).liveFirst t) now new

def callAt (seconds : Int) (b : UInt8) : Call Nat :=
  ⟨seconds * 1000000000, 0, keyOf b, keyOf b, []⟩

theorem prefers_live_nearer :
    Along add PrefersLive (newOnionAnnounce (keyOf 0)) [callAt 0 3, callAt 5 2, callAt 310 1] := by
  refine (prefers_live_iff (keyOf 0) [callAt 0 3, callAt 5 2, callAt 310 1] (by decide)).1 ?_
  exact throughout_of_along List.Pairwise.nil (along_of_decide (by decide +kernel))

theorem add_front (sound : o.Sound) (new : o.NewKey a)
    (room : o.entries.lst.length < announceMaxEntries)
    (first : ∀ x, o.entries.lst.head? = some x →
      0 ≤ (o.entryOf a).compare x (a.now, a.now)) :
    ∃ o', o.add a = some o' ∧ o'.Sound ∧ o'.selfPubkey = o.selfPubkey ∧
      o'.entries.lst = o.entryOf a :: o.entries.lst := by
  obtain ⟨o', front, back, step, sound', self, -, split, below, -, lst⟩ := add_newKey sound new
  refine ⟨o', step, sound', self, ?_⟩
  cases front with
  | nil =>
    rw [split] at room
    rw [lst, split, List.nil_append, List.nil_append]
    exact List.take_of_length_le room
  | cons x front =>
    have lower := below x (.head _)
    have higher := first x (by rw [split]; rfl)
    omega

theorem exec_nearer (selfPubkey : CryptoKey) (f : Nat → Call Addr) {n : Nat}
    (few : n ≤ announceMaxEntries)
    (distinct : ∀ i < n, ∀ j < n, (f i).pubkey = (f j).pubkey → i = j)
    (nearer : ∀ i, i + 1 < n → 0 ≤ ((newOnionAnnounce selfPubkey).entryOf (f (i + 1))).compare
      ((newOnionAnnounce selfPubkey).entryOf (f i)) ((f (i + 1)).now, (f (i + 1)).now)) :
    ∃ o, exec add (newOnionAnnounce selfPubkey) ((List.range n).map f) = some o ∧ o.Sound ∧
      o.selfPubkey = selfPubkey ∧ o.entries.lst =
        ((List.range n).map fun i => (newOnionAnnounce selfPubkey).entryOf (f i)).reverse := by
  induction n with
  | zero => exact ⟨_, rfl, sound_new selfPubkey, rfl, rfl⟩
  | succ n ih =>
    obtain ⟨o, run, sound, self, lst⟩ := ih (by omega)
      (fun i hi j hj => distinct i (by omega) j (by omega)) (fun i hi => nearer i (by omega))
    have entry : o.entryOf (f n) = (newOnionAnnounce selfPubkey).entryOf (f n) := by
      simp only [entryOf, newEntry, self, newOnionAnnounce]
    have new : o.NewKey (f n) := by
      rw [NewKey, sound.valid.mem_keys, lst]
      intro listed
      obtain ⟨x, hx, same⟩ := List.mem_map.mp listed
      obtain ⟨i, hi, rfl⟩ := List.mem_map.mp (List.mem_reverse.mp hx)
      rw [List.mem_range] at hi
      have := distinct i (by omega) n (by omega) same
      omega
    have room : o.entries.lst.length < announceMaxEntries := by grind
    have first : ∀ x, o.entries.lst.head? = some x →
        0 ≤ (o.entryOf (f n)).compare x ((f n).now, (f n).now) := by
      intro x hx
      rw [lst, List.head?_reverse] at hx
      cases n with
      | zero => cases hx
      | succ n => grind
    obtain ⟨o', step, sound', self', lst'⟩ := add_front sound new room first
    refine ⟨o', ?_, sound', self'.trans self, ?_⟩
    · rw [List.range_succ, List.map_append]
      exact exec_snoc_iff.mpr ⟨o, run, step⟩
    · rw [lst', entry, lst, List.range_succ]
      simp

theorem add_last (sound : o.Sound) (new : o.NewKey a)
    (room : o.entries.lst.length < announceMaxEntries)
    (below : ∀ x ∈ o.entries.lst, (o.entryOf a).compare x (a.now, a.now) < 0) :
    ∃ o', o.add a = some o' ∧ o'.Sound ∧ o'.entries.lst = o.entries.lst ++ [o.entryOf a] := by
  obtain ⟨o', front, back, step, sound', -, -, split, -, above, lst⟩ := add_newKey sound new
  refine ⟨o', step, sound', ?_⟩
  cases back with
  | nil =>
    rw [split, List.append_nil] at room
    rw [lst, split, List.append_nil]
    refine List.take_of_length_le ?_
    rw [List.length_append]
    exact room
  | cons x back =>
    have lower := below x (by simp [split])
    have higher := above x rfl
    omega

def nearKey (i : Nat) : Call Nat := callAt 0 (UInt8.ofNat (159 - i))

/-- They are announced at the start; the key 200, farther than they are, follows ten seconds
later. -/
def fullRun : List (Call Nat) := (List.range 159).map nearKey ++ [callAt 10 200]

def nearEntries (n : Nat) : List (AnnounceEntry Nat) :=
  ((List.range n).map fun i => (newOnionAnnounce (keyOf 0)).entryOf (nearKey i)).reverse

theorem far_not_near {n : Nat} (high : 160 ≤ n) (small : n < 256) :
    keyOf (UInt8.ofNat n) ∉ (nearEntries 159).map AnnounceEntry.pubkey := by
  intro listed
  obtain ⟨x, hx, same⟩ := List.mem_map.mp listed
  obtain ⟨i, -, rfl⟩ := List.mem_map.mp (List.mem_reverse.mp hx)
  have := keyOf_ofNat_inj (m := 159 - i) (by omega) small same
  omega

theorem nearKeys_listed :
    ∃ o, exec add (newOnionAnnounce (keyOf 0)) ((List.range 159).map nearKey) = some o ∧
      o.Sound ∧ o.selfPubkey = keyOf 0 ∧ o.entries.lst = nearEntries 159 := by
  have nearer : ∀ i < 158, 0 ≤ ((newOnionAnnounce (keyOf 0)).entryOf (nearKey (i + 1))).compare
      ((newOnionAnnounce (keyOf 0)).entryOf (nearKey i)) (0, 0) := by decide +kernel
  refine exec_nearer (keyOf 0) nearKey (by decide) ?_ fun i hi => nearer i (by omega)
  intro i hi j hj same
  have := keyOf_ofNat_inj (m := 159 - i) (n := 159 - j) (by omega) (by omega) same
  omega

theorem fullRun_listed :
    ∃ o, exec add (newOnionAnnounce (keyOf 0)) fullRun = some o ∧ o.Sound ∧
      o.entries.lst =
        nearEntries 159 ++ [(newOnionAnnounce (keyOf 0)).entryOf (callAt 10 200)] := by
  obtain ⟨o, run, sound, self, lst⟩ := nearKeys_listed
  have entry : o.entryOf (callAt 10 200) =
      (newOnionAnnounce (keyOf 0)).entryOf (callAt 10 200) := by
    simp only [entryOf, newEntry, self, newOnionAnnounce]
  have far : ∀ i < 159, ((newOnionAnnounce (keyOf 0)).entryOf (callAt 10 200)).compare
      ((newOnionAnnounce (keyOf 0)).entryOf (nearKey i))
      ((callAt 10 200).now, (callAt 10 200).now) < 0 := by decide +kernel
  have new : o.NewKey (callAt 10 200) := by
    rw [NewKey, sound.valid.mem_keys, lst]
    exact far_not_near (n := 200) (by decide) (by decide)
  obtain ⟨o', step, sound', lst'⟩ := add_last (a := callAt 10 200) sound new
    (by rw [lst]; simp [nearEntries, announceMaxEntries]) (by
      rw [lst, entry]
      intro x hx
      obtain ⟨i, hi, rfl⟩ := List.mem_map.mp (List.mem_reverse.mp hx)
      exact far i (List.mem_range.mp hi))
  exact ⟨o', exec_snoc_iff.mpr ⟨o, run, step⟩, sound', by rw [lst', lst, entry]⟩

/-- When the near keys have timed out, a new key pushes the last one out, which has not. -/
theorem live_entry_dropped :
    ∃ o, exec add (newOnionAnnounce (keyOf 0)) fullRun = some o ∧
      ¬ o.PrefersLive (callAt 305 160) := by
  obtain ⟨o, run, sound, lst⟩ := fullRun_listed
  have split : o.entries.lst = [] ++ (newOnionAnnounce (keyOf 0)).entryOf (nearKey 158) ::
      (nearEntries 158 ++ [(newOnionAnnounce (keyOf 0)).entryOf (callAt 10 200)]) := by
    rw [lst, nearEntries, List.range_succ]
    simp [nearEntries]
  refine ⟨o, run, not_prefersLive sound split (by simp [nearEntries, announceMaxEntries])
    (t := 305 * 1000000000) (by decide) (by decide) rfl ?_⟩
  rw [NewKey, sound.valid.mem_keys, lst, List.map_append, List.mem_append]
  rintro (listed | same)
  · exact far_not_near (n := 160) (by decide) (by decide) listed
  · exact absurd (List.mem_singleton.mp same) (by decide)

end Announce

end Onion
