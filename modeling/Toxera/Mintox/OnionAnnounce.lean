import Toxera.Mintox.Closest
import Toxera.Mintox.PriorityList

/-!
# Announced keys

The entries that an onion node keeps of the keys announced to it,
`mintox/onion_announce.go`.
-/

namespace Onion

open CryptoCore Dht Exec

universe u
variable {Addr : Type u}

def announceMaxEntries : Nat := 160
def announceTimeout : Int := 300

structure AnnounceEntry (Addr : Type u) where
  pubkey : CryptoKey
  retAddr : Addr
  retDat : Bytes
  datPubkey : CryptoKey
  timestamp : Time
  cmppk : CryptoKey
  deriving DecidableEq

def AnnounceEntry.compare (this that : AnnounceEntry Addr) (now : Time × Time) : Int :=
  let t1 := isTimeout4Now now.1 this.timestamp announceTimeout
  let t2 := isTimeout4Now now.2 that.timestamp announceTimeout
  if t1 ∧ t2 then 0
  else if t1 then -1
  else if t2 then 1
  else idClosest this.cmppk this.pubkey that.pubkey

structure Announce (Addr : Type u) where
  /-- the key of the node, `dhto.SelfPubkey` -/
  selfPubkey : CryptoKey
  entries : PriorityList CryptoKey (AnnounceEntry Addr)

namespace Announce

def newOnionAnnounce (selfPubkey : CryptoKey) : Announce Addr :=
  ⟨selfPubkey, .newPriorityList announceMaxEntries⟩

def findInEntries (o : Announce Addr) (now : Time) (searchpk : CryptoKey) :
    Option (Announce Addr × Option (AnnounceEntry Addr)) :=
  match o.entries.getByKey searchpk with
  | none => some (o, none)
  | some item =>
    if isTimeout4Now now item.timestamp announceTimeout then
      (o.entries.remove AnnounceEntry.pubkey item).map fun r => ({ o with entries := r.1 }, none)
    else some (o, some item)

def newEntry (o : Announce Addr) (now : Time) (retaddr : Addr) (pubkey datpubkey : CryptoKey)
    (retdat : Bytes) : AnnounceEntry Addr :=
  ⟨pubkey, retaddr, retdat, datpubkey, now, o.selfPubkey⟩

def addToEntries (o : Announce Addr) (now : Time) (clock : Nat → Time × Time) (later : Time)
    (retaddr : Addr) (pubkey datpubkey : CryptoKey) (retdat : Bytes) :
    Option (Announce Addr × Option (AnnounceEntry Addr)) :=
  let entry := o.newEntry now retaddr pubkey datpubkey retdat
  (o.entries.put AnnounceEntry.pubkey (fun i x => entry.compare x (clock i)) entry).bind
    fun entries => { o with entries := entries }.findInEntries later pubkey

end Announce

inductive Request (Addr : Type u) where
  | announce (now : Time) (clock : Nat → Time × Time) (later : Time) (retaddr : Addr)
      (pubkey datpubkey : CryptoKey) (retdat : Bytes)
  | search (now : Time) (searchpk : CryptoKey)

variable {rs : List (Request Addr)} {selfPubkey : CryptoKey}

def handle (o : Announce Addr) : Request Addr → Option (Announce Addr)
  | .announce now clock later retaddr pubkey datpubkey retdat =>
    (o.addToEntries now clock later retaddr pubkey datpubkey retdat).map Prod.fst
  | .search now searchpk => (o.findInEntries now searchpk).map Prod.fst

def lastAnnounce (selfPubkey k : CryptoKey) : List (Request Addr) → Option (AnnounceEntry Addr) :=
  LastWrite.value fun
    | .announce now _ _ retaddr pubkey datpubkey retdat =>
      if pubkey = k then some (some ⟨pubkey, retaddr, retdat, datpubkey, now, selfPubkey⟩)
      else none
    | .search .. => none

def FreshAnnounce (o : Announce Addr) (r : Request Addr) : Prop :=
  ∀ now clock later retaddr pubkey datpubkey retdat,
    r = .announce now clock later retaddr pubkey datpubkey retdat →
    o.entries.Fresh AnnounceEntry.pubkey (o.newEntry now retaddr pubkey datpubkey retdat)

namespace Announce
variable {o o' : Announce Addr} {now : Time} {searchpk : CryptoKey}

theorem findInEntries_spec (valid : o.entries.Valid AnnounceEntry.pubkey) (now : Time)
    (searchpk : CryptoKey) :
    ∃ entries, o.findInEntries now searchpk = some ({ o with entries := entries },
        (o.entries.getByKey searchpk).filter fun item =>
          !isTimeout4Now now item.timestamp announceTimeout) ∧
      (entries = o.entries ∨
        ∃ item ok, PriorityList.Removes AnnounceEntry.pubkey item o.entries (entries, ok)) := by
  unfold findInEntries
  cases found : o.entries.getByKey searchpk with
  | none => exact ⟨o.entries, rfl, Or.inl rfl⟩
  | some item =>
    simp only [Option.filter_some]
    cases old : isTimeout4Now now item.timestamp announceTimeout with
    | false => exact ⟨o.entries, rfl, Or.inl rfl⟩
    | true =>
      obtain ⟨r, remove, removes⟩ := PriorityList.remove_spec valid item
      refine ⟨r.1, ?_, Or.inr ⟨item, r.2, removes⟩⟩
      rw [remove]
      rfl

structure UpToDate (selfPubkey : CryptoKey) (rs : List (Request Addr)) (o : Announce Addr) :
    Prop where
  self : o.selfPubkey = selfPubkey
  valid : o.entries.Valid AnnounceEntry.pubkey
  agrees : o.entries.Agrees AnnounceEntry.pubkey
  latest : ∀ x ∈ o.entries.lst, lastAnnounce selfPubkey x.pubkey rs = some x

theorem UpToDate.find (h : UpToDate selfPubkey rs o)
    (run : (o.findInEntries now searchpk).map Prod.fst = some o') : UpToDate selfPubkey rs o' := by
  obtain ⟨entries, find, same | ⟨item, ok, removes⟩⟩ := findInEntries_spec h.valid now searchpk
  · rw [find] at run
    cases run
    rw [same]
    exact h
  · rw [find] at run
    cases run
    exact ⟨h.self, removes.valid h.valid, removes.agrees h.valid h.agrees,
      fun x hx => h.latest x (removes.mem hx)⟩

theorem UpToDate.handle {r : Request Addr} (h : UpToDate selfPubkey rs o)
    (fresh : FreshAnnounce o r) (step : handle o r = some o') :
    UpToDate selfPubkey (rs ++ [r]) o' := by
  cases r with
  | search now searchpk =>
    obtain ⟨self, valid, agrees, latest⟩ := h.find step
    refine ⟨self, valid, agrees, fun x hx => ?_⟩
    rw [lastAnnounce, LastWrite.value_snoc]
    exact latest x hx
  | announce now clock later retaddr pubkey datpubkey retdat =>
    have new := fresh now clock later retaddr pubkey datpubkey retdat rfl
    obtain ⟨entries, put, puts⟩ := PriorityList.put_spec h.valid
      (fun i x => (o.newEntry now retaddr pubkey datpubkey retdat).compare x (clock i))
      (o.newEntry now retaddr pubkey datpubkey retdat)
    simp only [Onion.handle, addToEntries, put, Option.bind_some] at step
    have stored : UpToDate selfPubkey
        (rs ++ [.announce now clock later retaddr pubkey datpubkey retdat])
        { o with entries := entries } := by
      refine ⟨h.self, puts.valid h.valid, puts.agrees h.valid h.agrees new, ?_⟩
      intro x hx
      rw [lastAnnounce, LastWrite.value_snoc]
      rcases puts.mem h.valid hx with rfl | ⟨hx, ne⟩
      · simp [newEntry, h.self]
      · have ne' : pubkey ≠ x.pubkey := Ne.symm ne
        simp only [if_neg ne', Option.getD_none]
        exact h.latest x hx
    exact stored.find step

theorem upToDate_of_run (fresh : Along Onion.handle FreshAnnounce (newOnionAnnounce selfPubkey) rs)
    (run : exec Onion.handle (newOnionAnnounce selfPubkey) rs = some o) :
    UpToDate selfPubkey rs o := by
  induction rs using List.reverseRecOn generalizing o with
  | nil =>
    cases run
    exact ⟨rfl, PriorityList.valid_new _, by
      simp [newOnionAnnounce, PriorityList.newPriorityList, PriorityList.Agrees], by
      simp [newOnionAnnounce, PriorityList.newPriorityList]⟩
  | append_singleton rs r ih =>
    obtain ⟨m, before, step⟩ := exec_snoc_iff.mp run
    obtain ⟨front, last⟩ := (along_snoc_iff before).mp fresh
    exact (ih front before).handle last step

end Announce

/-- The map of a priority list, its list and the most recent `Put` have the same item in all
states of a run exactly when no call puts another item under a key that is there. -/
theorem lookups_latest_iff {κ α : Type*} [DecidableEq κ] (key : α → κ) (max : Nat)
    (es : List (PriorityList.Event α)) (selfPubkey : CryptoKey) (rs : List (Request Addr))
    (o : Announce Addr) (run : exec handle (.newOnionAnnounce selfPubkey) rs = some o) :
    ((∀ pre post l, es = pre ++ post →
        exec (PriorityList.next key) (.newPriorityList max) pre = some l → ∀ x ∈ l.lst,
          l.getByKey (key x) = some x ∧ PriorityList.lastPut key (key x) pre = some x) ↔
      Along (PriorityList.next key) (fun l e => ∀ cmp item, e = .put cmp item → l.Fresh key item)
        (.newPriorityList max) es) ∧
    (Along handle FreshAnnounce (.newOnionAnnounce selfPubkey) rs →
      ∀ k ∈ o.entries.keys, ∀ now, ∃ entry o', lastAnnounce selfPubkey k rs = some entry ∧
        o.findInEntries now k = some (o',
          if isTimeout4Now now entry.timestamp announceTimeout then none else some entry)) := by
  constructor
  · rw [← PriorityList.agrees_iff_fresh]
    constructor
    · intro h pre post l cut run x hx
      exact (h pre post l cut run x hx).1
    · intro h pre post l cut run x hx
      exact ⟨h pre post l cut run x hx, PriorityList.mem_lastPut run x hx⟩
  · intro fresh k hk now
    have upToDate := Announce.upToDate_of_run fresh run
    obtain ⟨x, hx, rfl⟩ := List.mem_map.mp ((upToDate.valid.mem_keys k).mp hk)
    obtain ⟨entries, find, -⟩ := Announce.findInEntries_spec upToDate.valid now x.pubkey
    refine ⟨x, { o with entries := entries }, upToDate.latest x hx, ?_⟩
    rw [find, PriorityList.getByKey, upToDate.agrees x hx, Option.filter_some]
    cases isTimeout4Now now x.timestamp announceTimeout <;> rfl

/-- A key is announced with one data key and, a second later, from another address with
another data key. -/
def announcedTwice : List (Request Nat) :=
  [.announce 0 (fun _ => (0, 0)) 0 5 (keyOf 1) (keyOf 2) [],
    .announce 1000000000 (fun _ => (1000000000, 1000000000)) 1000000000 6 (keyOf 1) (keyOf 3) []]

theorem lookups_latest_once : ∃ o,
    exec handle (.newOnionAnnounce (keyOf 0)) (announcedTwice.take 1) = some o ∧
    keyOf 1 ∈ o.entries.keys ∧
    ∃ entry o', lastAnnounce (keyOf 0) (keyOf 1) (announcedTwice.take 1) = some entry ∧
      o.findInEntries 0 (keyOf 1) = some (o',
        if isTimeout4Now 0 entry.timestamp announceTimeout then none else some entry) := by
  refine ⟨_, rfl, by decide +kernel, ?_⟩
  refine (lookups_latest_iff (id : Nat → Nat) 0 [] (keyOf 0) (announcedTwice.take 1) _ rfl).2 ?_
    (keyOf 1) (by decide +kernel) 0
  intro pre r post m cut run now clock later retaddr pubkey datpubkey retdat _ a found
  obtain rfl : pre = [] := by
    cases pre with
    | nil => rfl
    | cons _ pre => simp [announcedTwice] at cut
  cases run
  simp [Announce.newOnionAnnounce, PriorityList.newPriorityList] at found

/-- The list has the second announce, a lookup finds the first. -/
theorem second_announce_not_found : ∃ o,
    exec handle (.newOnionAnnounce (keyOf 0)) announcedTwice = some o ∧
    o.entries.lst = [⟨keyOf 1, 6, [], keyOf 3, 1000000000, keyOf 0⟩] ∧
    lastAnnounce (keyOf 0) (keyOf 1) announcedTwice =
      some ⟨keyOf 1, 6, [], keyOf 3, 1000000000, keyOf 0⟩ ∧
    (o.findInEntries 1000000000 (keyOf 1)).map Prod.snd =
      some (some ⟨keyOf 1, 5, [], keyOf 2, 0, keyOf 0⟩) := by
  refine ⟨_, rfl, ?_, ?_, ?_⟩ <;> decide +kernel

end Onion
