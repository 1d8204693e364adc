import Toxera.Lib.Smallest
import Toxera.Mintox.Closest
import Toxera.Mintox.PriorityList

/-!
# Lists of the closest nodes

The two kinds of items that the DHT of `mintox/dht.go` keeps in priority lists.
-/

namespace PriorityList

open Exec Smallest

universe u v w
variable {κ : Type u} {α : Type v} {β : Type w} [DecidableEq κ] [LinearOrder β] {key : α → κ}
variable {f : κ → β} {l l' : PriorityList κ α} {s : Finset κ} {item : α}

def Measures (key : α → κ) (f : κ → β) (cmp : Nat → α → Int) (item : α) (xs : List α) : Prop :=
  ∀ i, ∀ x ∈ xs, key x ≠ key item → (0 ≤ cmp i x ↔ f (key item) < f (key x))

theorem Puts.holds {cmp : Nat → α → Int} (inj : Function.Injective f) (valid : l.Valid key)
    (holds : Holds f l.max s (l.lst.map key)) (measures : Measures key f cmp item l.lst)
    (h : Puts key cmp item l l') : Holds f l'.max (insert (key item) s) (l'.lst.map key) := by
  cases h with
  | replaced known =>
    rw [replaceItem_keys, Finset.insert_eq_of_mem (holds.mem _ ((valid.mem_keys _).mp known))]
    exact holds
  | @inserted front back _ new split below above _ =>
    rw [valid.mem_keys] at new
    rw [split] at new holds measures
    rw [List.map_append] at new holds
    have ne_of_mem : ∀ x ∈ front ++ back, key x ≠ key item := by grind
    rw [List.map_take, List.map_append, List.map_cons]
    refine holds.insert new ?_ ?_
    · intro k hk
      obtain ⟨x, hx, rfl⟩ := List.mem_map.mp hk
      obtain ⟨i, hi⟩ := List.getElem?_of_mem hx
      have hx' := List.mem_append_left back hx
      have not_less : ¬ f (key item) < f (key x) := by
        rw [← measures i x hx' (ne_of_mem x hx')]
        exact Int.not_le.mpr (below i x hi)
      exact lt_of_le_of_ne (not_lt.mp not_less) fun same => ne_of_mem x hx' (inj same)
    · -- the first item behind the place is larger, and so are all that follow it
      cases back with
      | nil => simp
      | cons x back =>
        have hx' : x ∈ front ++ x :: back := by simp
        have less := (measures front.length x hx' (ne_of_mem x hx')).mp (above x rfl)
        intro k hk
        rw [List.map_cons, List.mem_cons] at hk
        rcases hk with rfl | hk
        · exact less
        · have increasing := (List.pairwise_append.mp holds.increasing).2.1
          rw [List.map_cons, List.pairwise_cons] at increasing
          exact less.trans (increasing.1 k hk)

theorem exec_puts_holds (inj : Function.Injective f) (max : Nat)
    {puts : List ((Nat → α → Int) × α)}
    (measures : ∀ p ∈ puts, ∀ xs, Measures key f p.1 p.2 xs) :
    ∃ l, exec (next key) (newPriorityList max) (puts.map fun p => .put p.1 p.2) = some l ∧
      Holds f max (puts.map fun p => key p.2).toFinset (l.lst.map key) := by
  suffices h : ∃ l,
      exec (next key) (newPriorityList max) (puts.map fun p => .put p.1 p.2) = some l ∧
      l.Valid key ∧ l.max = max ∧
      Holds f l.max (puts.map fun p => key p.2).toFinset (l.lst.map key) by
    obtain ⟨l, run, -, rfl, holds⟩ := h
    exact ⟨l, run, holds⟩
  induction puts using List.reverseRecOn with
  | nil => exact ⟨_, rfl, valid_new max, rfl, Holds.empty⟩
  | append_singleton puts p ih =>
    obtain ⟨l, run, valid, hmax, holds⟩ := ih fun q hq => measures q (List.mem_append_left _ hq)
    obtain ⟨l', put, steps⟩ := put_spec valid p.1 p.2
    have holds' := steps.holds inj valid holds (measures p (by simp) l.lst)
    refine ⟨l', ?_, steps.valid valid, steps.max.trans hmax, ?_⟩
    · rw [List.map_append]
      exact exec_snoc_iff.mpr ⟨l, run, put⟩
    · have keys : ((puts ++ [p]).map fun p => key p.2).toFinset =
          insert (key p.2) (puts.map fun p => key p.2).toFinset := by
        rw [List.map_append, List.toFinset_append, List.map_singleton, List.toFinset_cons,
          List.toFinset_nil, Finset.union_insert, Finset.union_empty]
      rw [keys]
      exact holds'

end PriorityList

namespace Dht

open CryptoCore Exec PriorityList Smallest

universe u
variable {Addr : Type u}

structure NodeFormat (Addr : Type u) where
  pubkey : CryptoKey
  addr : Addr
  cmppk : CryptoKey
  deriving DecidableEq

def NodeFormat.compare (this that : NodeFormat Addr) : Int :=
  idClosest this.cmppk this.pubkey that.pubkey

structure IPPTsPng (Addr : Type u) where
  addr : Addr
  timestamp : Time
  lastPinged : Time
  retAddr : Addr
  retTimestamp : Time
  deriving DecidableEq

structure ClientData (Addr : Type u) where
  pubkey : CryptoKey
  assoc : IPPTsPng Addr
  cmppk : CryptoKey
  deriving DecidableEq

def ClientData.compare (this that : ClientData Addr) (now : Time) : Int :=
  let n := idClosest this.cmppk this.pubkey that.pubkey
  if n = 1 ∧ now - this.assoc.timestamp > now - that.assoc.timestamp then -1 else n

theorem closer_iff {c a b : CryptoKey} (ne : b ≠ a) :
    0 ≤ idClosest c a b ↔ distance c a < distance c b := by
  rcases idClosest_spec c a b with ⟨less, h⟩ | ⟨more, h⟩ | ⟨same, -⟩
  · simp [h, less]
  · simp [h, more.le]
  · exact absurd same.symm ne

theorem NodeFormat.measures (this : NodeFormat Addr) (xs : List (NodeFormat Addr)) :
    Measures NodeFormat.pubkey (distance this.cmppk) (fun _ x => this.compare x) this xs := by
  intro _ x _ ne
  exact closer_iff ne

theorem ClientData.measures (this : ClientData Addr) (clock : Nat → Time)
    (xs : List (ClientData Addr)) :
    Measures ClientData.pubkey (distance this.cmppk) (fun i x => this.compare x (clock i)) this
      xs := by
  intro i x _ ne
  have different : idClosest this.cmppk this.pubkey x.pubkey ≠ 1 := by
    rcases idClosest_spec this.cmppk this.pubkey x.pubkey with ⟨-, h⟩ | ⟨-, h⟩ | ⟨same, -⟩
    · simp [h]
    · simp [h]
    · exact absurd same.symm ne
  have byDistance : this.compare x (clock i) = idClosest this.cmppk this.pubkey x.pubkey :=
    if_neg fun h => different h.1
  show 0 ≤ this.compare x (clock i) ↔ _
  rw [byDistance]
  exact closer_iff ne

def putNodes (max : Nat) (nodes : List (NodeFormat Addr)) :
    Option (PriorityList CryptoKey (NodeFormat Addr)) :=
  exec (next NodeFormat.pubkey) (newPriorityList max)
    (nodes.map fun n => .put (fun _ x => n.compare x) n)

def putClients (max : Nat) (clients : List (ClientData Addr × (Nat → Time))) :
    Option (PriorityList CryptoKey (ClientData Addr)) :=
  exec (next ClientData.pubkey) (newPriorityList max)
    (clients.map fun p => .put (fun i x => p.1.compare x (p.2 i)) p.1)

theorem putNodes_holds (max : Nat) {c : CryptoKey} {nodes : List (NodeFormat Addr)}
    (same : ∀ n ∈ nodes, n.cmppk = c) :
    ∃ l, putNodes max nodes = some l ∧ Holds (distance c) max
      (nodes.map NodeFormat.pubkey).toFinset (l.lst.map NodeFormat.pubkey) := by
  have measures : ∀ p ∈ nodes.map fun n => ((fun (_ : Nat) x => n.compare x), n), ∀ xs,
      Measures NodeFormat.pubkey (distance c) p.1 p.2 xs := by
    intro p hp xs
    obtain ⟨n, hn, rfl⟩ := List.mem_map.mp hp
    exact same n hn ▸ n.measures xs
  obtain ⟨l, run, holds⟩ := exec_puts_holds (distance_injective c) max measures
  rw [List.map_map] at run holds
  exact ⟨l, run, holds⟩

theorem putClients_holds (max : Nat) {c : CryptoKey}
    {clients : List (ClientData Addr × (Nat → Time))} (same : ∀ p ∈ clients, p.1.cmppk = c) :
    ∃ l, putClients max clients = some l ∧ Holds (distance c) max
      (clients.map fun p => p.1.pubkey).toFinset (l.lst.map ClientData.pubkey) := by
  have measures : ∀ p ∈ clients.map fun p => ((fun i x => p.1.compare x (p.2 i)), p.1), ∀ xs,
      Measures ClientData.pubkey (distance c) p.1 p.2 xs := by
    intro p hp xs
    obtain ⟨q, hq, rfl⟩ := List.mem_map.mp hp
    exact same q hq ▸ q.1.measures q.2 xs
  obtain ⟨l, run, holds⟩ := exec_puts_holds (distance_injective c) max measures
  rw [List.map_map] at run holds
  exact ⟨l, run, holds⟩

/-- Lists of nodes and lists of clients hold the closest of all keys put, in the order of
the distances, and so do not depend on the order of the calls. -/
theorem lists_hold_closest (max : Nat) (c : CryptoKey) (nodes nodes' : List (NodeFormat Addr))
    (clients clients' : List (ClientData Addr × (Nat → Time)))
    (ref : ∀ n ∈ nodes ++ nodes', n.cmppk = c) (ref' : ∀ p ∈ clients ++ clients', p.1.cmppk = c) :
    ∃ l l' m m', putNodes max nodes = some l ∧ putNodes max nodes' = some l' ∧
      putClients max clients = some m ∧ putClients max clients' = some m' ∧
      Holds (distance c) max (nodes.map NodeFormat.pubkey).toFinset
        (l.lst.map NodeFormat.pubkey) ∧
      Holds (distance c) max (clients.map fun p => p.1.pubkey).toFinset
        (m.lst.map ClientData.pubkey) ∧
      ((nodes.map NodeFormat.pubkey).toFinset = (nodes'.map NodeFormat.pubkey).toFinset →
        l.lst.map NodeFormat.pubkey = l'.lst.map NodeFormat.pubkey) ∧
      ((clients.map fun p => p.1.pubkey).toFinset = (clients'.map fun p => p.1.pubkey).toFinset →
        m.lst.map ClientData.pubkey = m'.lst.map ClientData.pubkey) := by
  obtain ⟨l, run, holds⟩ :=
    putNodes_holds max fun n hn => ref n (List.mem_append_left nodes' hn)
  obtain ⟨l', run', holds'⟩ :=
    putNodes_holds max fun n hn => ref n (List.mem_append_right nodes hn)
  obtain ⟨m, runc, holdsc⟩ :=
    putClients_holds max fun p hp => ref' p (List.mem_append_left clients' hp)
  obtain ⟨m', runc', holdsc'⟩ :=
    putClients_holds max fun p hp => ref' p (List.mem_append_right clients hp)
  refine ⟨l, l', m, m', run, run', runc, runc', holds, holdsc, ?_, ?_⟩
  · intro keys
    rw [keys] at holds
    exact holds.unique holds'
  · intro keys
    rw [keys] at holdsc
    exact holdsc.unique holdsc'

def threeNodes : List (NodeFormat Nat) :=
  [⟨keyOf 3, 0, keyOf 0⟩, ⟨keyOf 1, 1, keyOf 0⟩, ⟨keyOf 2, 2, keyOf 0⟩]

theorem lists_hold_closest_three : ∃ l l' : PriorityList CryptoKey (NodeFormat Nat),
    putNodes 2 threeNodes = some l ∧ putNodes 2 threeNodes.reverse = some l' ∧
    Holds (distance (keyOf 0)) 2 (threeNodes.map NodeFormat.pubkey).toFinset
      (l.lst.map NodeFormat.pubkey) ∧
    l.lst.map NodeFormat.pubkey = [keyOf 1, keyOf 2] ∧
    l'.lst.map NodeFormat.pubkey = [keyOf 1, keyOf 2] := by
  obtain ⟨l, l', m, m', run, run', -, -, holds, -, same, -⟩ := lists_hold_closest 2 (keyOf 0)
    threeNodes threeNodes.reverse [] [] (by decide +kernel) (by simp)
  have keys : (putNodes 2 threeNodes).map (fun l => l.lst.map NodeFormat.pubkey) =
      some [keyOf 1, keyOf 2] := by decide +kernel
  rw [run, Option.map_some] at keys
  have listed := Option.some.inj keys
  refine ⟨l, l', run, run', holds, listed, ?_⟩
  rw [← same (by decide +kernel), listed]

end Dht
