import Toxera.Lib.Pointwise
import Toxera.Mintox.ClosestLists

/-!
# Nodes for every friend

How the DHT of `mintox/dht.go` hands a received node to its own lists and to the lists of
every friend.
-/

namespace Dht

open CryptoCore Exec PriorityList Smallest

universe u
variable {Addr : Type u}

def maxFriendClients : Nat := 8
def lclientList : Nat := 128 * maxFriendClients
def maxCloseToBootstrapNodes : Nat := 8
def maxSentNodes : Nat := 4
def badNodeTimeout : Int := 122
def maxInt32 : Nat := 2147483647

structure Node (Addr : Type u) where
  ref : Nat
  pubkey : CryptoKey
  addr : Addr
  deriving DecidableEq

def Node.compare (cmppk : Nat → CryptoKey) (this that : Node Addr) : Int :=
  idClosest (cmppk this.ref) this.pubkey that.pubkey

abbrev NodeList (Addr : Type u) := PriorityList CryptoKey (Node Addr)

structure DHTFriend (Addr : Type u) where
  pubkey : CryptoKey
  clientList : NodeList Addr
  toBootstrap : NodeList Addr
  cmppk : CryptoKey

structure FriendRef where
  ref : Nat
  pubkey : CryptoKey
  deriving DecidableEq

structure DHT (Addr : Type u) where
  selfPubkey : CryptoKey
  closeClientList : PriorityList CryptoKey (ClientData Addr)
  friendsList : PriorityList CryptoKey FriendRef
  toBootstrap : NodeList Addr
  /-- the reference key of every node object, and how many there are -/
  cmppk : Nat → CryptoKey
  nnodes : Nat
  friends : Nat → DHTFriend Addr
  nfriends : Nat

def newDHTFriend (pubkey : CryptoKey) : DHTFriend Addr where
  pubkey := pubkey
  clientList := newPriorityList maxFriendClients
  toBootstrap := newPriorityList maxSentNodes
  cmppk := pubkey

def newDHT (selfPubkey : CryptoKey) : DHT Addr where
  selfPubkey := selfPubkey
  closeClientList := newPriorityList lclientList
  friendsList := newPriorityList maxInt32
  toBootstrap := newPriorityList maxCloseToBootstrapNodes
  cmppk := fun _ => selfPubkey
  nnodes := 0
  friends := fun _ => newDHTFriend selfPubkey
  nfriends := 0

def DHT.newNode (d : DHT Addr) (pubkey : CryptoKey) (addr : Addr) (cmppk : CryptoKey) :
    Node Addr × DHT Addr :=
  (⟨d.nnodes, pubkey, addr⟩,
    { d with nnodes := d.nnodes + 1, cmppk := Function.update d.cmppk d.nnodes cmppk })

def putNode (l : NodeList Addr) (cmppk : Nat → CryptoKey) (n : Node Addr) :
    Option (NodeList Addr) :=
  l.put Node.pubkey (fun _ x => n.compare cmppk x) n

def adoptClient (now : CryptoKey → Time) (pubkey : CryptoKey) (r : DHT Addr × NodeList Addr)
    (item : ClientData Addr) : Option (DHT Addr × NodeList Addr) :=
  if isTimeout4Now (now item.pubkey) item.assoc.timestamp badNodeTimeout then some r
  else
    let (n, d) := r.1.newNode item.pubkey item.assoc.addr pubkey
    (putNode r.2 d.cmppk n).map fun l => (d, l)

/-- The clients of other friends are nodes, which the conversion to a client refuses. -/
def addFriend (d : DHT Addr) (now : CryptoKey → Time) (pubkey : CryptoKey) : Option (DHT Addr) :=
  if (d.friendsList.getByKey pubkey).isSome then some d
  else
    (d.closeClientList.lst.foldlM (adoptClient now pubkey)
      (d, (newDHTFriend pubkey).toBootstrap)).bind fun (d, toBootstrap) =>
    if ∃ p ∈ d.friendsList.lst, (d.friends p.ref).clientList.lst.length ≠ 0 then none
    else
      let frndo := { newDHTFriend pubkey with toBootstrap := toBootstrap }
      (d.friendsList.put FriendRef.pubkey (fun _ _ => 1) ⟨d.nfriends, pubkey⟩).map
        fun friendsList =>
        { d with
          friendsList := friendsList
          friends := Function.update d.friends d.nfriends frndo
          nfriends := d.nfriends + 1 }

def addNode (cmppk : Nat → CryptoKey) (f : DHTFriend Addr) (n : Node Addr) :
    Option ((Nat → CryptoKey) × DHTFriend Addr) :=
  let cmppk := if cmppk n.ref ≠ f.cmppk then Function.update cmppk n.ref f.cmppk else cmppk
  (putNode f.clientList cmppk n).bind fun clientList =>
    (putNode f.toBootstrap cmppk n).map fun toBootstrap =>
      (cmppk, { f with clientList := clientList, toBootstrap := toBootstrap })

def addNodeTo (n : Node Addr) (d : DHT Addr) (ref : Nat) : Option (DHT Addr) :=
  (addNode d.cmppk (d.friends ref) n).map fun r =>
    { d with cmppk := r.1, friends := Function.update d.friends ref r.2 }

/-- An entry of a node list, with the readings of the clock while it is processed. -/
structure Received (Addr : Type u) where
  nodekey : CryptoKey
  addr : Addr
  timestamp : Time
  lastPinged : Time
  retTimestamp : Time
  clock : Nat → Time

def processNode (d : DHT Addr) (r : Received Addr) : Option (DHT Addr) :=
  let (nodfmt, d) := d.newNode r.nodekey r.addr d.selfPubkey
  (putNode d.toBootstrap d.cmppk nodfmt).bind fun toBootstrap =>
    let clidat : ClientData Addr :=
      ⟨r.nodekey, ⟨r.addr, r.timestamp, r.lastPinged, r.addr, r.retTimestamp⟩, d.selfPubkey⟩
    (d.closeClientList.put ClientData.pubkey (fun i x => clidat.compare x (r.clock i)) clidat).bind
      fun closeClientList =>
      (d.friendsList.lst.map FriendRef.ref).foldlM (addNodeTo nodfmt)
        { d with toBootstrap := toBootstrap, closeClientList := closeClientList }

def handleSendNodes (d : DHT Addr) (nodes : List (Received Addr)) : Option (DHT Addr) :=
  nodes.foldlM processNode d

structure Closest (c : CryptoKey) (n : Nat) (s : Finset CryptoKey) (l : NodeList Addr) : Prop where
  valid : l.Valid Node.pubkey
  max : l.max = n
  holds : Holds (distance c) n s (l.lst.map Node.pubkey)

theorem Closest.new (c : CryptoKey) (n : Nat) :
    Closest c n ∅ (newPriorityList n : NodeList Addr) :=
  ⟨valid_new n, rfl, Holds.empty⟩

theorem Closest.put {c : CryptoKey} {k : Nat} {s : Finset CryptoKey} {l : NodeList Addr}
    {cmppk : Nat → CryptoKey} {n : Node Addr} (h : Closest c k s l) (ref : cmppk n.ref = c) :
    ∃ l', putNode l cmppk n = some l' ∧ Closest c k (insert n.pubkey s) l' := by
  obtain ⟨l', put, puts⟩ := put_spec h.valid (fun _ x => n.compare cmppk x) n
  have measures : Measures Node.pubkey (distance c) (fun _ x => n.compare cmppk x) n l.lst := by
    intro _ x _ ne
    show 0 ≤ idClosest (cmppk n.ref) n.pubkey x.pubkey ↔ _
    rw [ref]
    exact closer_iff ne
  have hmax : l'.max = k := puts.max.trans h.max
  refine ⟨l', put, puts.valid h.valid, hmax, ?_⟩
  have holds := puts.holds (distance_injective c) h.valid (h.max ▸ h.holds) measures
  rwa [hmax] at holds

structure FriendOk (s : Finset CryptoKey) (f : DHTFriend Addr) : Prop where
  ref : f.cmppk = f.pubkey
  clients : Closest f.pubkey maxFriendClients s f.clientList
  bootstrap : Closest f.pubkey maxSentNodes s f.toBootstrap

theorem addNode_spec {s : Finset CryptoKey} {f : DHTFriend Addr} (ok : FriendOk s f)
    (cmppk : Nat → CryptoKey) (n : Node Addr) :
    ∃ cmppk' f', addNode cmppk f n = some (cmppk', f') ∧ f'.pubkey = f.pubkey ∧
      FriendOk (insert n.pubkey s) f' := by
  unfold addNode
  extract_lets targeted
  have ref : targeted n.ref = f.pubkey := by
    rw [← ok.ref]
    show (if cmppk n.ref ≠ f.cmppk then Function.update cmppk n.ref f.cmppk else cmppk) n.ref = _
    split_ifs with differs
    · exact Function.update_self ..
    · exact not_not.mp differs
  obtain ⟨clients, put, closest⟩ := ok.clients.put ref
  obtain ⟨bootstrap, put', closest'⟩ := ok.bootstrap.put ref
  refine ⟨targeted, { f with clientList := clients, toBootstrap := bootstrap }, ?_, rfl,
    ok.ref, closest, closest'⟩
  rw [put, put']
  rfl

structure Good (s : Finset CryptoKey) (d : DHT Addr) : Prop where
  self : Closest d.selfPubkey maxCloseToBootstrapNodes s d.toBootstrap
  clients : d.closeClientList.Valid ClientData.pubkey
  listed : d.friendsList.Valid FriendRef.pubkey
  refs : (d.friendsList.lst.map FriendRef.ref).Nodup
  allocated : ∀ p ∈ d.friendsList.lst, p.ref < d.nfriends
  friends : ∀ p ∈ d.friendsList.lst,
    (d.friends p.ref).pubkey = p.pubkey ∧ FriendOk s (d.friends p.ref)

theorem Good.new (selfPubkey : CryptoKey) : Good ∅ (newDHT selfPubkey : DHT Addr) where
  self := Closest.new _ _
  clients := valid_new _
  listed := valid_new _
  refs := List.nodup_nil
  allocated := by simp [newDHT, newPriorityList]
  friends := by simp [newDHT, newPriorityList]

theorem addNodeTo_loop {P : DHTFriend Addr → Prop} {Q : DHTFriend Addr → DHTFriend Addr → Prop}
    {n : Node Addr}
    (add : ∀ cmppk f, P f → ∃ cmppk' f', addNode cmppk f n = some (cmppk', f') ∧ Q f f')
    {d : DHT Addr} (refs : (d.friendsList.lst.map FriendRef.ref).Nodup)
    (ok : ∀ p ∈ d.friendsList.lst, P (d.friends p.ref)) :
    ∃ cmppk friends, (d.friendsList.lst.map FriendRef.ref).foldlM (addNodeTo n) d =
        some { d with cmppk := cmppk, friends := friends } ∧
      ∀ p ∈ d.friendsList.lst, Q (d.friends p.ref) (friends p.ref) := by
  obtain ⟨d', fold, ⟨cmppk, friends, rfl⟩, post, -⟩ := Pointwise.foldlM_cell (m := Option)
    (fun d : DHT Addr => d.friends) (addNodeTo n) (fun _ f => P f) (fun _ f f' => Q f f')
    (fun d d' => ∃ cmppk friends, d' = { d with cmppk := cmppk, friends := friends })
    (fun d => ⟨_, _, rfl⟩) (by
      rintro d _ _ ⟨_, _, rfl⟩ ⟨cmppk, friends, rfl⟩
      exact ⟨cmppk, friends, rfl⟩)
    (by
      intro d ref ok
      obtain ⟨cmppk, f, added, post⟩ := add d.cmppk (d.friends ref) ok
      refine ⟨{ d with cmppk := cmppk, friends := Function.update d.friends ref f }, ?_, ?_,
        ⟨_, _, rfl⟩, fun i hi => Function.update_of_ne hi ..⟩
      · rw [addNodeTo, added]
        rfl
      · simp only [Function.update_self]
        exact post)
    refs d (by
      intro ref href
      obtain ⟨p, hp, rfl⟩ := List.mem_map.mp href
      exact ok p hp)
  exact ⟨cmppk, friends, fold, fun p hp => post p.ref (List.mem_map_of_mem hp)⟩

theorem processNode_runs {P : DHTFriend Addr → Prop} {Q : DHTFriend Addr → DHTFriend Addr → Prop}
    {d : DHT Addr} {r : Received Addr} (bootstrap : d.toBootstrap.Valid Node.pubkey)
    (clients : d.closeClientList.Valid ClientData.pubkey)
    (refs : (d.friendsList.lst.map FriendRef.ref).Nodup)
    (ok : ∀ p ∈ d.friendsList.lst, P (d.friends p.ref))
    (add : ∀ cmppk f, P f → ∃ cmppk' f',
      addNode cmppk f ⟨d.nnodes, r.nodekey, r.addr⟩ = some (cmppk', f') ∧ Q f f') :
    ∃ d', processNode d r = some d' ∧
      putNode d.toBootstrap (Function.update d.cmppk d.nnodes d.selfPubkey)
        ⟨d.nnodes, r.nodekey, r.addr⟩ = some d'.toBootstrap ∧
      d'.closeClientList.Valid ClientData.pubkey ∧ d'.selfPubkey = d.selfPubkey ∧
      d'.friendsList = d.friendsList ∧ d'.nfriends = d.nfriends ∧
      ∀ p ∈ d.friendsList.lst, Q (d.friends p.ref) (d'.friends p.ref) := by
  simp only [processNode, DHT.newNode]
  obtain ⟨toBootstrap, put, -⟩ := put_spec bootstrap
    (fun _ x => Node.compare (Function.update d.cmppk d.nnodes d.selfPubkey)
      ⟨d.nnodes, r.nodekey, r.addr⟩ x) ⟨d.nnodes, r.nodekey, r.addr⟩
  obtain ⟨closeClientList, put', puts'⟩ := put_spec clients _ _
  rw [show putNode .. = _ from put, Option.bind_some, put', Option.bind_some]
  obtain ⟨cmppk, friends, fold, post⟩ := addNodeTo_loop add
    (d := { d with
      nnodes := d.nnodes + 1
      cmppk := Function.update d.cmppk d.nnodes d.selfPubkey
      toBootstrap := toBootstrap
      closeClientList := closeClientList }) refs ok
  rw [fold]
  exact ⟨_, rfl, rfl, puts'.valid clients, rfl, rfl, rfl, post⟩

theorem processNode_spec {s : Finset CryptoKey} {d : DHT Addr} (good : Good s d)
    (r : Received Addr) :
    ∃ d', processNode d r = some d' ∧ Good (insert r.nodekey s) d' ∧
      d'.selfPubkey = d.selfPubkey ∧ d'.friendsList = d.friendsList := by
  obtain ⟨toBootstrap, put, closest⟩ := good.self.put (n := ⟨d.nnodes, r.nodekey, r.addr⟩)
    (Function.update_self d.nnodes d.selfPubkey d.cmppk)
  obtain ⟨d', run, put', clients, self, same, count, post⟩ := processNode_runs good.self.valid
    good.clients good.refs (fun p hp => (good.friends p hp).2)
    (fun cmppk f ok => addNode_spec ok cmppk ⟨d.nnodes, r.nodekey, r.addr⟩)
  obtain rfl : toBootstrap = d'.toBootstrap := Option.some.inj (put.symm.trans put')
  refine ⟨d', run, ⟨self ▸ closest, clients, same ▸ good.listed, same ▸ good.refs, ?_, ?_⟩,
    self, same⟩
  · rw [same, count]
    exact good.allocated
  · intro p hp
    rw [same] at hp
    exact ⟨(post p hp).1.trans (good.friends p hp).1, (post p hp).2⟩

theorem foldlM_processNode {s : Finset CryptoKey} {d : DHT Addr} (good : Good s d)
    (nodes : List (Received Addr)) :
    ∃ d', nodes.foldlM processNode d = some d' ∧
      Good ((nodes.map Received.nodekey).toFinset ∪ s) d' ∧
      d'.selfPubkey = d.selfPubkey ∧ d'.friendsList = d.friendsList := by
  refine foldlM_history (P := fun nodes d' => Good ((nodes.map Received.nodekey).toFinset ∪ s) d' ∧
    d'.selfPubkey = d.selfPubkey ∧ d'.friendsList = d.friendsList)
    ⟨by simpa using good, rfl, rfl⟩ ?_ nodes
  rintro nodes m r ⟨good', self, friends⟩
  obtain ⟨d', step, good'', self', friends'⟩ := processNode_spec good' r
  refine ⟨d', step, ?_, self'.trans self, friends'.trans friends⟩
  rwa [List.map_append, List.toFinset_append, List.map_singleton, List.toFinset_cons,
    List.toFinset_nil, insert_empty_eq, Finset.union_assoc, Finset.union_left_comm,
    ← Finset.insert_eq]

theorem foldlM_handleSendNodes {s : Finset CryptoKey} {d : DHT Addr} (good : Good s d)
    (lists : List (List (Received Addr))) :
    ∃ d', lists.foldlM handleSendNodes d = some d' ∧
      Good ((lists.flatten.map Received.nodekey).toFinset ∪ s) d' ∧
      d'.selfPubkey = d.selfPubkey ∧ d'.friendsList = d.friendsList := by
  refine foldlM_history (P := fun lists d' =>
    Good ((lists.flatten.map Received.nodekey).toFinset ∪ s) d' ∧
    d'.selfPubkey = d.selfPubkey ∧ d'.friendsList = d.friendsList)
    ⟨by simpa using good, rfl, rfl⟩ ?_ lists
  rintro lists m nodes ⟨good', self, friends⟩
  obtain ⟨d', step, good'', self', friends'⟩ := foldlM_processNode good' nodes
  refine ⟨d', step, ?_, self'.trans self, friends'.trans friends⟩
  rwa [List.flatten_append, List.flatten_singleton, List.map_append, List.toFinset_append,
    Finset.union_assoc, Finset.union_left_comm]

structure Prepared (added : List CryptoKey) (d : DHT Addr) : Prop where
  good : Good ∅ d
  noClients : d.closeClientList.lst = []
  capacity : d.friendsList.max = maxInt32
  all : added.toFinset.card ≤ maxInt32 →
    ∀ k, k ∈ d.friendsList.lst.map FriendRef.pubkey ↔ k ∈ added

theorem Prepared.new (selfPubkey : CryptoKey) : Prepared [] (newDHT selfPubkey : DHT Addr) :=
  ⟨.new selfPubkey, rfl, rfl, by simp [newDHT, newPriorityList]⟩

theorem FriendOk.new (pubkey : CryptoKey) : FriendOk ∅ (newDHTFriend pubkey : DHTFriend Addr) :=
  ⟨rfl, Closest.new _ _, Closest.new _ _⟩

theorem Prepared.room {added : List CryptoKey} {d : DHT Addr} (h : Prepared added d)
    {pubkey : CryptoKey} (new : pubkey ∉ d.friendsList.keys)
    (few : (added ++ [pubkey]).toFinset.card ≤ maxInt32) (fewer : added.toFinset.card ≤ maxInt32) :
    d.friendsList.lst.length < d.friendsList.max := by
  have keys : (d.friendsList.lst.map FriendRef.pubkey).toFinset = added.toFinset := by
    ext k
    rw [List.mem_toFinset, List.mem_toFinset, h.all fewer]
  have size := List.toFinset_card_of_nodup h.good.listed.nodup
  rw [keys, List.length_map] at size
  have out : pubkey ∉ added.toFinset := by
    rw [List.mem_toFinset, ← h.all fewer, ← h.good.listed.mem_keys]
    exact new
  rw [List.toFinset_append, Finset.union_comm, List.toFinset_cons, List.toFinset_nil,
    Finset.insert_union, Finset.empty_union, Finset.card_insert_of_notMem out] at few
  rw [h.capacity]
  omega

theorem card_le_of_snoc {added : List CryptoKey} {pubkey : CryptoKey} {n : Nat}
    (few : (added ++ [pubkey]).toFinset.card ≤ n) : added.toFinset.card ≤ n := by
  refine le_trans (Finset.card_le_card ?_) few
  intro k hk
  simp only [List.mem_toFinset, List.mem_append] at hk ⊢
  exact Or.inl hk

theorem Good.no_nodes {d : DHT Addr} (h : Good ∅ d) :
    ¬ ∃ p ∈ d.friendsList.lst, (d.friends p.ref).clientList.lst.length ≠ 0 := by
  rintro ⟨p, hp, nonempty⟩
  have holds := (h.friends p hp).2.clients.holds.length
  rw [List.length_map, Finset.card_empty, Nat.min_zero] at holds
  exact nonempty holds

def withFriend (d : DHT Addr) (pubkey : CryptoKey) (list : PriorityList CryptoKey FriendRef) :
    DHT Addr :=
  { d with
    friendsList := list
    friends := Function.update d.friends d.nfriends (newDHTFriend pubkey)
    nfriends := d.nfriends + 1 }

theorem Prepared.addFriend_new {added : List CryptoKey} {d : DHT Addr} (h : Prepared added d)
    (now : CryptoKey → Time) {pubkey : CryptoKey} (new : pubkey ∉ d.friendsList.keys) :
    ∃ list, Dht.addFriend d now pubkey = some (withFriend d pubkey list) ∧
      Puts FriendRef.pubkey (fun _ _ => 1) ⟨d.nfriends, pubkey⟩ d.friendsList list := by
  obtain ⟨list, put, puts⟩ := put_spec h.good.listed (fun _ _ => 1) ⟨d.nfriends, pubkey⟩
  refine ⟨list, ?_, puts⟩
  rw [Dht.addFriend, if_neg (mt getByKey_isSome.mp new), h.noClients]
  simp only [List.foldlM_nil, Option.pure_def, Option.bind_some, if_neg h.good.no_nodes, put,
    Option.map_some]
  rfl

theorem friendRefs_put {d : DHT Addr} (listed : d.friendsList.Valid FriendRef.pubkey)
    (refs : (d.friendsList.lst.map FriendRef.ref).Nodup)
    (allocated : ∀ p ∈ d.friendsList.lst, p.ref < d.nfriends) {pubkey : CryptoKey}
    (new : pubkey ∉ d.friendsList.keys) {list : PriorityList CryptoKey FriendRef}
    (puts : Puts FriendRef.pubkey (fun _ _ => 1) ⟨d.nfriends, pubkey⟩ d.friendsList list) :
    (list.lst.map FriendRef.ref).Nodup ∧ (∀ p ∈ list.lst, p.ref < d.nfriends + 1) ∧
      ∀ p ∈ list.lst, p = ⟨d.nfriends, pubkey⟩ ∨ p ∈ d.friendsList.lst ∧ p.ref ≠ d.nfriends := by
  have origin : ∀ p ∈ list.lst,
      p = ⟨d.nfriends, pubkey⟩ ∨ p ∈ d.friendsList.lst ∧ p.ref ≠ d.nfriends := by
    intro p hp
    refine (puts.mem listed hp).imp_right fun ⟨hp, _⟩ => ⟨hp, (allocated p hp).ne⟩
  refine ⟨?_, ?_, origin⟩
  · cases puts with
    | replaced known => exact absurd known new
    | @inserted front back keys _ split _ _ _ =>
      have fresh : d.nfriends ∉ d.friendsList.lst.map FriendRef.ref := by grind
      rw [split] at refs fresh
      have nodup : ((front ++ ⟨d.nfriends, pubkey⟩ :: back).map FriendRef.ref).Nodup :=
        nodup_inserted refs fresh
      exact nodup.sublist ((List.take_sublist _ _).map _)
  · intro p hp
    rcases origin p hp with rfl | ⟨hp, -⟩
    · exact Nat.lt_succ_self _
    · exact Nat.lt_succ_of_lt (allocated p hp)

theorem Good.withFriend {d : DHT Addr} (h : Good ∅ d) {pubkey : CryptoKey}
    (new : pubkey ∉ d.friendsList.keys) {list : PriorityList CryptoKey FriendRef}
    (puts : Puts FriendRef.pubkey (fun _ _ => 1) ⟨d.nfriends, pubkey⟩ d.friendsList list) :
    Good ∅ (withFriend d pubkey list) := by
  obtain ⟨refs, allocated, origin⟩ := friendRefs_put h.listed h.refs h.allocated new puts
  refine ⟨h.self, h.clients, puts.valid h.listed, refs, allocated, ?_⟩
  intro p hp
  rcases origin p hp with rfl | ⟨hp, old⟩
  · simp only [Dht.withFriend, Function.update_self]
    exact ⟨rfl, FriendOk.new pubkey⟩
  · simp only [Dht.withFriend, Function.update_of_ne old]
    exact h.friends p hp

theorem Prepared.addFriend {added : List CryptoKey} {d : DHT Addr} (h : Prepared added d)
    (now : CryptoKey → Time) (pubkey : CryptoKey) :
    ∃ d', Dht.addFriend d now pubkey = some d' ∧ Prepared (added ++ [pubkey]) d' ∧
      d'.selfPubkey = d.selfPubkey := by
  by_cases known : pubkey ∈ d.friendsList.keys
  · rw [Dht.addFriend, if_pos (getByKey_isSome.mpr known)]
    refine ⟨d, rfl, ⟨h.good, h.noClients, h.capacity, ?_⟩, rfl⟩
    intro few k
    have all := h.all (card_le_of_snoc few)
    rw [all, List.mem_append, List.mem_singleton]
    refine ⟨Or.inl, fun hk => hk.elim id ?_⟩
    rintro rfl
    exact (all k).mp ((h.good.listed.mem_keys k).mp known)
  · obtain ⟨list, eq, puts⟩ := h.addFriend_new now known
    have good := h.good.withFriend known puts
    cases puts with
    | replaced _ => exact absurd ‹_› known
    | @inserted front back keys _ split _ _ _ =>
      refine ⟨_, eq, ⟨good, h.noClients, h.capacity, ?_⟩, rfl⟩
      intro few k
      have room := h.room known few (card_le_of_snoc few)
      rw [split, List.length_append] at room
      show k ∈ ((front ++ _ :: back).take d.friendsList.max).map FriendRef.pubkey ↔ _
      rw [List.take_of_length_le (by simp only [List.length_append, List.length_cons]; omega),
        mem_inserted, ← split, h.all (card_le_of_snoc few), List.mem_append, List.mem_singleton,
        or_comm]

theorem foldlM_addFriend (selfPubkey : CryptoKey) (added : List ((CryptoKey → Time) × CryptoKey)) :
    ∃ d : DHT Addr, added.foldlM (fun d p => addFriend d p.1 p.2) (newDHT selfPubkey) = some d ∧
      Prepared (added.map Prod.snd) d ∧ d.selfPubkey = selfPubkey := by
  refine foldlM_history (P := fun (added : List ((CryptoKey → Time) × CryptoKey)) d =>
    Prepared (added.map Prod.snd) d ∧ d.selfPubkey = selfPubkey)
    ⟨Prepared.new selfPubkey, rfl⟩ ?_ added
  rintro added m p ⟨prepared, self⟩
  obtain ⟨d, step, prepared', self'⟩ := prepared.addFriend p.1 p.2
  refine ⟨d, step, ?_, self'.trans self⟩
  rwa [List.map_append, List.map_singleton]

/-- Friends are added to a new DHT, and then node lists are received. -/
theorem friends_hold_closest (selfPubkey : CryptoKey)
    (added : List ((CryptoKey → Time) × CryptoKey)) (lists : List (List (Received Addr))) :
    ∃ d₀ d : DHT Addr,
      added.foldlM (fun d p => addFriend d p.1 p.2) (newDHT selfPubkey) = some d₀ ∧
      lists.foldlM handleSendNodes d₀ = some d ∧
      Holds (distance selfPubkey) maxCloseToBootstrapNodes
        (lists.flatten.map Received.nodekey).toFinset (d.toBootstrap.lst.map Node.pubkey) ∧
      (∀ p ∈ d.friendsList.lst, (d.friends p.ref).pubkey = p.pubkey ∧
        Holds (distance p.pubkey) maxFriendClients
          (lists.flatten.map Received.nodekey).toFinset
          ((d.friends p.ref).clientList.lst.map Node.pubkey)) ∧
      ((added.map Prod.snd).toFinset.card ≤ maxInt32 →
        ∀ q ∈ added, ∃ p ∈ d.friendsList.lst, p.pubkey = q.2) := by
  obtain ⟨d₀, run₀, prepared, self₀⟩ := foldlM_addFriend selfPubkey added
  obtain ⟨d, run, good, self, friends⟩ := foldlM_handleSendNodes prepared.good lists
  rw [Finset.union_empty] at good
  refine ⟨d₀, d, run₀, run, ?_, ?_, ?_⟩
  · have holds := good.self.holds
    rwa [self, self₀] at holds
  · intro p hp
    obtain ⟨same, ok⟩ := good.friends p hp
    exact ⟨same, same ▸ ok.clients.holds⟩
  · intro few q hq
    have listed := (prepared.all few q.2).mpr (List.mem_map_of_mem hq)
    rw [← friends] at listed
    exact List.mem_map.mp listed

end Dht
