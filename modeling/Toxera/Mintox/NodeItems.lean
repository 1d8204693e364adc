import Toxera.Mintox.DhtFriends

/-!
# What the lists of nodes hold

The lists of `mintox/dht.go` hold interface values, and their readers convert every item
to the type they expect: `get_close_nodes` and `AddFriend` expect clients in the close
list and in the lists of friends, `doDHTFriends` expects nodes in the lists of friends.
-/

namespace PriorityList

universe u v
variable {κ : Type u} {α : Type v}

abbrev Draws (k : Nat) := (x : Nat) → Fin (x + k)

def replaceDrawn {k : Nat} (draw : Draws k) : Nat → List α → List α → List α
  | _, slts, [] => slts
  | x, slts, itemi :: rest =>
    replaceDrawn draw (x + 1) (if (draw x).val < k then slts.set (draw x) itemi else slts) rest

def selectRandn (l : PriorityList κ α) {k : Nat} (draw : Draws k) : List α :=
  let slts := l.lst.take k
  if slts.length < k then slts else replaceDrawn draw 0 slts (l.lst.drop k)

end PriorityList

namespace Dht

open CryptoCore Exec PriorityList

universe u
variable {Addr : Type u}

inductive PLItem (Addr : Type u) where
  | clientData (c : ClientData Addr)
  | nodeFormat (n : Node Addr)
  | friend (p : FriendRef)

namespace PLItem

def asClientData : PLItem Addr → Option (ClientData Addr)
  | .clientData c => some c
  | _ => none

def asNodeFormat : PLItem Addr → Option (Node Addr)
  | .nodeFormat n => some n
  | _ => none

def asFriend : PLItem Addr → Option FriendRef
  | .friend p => some p
  | _ => none

end PLItem

def DHT.closeItems (d : DHT Addr) : List (PLItem Addr) := d.closeClientList.lst.map .clientData
def DHT.friendItems (d : DHT Addr) : List (PLItem Addr) := d.friendsList.lst.map .friend
def DHTFriend.clientItems (f : DHTFriend Addr) : List (PLItem Addr) :=
  f.clientList.lst.map .nodeFormat
def DHTFriend.bootstrapItems (f : DHTFriend Addr) : List (PLItem Addr) :=
  f.toBootstrap.lst.map .nodeFormat

structure CloseNode (Addr : Type u) where
  addr : Addr
  pubkey : CryptoKey
  deriving DecidableEq

/-- The clock is read at every comparison; the readings are given by the key of the client. -/
def putItem (clock : CryptoKey → Nat → Time) (tmplst : PriorityList CryptoKey (ClientData Addr))
    (itemi : PLItem Addr) : Option (PriorityList CryptoKey (ClientData Addr)) :=
  itemi.asClientData.bind fun c =>
    tmplst.put ClientData.pubkey (fun i x => c.compare x (clock c.pubkey i)) c

def putFriendItems (d : DHT Addr) (clock : CryptoKey → Nat → Time)
    (tmplst : PriorityList CryptoKey (ClientData Addr)) (itemi : PLItem Addr) :
    Option (PriorityList CryptoKey (ClientData Addr)) :=
  itemi.asFriend.bind fun itemj =>
    (d.friends itemj.ref).clientItems.foldlM (putItem clock) tmplst

/-- The key is not looked at, and neither are the other arguments of the source. -/
def getCloseNodes (d : DHT Addr) (_pubkey : CryptoKey) (clock : CryptoKey → Nat → Time)
    (draw : Draws maxSentNodes) : Option (List (CloseNode Addr)) :=
  (d.closeItems.foldlM (putItem clock) (newPriorityList 1000)).bind fun tmplst =>
    (d.friendItems.foldlM (putFriendItems d clock) tmplst).map fun tmplst =>
      (tmplst.selectRandn draw).map fun clidat => ⟨clidat.assoc.addr, clidat.pubkey⟩

structure GetNodes (Addr : Type u) where
  addr : Addr
  pubkey : CryptoKey
  clientId : CryptoKey
  deriving DecidableEq

/-- What `doDHTFriends` sends for one friend: to all nodes of its lists and, unless the friend
is one of them, to some of the close clients. -/
def doDHTFriend (d : DHT Addr) (draw : Draws 48) (frndo : DHTFriend Addr) :
    Option (List (GetNodes Addr)) := do
  let toNode (itemi : PLItem Addr) : Option (GetNodes Addr) :=
    itemi.asNodeFormat.map fun node => ⟨node.addr, node.pubkey, frndo.pubkey⟩
  let bootstraps ← frndo.bootstrapItems.mapM toNode
  let clients ← frndo.clientItems.mapM toNode
  let seen ← frndo.clientItems.mapM PLItem.asNodeFormat
  let _ ← frndo.bootstrapItems.mapM PLItem.asNodeFormat
  let _ ← d.closeItems.mapM PLItem.asClientData
  if seen.any fun node => node.pubkey = frndo.pubkey then
    return bootstraps ++ clients
  let slts ← ((d.closeClientList.selectRandn draw).map PLItem.clientData).mapM
    fun itemi : PLItem Addr => itemi.asClientData.map fun clidat =>
      (⟨clidat.assoc.addr, clidat.pubkey, frndo.pubkey⟩ : GetNodes Addr)
  return bootstraps ++ clients ++ slts

def doDHTFriends (d : DHT Addr) (draws : Nat → Draws 48) : Option (List (GetNodes Addr)) :=
  (d.friendItems.mapM fun itemi : PLItem Addr => itemi.asFriend.bind fun frndo =>
    doDHTFriend d (draws frndo.ref) (d.friends frndo.ref)).map List.flatten

theorem mapM_ok {α β γ : Type*} (inj : α → β) {read : β → Option γ} {f : α → γ}
    (ok : ∀ a, read (inj a) = some (f a)) (l : List α) :
    (l.map inj).mapM read = some (l.map f) := by
  induction l with
  | nil => rfl
  | cons a l ih => simp [List.mapM_cons, ok, ih]

theorem asNodeFormat_all (l : List (Node Addr)) :
    (l.map PLItem.nodeFormat).mapM PLItem.asNodeFormat = some l :=
  (mapM_ok PLItem.nodeFormat (f := id) (fun _ => rfl) l).trans (congrArg some (List.map_id l))

theorem asClientData_all (l : List (ClientData Addr)) :
    (l.map PLItem.clientData).mapM PLItem.asClientData = some l :=
  (mapM_ok PLItem.clientData (f := id) (fun _ => rfl) l).trans (congrArg some (List.map_id l))

theorem doDHTFriend_returns (d : DHT Addr) (draw : Draws 48) (frndo : DHTFriend Addr) :
    ∃ requests, doDHTFriend d draw frndo = some requests := by
  unfold doDHTFriend DHTFriend.bootstrapItems DHTFriend.clientItems DHT.closeItems
  extract_lets toNode
  have nodes : ∀ l : List (Node Addr), (l.map PLItem.nodeFormat).mapM toNode =
      some (l.map fun node => ⟨node.addr, node.pubkey, frndo.pubkey⟩) :=
    mapM_ok PLItem.nodeFormat fun _ => rfl
  have clients : ∀ l : List (ClientData Addr), (l.map PLItem.clientData).mapM
      (fun itemi : PLItem Addr => itemi.asClientData.map fun clidat =>
        (⟨clidat.assoc.addr, clidat.pubkey, frndo.pubkey⟩ : GetNodes Addr)) =
      some (l.map fun clidat => ⟨clidat.assoc.addr, clidat.pubkey, frndo.pubkey⟩) :=
    mapM_ok PLItem.clientData fun _ => rfl
  simp only [nodes, clients, asNodeFormat_all, asClientData_all, Option.bind_eq_bind,
    Option.bind_some]
  split_ifs
  · exact ⟨_, rfl⟩
  · exact ⟨_, rfl⟩

theorem doDHTFriends_returns (d : DHT Addr) (draws : Nat → Draws 48) :
    (doDHTFriends d draws).isSome := by
  choose requests returns using doDHTFriend_returns d
  rw [doDHTFriends, DHT.friendItems, mapM_ok PLItem.friend (fun p => returns (draws p.ref) _)]
  rfl

theorem putItem_clientData (clock : CryptoKey → Nat → Time)
    (tmplst : PriorityList CryptoKey (ClientData Addr)) (c : ClientData Addr) :
    putItem clock tmplst (.clientData c) =
      tmplst.put ClientData.pubkey (fun i x => c.compare x (clock c.pubkey i)) c := rfl

theorem putItem_nodeFormat (clock : CryptoKey → Nat → Time)
    (tmplst : PriorityList CryptoKey (ClientData Addr)) (n : Node Addr) :
    putItem clock tmplst (.nodeFormat n) = none := rfl

theorem putItems_returns (clock : CryptoKey → Nat → Time)
    {tmplst : PriorityList CryptoKey (ClientData Addr)} (valid : tmplst.Valid ClientData.pubkey)
    (clients : List (ClientData Addr)) :
    ∃ l, (clients.map PLItem.clientData).foldlM (putItem clock) tmplst = some l ∧
      l.Valid ClientData.pubkey := by
  rw [List.foldlM_map]
  refine foldlM_history (P := fun _ (l : PriorityList _ _) => l.Valid ClientData.pubkey) valid ?_
    clients
  intro _ l c valid
  obtain ⟨l', put, puts⟩ := put_spec valid (fun i x => c.compare x (clock c.pubkey i)) c
  exact ⟨l', put, puts.valid valid⟩

def Populated (d : DHT Addr) : Prop :=
  ∃ p ∈ d.friendsList.lst, (d.friends p.ref).clientList.lst ≠ []

theorem clientItems_refused {f : DHTFriend Addr} (nodes : f.clientList.lst ≠ [])
    (clock : CryptoKey → Nat → Time) (tmplst : PriorityList CryptoKey (ClientData Addr)) :
    f.clientItems.foldlM (putItem clock) tmplst = none := by
  obtain ⟨n, rest, split⟩ := List.exists_cons_of_ne_nil nodes
  rw [DHTFriend.clientItems, split, List.map_cons, List.foldlM_cons, putItem_nodeFormat]
  rfl

theorem friendItems_refused {d : DHT Addr} {friends : List FriendRef}
    (nodes : ∃ p ∈ friends, (d.friends p.ref).clientList.lst ≠ [])
    (clock : CryptoKey → Nat → Time) (tmplst : PriorityList CryptoKey (ClientData Addr)) :
    (friends.map PLItem.friend).foldlM (putFriendItems d clock) tmplst = none := by
  induction friends generalizing tmplst with
  | nil => grind
  | cons q friends ih =>
    rw [List.map_cons, List.foldlM_cons]
    show ((d.friends q.ref).clientItems.foldlM (putItem clock) tmplst).bind _ = none
    by_cases empty : (d.friends q.ref).clientList.lst = []
    · obtain ⟨p, hp, nonempty⟩ := nodes
      have later : p ∈ friends := by
        rcases List.mem_cons.mp hp with rfl | hp
        · exact absurd empty nonempty
        · exact hp
      rw [DHTFriend.clientItems, empty]
      exact ih ⟨p, later, nonempty⟩ tmplst
    · rw [clientItems_refused empty]
      rfl

theorem friendItems_empty {d : DHT Addr} {friends : List FriendRef}
    (empty : ∀ p ∈ friends, (d.friends p.ref).clientList.lst = [])
    (clock : CryptoKey → Nat → Time) (tmplst : PriorityList CryptoKey (ClientData Addr)) :
    (friends.map PLItem.friend).foldlM (putFriendItems d clock) tmplst = some tmplst := by
  induction friends with
  | nil => rfl
  | cons q friends ih =>
    rw [List.map_cons, List.foldlM_cons]
    show ((d.friends q.ref).clientItems.foldlM (putItem clock) tmplst).bind _ = _
    rw [DHTFriend.clientItems, empty q List.mem_cons_self]
    exact ih fun p hp => empty p (List.mem_cons_of_mem q hp)

theorem Populated.of_not {d : DHT Addr} (nodes : ¬ Populated d) :
    ∀ p ∈ d.friendsList.lst, (d.friends p.ref).clientList.lst = [] := by
  intro p hp
  by_contra nonempty
  exact nodes ⟨p, hp, nonempty⟩

theorem getCloseNodes_eq {d : DHT Addr} (nodes : ¬ Populated d) (pubkey : CryptoKey)
    {clock : CryptoKey → Nat → Time} (draw : Draws maxSentNodes)
    {tmplst : PriorityList CryptoKey (ClientData Addr)}
    (copied : (d.closeClientList.lst.map PLItem.clientData).foldlM (putItem clock)
      (newPriorityList 1000) = some tmplst) :
    getCloseNodes d pubkey clock draw =
      some ((tmplst.selectRandn draw).map fun clidat => ⟨clidat.assoc.addr, clidat.pubkey⟩) := by
  rw [getCloseNodes, DHT.closeItems, copied, Option.bind_some, DHT.friendItems,
    friendItems_empty (Populated.of_not nodes), Option.map_some]

theorem getCloseNodes_returns_iff {d : DHT Addr} (pubkey : CryptoKey)
    (clock : CryptoKey → Nat → Time) (draw : Draws maxSentNodes) :
    (getCloseNodes d pubkey clock draw).isSome ↔ ¬ Populated d := by
  obtain ⟨tmplst, copied, -⟩ := putItems_returns clock (valid_new 1000) d.closeClientList.lst
  by_cases nodes : Populated d
  · rw [getCloseNodes, DHT.closeItems, copied, Option.bind_some, DHT.friendItems,
      friendItems_refused nodes]
    simp [nodes]
  · rw [getCloseNodes_eq nodes pubkey draw copied]
    simp [nodes]

structure FriendSound (f : DHTFriend Addr) : Prop where
  clients : f.clientList.Valid Node.pubkey
  room : f.clientList.max = maxFriendClients
  bootstrap : f.toBootstrap.Valid Node.pubkey

/-- What holds of the lists whatever was received and whichever friends were added. -/
structure Sound (d : DHT Addr) : Prop where
  bootstrap : d.toBootstrap.Valid Node.pubkey
  clients : d.closeClientList.Valid ClientData.pubkey
  listed : d.friendsList.Valid FriendRef.pubkey
  room : d.friendsList.max = maxInt32
  refs : (d.friendsList.lst.map FriendRef.ref).Nodup
  allocated : ∀ p ∈ d.friendsList.lst, p.ref < d.nfriends
  friends : ∀ p ∈ d.friendsList.lst, FriendSound (d.friends p.ref)

theorem Sound.new (selfPubkey : CryptoKey) : Sound (newDHT selfPubkey : DHT Addr) where
  bootstrap := valid_new _
  clients := valid_new _
  listed := valid_new _
  room := rfl
  refs := List.nodup_nil
  allocated := by simp [newDHT, newPriorityList]
  friends := by simp [newDHT, newPriorityList]

theorem putNode_sound {l : NodeList Addr} (valid : l.Valid Node.pubkey)
    (cmppk : Nat → CryptoKey) (n : Node Addr) :
    ∃ l', putNode l cmppk n = some l' ∧ l'.Valid Node.pubkey ∧ l'.max = l.max ∧
      (0 < l.max → l'.lst ≠ []) := by
  obtain ⟨l', put, puts⟩ := put_spec valid (fun _ x => n.compare cmppk x) n
  exact ⟨l', put, puts.valid valid, puts.max, puts.ne_nil valid⟩

theorem adoptClients_returns (now : CryptoKey → Time) (pubkey : CryptoKey) (d : DHT Addr)
    {l : NodeList Addr} (valid : l.Valid Node.pubkey) (items : List (ClientData Addr)) :
    ∃ r, items.foldlM (adoptClient now pubkey) (d, l) = some r ∧ r.2.Valid Node.pubkey ∧
      ∃ nnodes cmppk, r.1 = { d with nnodes := nnodes, cmppk := cmppk } := by
  refine foldlM_history (P := fun _ (r : DHT Addr × NodeList Addr) => r.2.Valid Node.pubkey ∧
    ∃ nnodes cmppk, r.1 = { d with nnodes := nnodes, cmppk := cmppk })
    ⟨valid, d.nnodes, d.cmppk, rfl⟩ ?_ items
  rintro _ ⟨m, l⟩ item ⟨valid, nnodes, cmppk, rfl⟩
  unfold adoptClient
  by_cases old : isTimeout4Now (now item.pubkey) item.assoc.timestamp badNodeTimeout
  · rw [if_pos old]
    exact ⟨_, rfl, valid, nnodes, cmppk, rfl⟩
  · rw [if_neg old]
    obtain ⟨l', put, valid', -⟩ := putNode_sound valid (Function.update cmppk nnodes pubkey)
      ⟨nnodes, item.pubkey, item.assoc.addr⟩
    refine ⟨_, Option.map_eq_some_iff.mpr ⟨l', put, rfl⟩, valid', nnodes + 1, _, rfl⟩

theorem populated_iff {d : DHT Addr} :
    (∃ p ∈ d.friendsList.lst, (d.friends p.ref).clientList.lst.length ≠ 0) ↔ Populated d := by
  simp only [Populated, ne_eq, List.length_eq_zero_iff]

theorem addFriend_known {d : DHT Addr} {pubkey : CryptoKey} (known : pubkey ∈ d.friendsList.keys)
    (now : CryptoKey → Time) : addFriend d now pubkey = some d :=
  if_pos (getByKey_isSome.mpr known)

theorem addFriend_refused {d : DHT Addr} {pubkey : CryptoKey} (new : pubkey ∉ d.friendsList.keys)
    (nodes : Populated d) (now : CryptoKey → Time) : addFriend d now pubkey = none := by
  obtain ⟨⟨m, l⟩, adopted, -, nnodes, cmppk, rfl⟩ := adoptClients_returns now pubkey d
    (valid_new maxSentNodes) d.closeClientList.lst
  rw [addFriend, if_neg (mt getByKey_isSome.mp new)]
  simp only [newDHTFriend, adopted, Option.bind_some]
  exact if_pos (populated_iff.mpr nodes)

theorem Sound.addFriend_new {d : DHT Addr} (h : Sound d) {pubkey : CryptoKey}
    (new : pubkey ∉ d.friendsList.keys) (empty : ¬ Populated d) (now : CryptoKey → Time) :
    ∃ d', addFriend d now pubkey = some d' ∧ Sound d' ∧ ¬ Populated d' ∧
      d'.friendsList.lst ≠ [] := by
  obtain ⟨⟨m, l⟩, adopted, valid, nnodes, cmppk, rfl⟩ := adoptClients_returns now pubkey d
    (valid_new maxSentNodes) d.closeClientList.lst
  obtain ⟨list, put, puts⟩ := put_spec h.listed (fun _ _ => 1) ⟨d.nfriends, pubkey⟩
  obtain ⟨refs, allocated, origin⟩ := friendRefs_put h.listed h.refs h.allocated new puts
  rw [addFriend, if_neg (mt getByKey_isSome.mp new)]
  simp only [newDHTFriend, adopted, Option.bind_some]
  rw [if_neg (mt populated_iff.mp empty), put]
  refine ⟨_, rfl, ⟨h.bootstrap, h.clients, puts.valid h.listed, puts.max.trans h.room, refs,
    allocated, ?_⟩, ?_, ?_⟩
  · intro p hp
    rcases origin p hp with rfl | ⟨hp, old⟩
    · simp only [Function.update_self]
      exact ⟨valid_new _, rfl, valid⟩
    · simp only [Function.update_of_ne old]
      exact h.friends p hp
  · rintro ⟨p, hp, nonempty⟩
    rcases origin p hp with rfl | ⟨hp, old⟩
    · simp [newPriorityList] at nonempty
    · simp only [Function.update_of_ne old] at nonempty
      exact empty ⟨p, hp, nonempty⟩
  · refine puts.ne_nil h.listed ?_
    rw [h.room]
    decide

theorem FriendSound.addNode {f : DHTFriend Addr} (h : FriendSound f) (cmppk : Nat → CryptoKey)
    (n : Node Addr) :
    ∃ cmppk' f', Dht.addNode cmppk f n = some (cmppk', f') ∧ FriendSound f' ∧
      f'.clientList.lst ≠ [] := by
  unfold Dht.addNode
  extract_lets targeted
  obtain ⟨clients, put, valid, hmax, nonempty⟩ := putNode_sound h.clients targeted n
  obtain ⟨bootstrap, put', valid', -⟩ := putNode_sound h.bootstrap targeted n
  refine ⟨targeted, { f with clientList := clients, toBootstrap := bootstrap }, ?_,
    ⟨valid, hmax.trans h.room, valid'⟩, nonempty ?_⟩
  · rw [put, put']
    rfl
  · rw [h.room]
    decide

theorem Sound.processNode {d : DHT Addr} (h : Sound d) (r : Received Addr) :
    ∃ d', Dht.processNode d r = some d' ∧ Sound d' ∧ d'.friendsList = d.friendsList ∧
      ∀ p ∈ d.friendsList.lst, (d'.friends p.ref).clientList.lst ≠ [] := by
  obtain ⟨d', run, put, clients, -, same, count, post⟩ := processNode_runs (r := r) h.bootstrap
    h.clients h.refs h.friends (fun cmppk f ok => ok.addNode cmppk ⟨d.nnodes, r.nodekey, r.addr⟩)
  obtain ⟨bootstrap, put', valid, -⟩ := putNode_sound h.bootstrap
    (Function.update d.cmppk d.nnodes d.selfPubkey) ⟨d.nnodes, r.nodekey, r.addr⟩
  obtain rfl := Option.some.inj (put'.symm.trans put)
  refine ⟨d', run, ⟨valid, clients, same ▸ h.listed, same ▸ h.room, same ▸ h.refs, ?_, ?_⟩, same,
    fun p hp => (post p hp).2⟩
  · rw [same, count]
    exact h.allocated
  · rw [same]
    exact fun p hp => (post p hp).1

theorem Sound.handleSendNodes {d : DHT Addr} (h : Sound d) (nodes : List (Received Addr)) :
    ∃ d', Dht.handleSendNodes d nodes = some d' ∧ Sound d' ∧ d'.friendsList = d.friendsList ∧
      (Populated d' ↔ Populated d ∨ nodes ≠ [] ∧ d.friendsList.lst ≠ []) := by
  obtain ⟨d', run, sound, same, given⟩ := foldlM_history
    (P := fun (nodes : List (Received Addr)) (d' : DHT Addr) =>
      Sound d' ∧ d'.friendsList = d.friendsList ∧ (nodes = [] ∧ d' = d ∨
        nodes ≠ [] ∧ ∀ p ∈ d.friendsList.lst, (d'.friends p.ref).clientList.lst ≠ []))
    ⟨h, rfl, Or.inl ⟨rfl, rfl⟩⟩ (by
      rintro nodes m r ⟨sound, same, -⟩
      obtain ⟨d', step, sound', same', given⟩ := sound.processNode r
      refine ⟨d', step, sound', same'.trans same, Or.inr ⟨by simp, ?_⟩⟩
      rwa [same] at given) nodes
  refine ⟨d', run, sound, same, ?_⟩
  rcases given with ⟨none, rfl⟩ | ⟨some, given⟩
  · simp [none]
  · constructor
    · rintro ⟨p, hp, -⟩
      rw [same] at hp
      exact Or.inr ⟨some, List.ne_nil_of_mem hp⟩
    · rintro (⟨p, hp, -⟩ | ⟨-, friends⟩)
      · exact ⟨p, same ▸ hp, given p hp⟩
      · obtain ⟨p, rest, split⟩ := List.exists_cons_of_ne_nil friends
        have hp : p ∈ d.friendsList.lst := split ▸ List.mem_cons_self
        exact ⟨p, same ▸ hp, given p hp⟩

inductive TableEvent (Addr : Type u) where
  | addFriend (now : CryptoKey → Time) (pubkey : CryptoKey)
  | sendNodes (nodes : List (Received Addr))

def tableNext (d : DHT Addr) : TableEvent Addr → Option (DHT Addr)
  | .addFriend now pubkey => addFriend d now pubkey
  | .sendNodes nodes => handleSendNodes d nodes

def AddsFriend (events : List (TableEvent Addr)) : Prop :=
  ∃ now pubkey, TableEvent.addFriend now pubkey ∈ events

def NodesForFriends (events : List (TableEvent Addr)) : Prop :=
  ∃ before nodes after, events = before ++ .sendNodes nodes :: after ∧ nodes ≠ [] ∧
    AddsFriend before

theorem addsFriend_snoc {events : List (TableEvent Addr)} {e : TableEvent Addr} :
    AddsFriend (events ++ [e]) ↔ AddsFriend events ∨ ∃ now pubkey, e = .addFriend now pubkey := by
  constructor
  · rintro ⟨now, pubkey, h⟩
    rcases List.mem_append.mp h with h | h
    · exact Or.inl ⟨now, pubkey, h⟩
    · grind
  · rintro (⟨now, pubkey, h⟩ | ⟨now, pubkey, rfl⟩)
    · exact ⟨now, pubkey, List.mem_append_left _ h⟩
    · exact ⟨now, pubkey, by simp⟩

theorem nodesForFriends_snoc {events : List (TableEvent Addr)} {e : TableEvent Addr} :
    NodesForFriends (events ++ [e]) ↔ NodesForFriends events ∨
      AddsFriend events ∧ ∃ nodes, e = .sendNodes nodes ∧ nodes ≠ [] := by
  constructor
  · rintro ⟨before, nodes, after, cut, some, added⟩
    rcases split_snoc cut with ⟨rfl, rfl, rfl⟩ | ⟨front, rfl, rfl⟩
    · exact Or.inr ⟨added, nodes, rfl, some⟩
    · exact Or.inl ⟨before, nodes, front, rfl, some, added⟩
  · rintro (⟨before, nodes, after, rfl, some, added⟩ | ⟨added, nodes, rfl, some⟩)
    · exact ⟨before, nodes, after ++ [e], by simp, some, added⟩
    · exact ⟨events, nodes, [], rfl, some, added⟩

theorem NodesForFriends.append {events : List (TableEvent Addr)} (h : NodesForFriends events)
    (after : List (TableEvent Addr)) : NodesForFriends (events ++ after) := by
  obtain ⟨before, nodes, rest, rfl, some, added⟩ := h
  exact ⟨before, nodes, rest ++ after, by simp, some, added⟩

structure Reached (events : List (TableEvent Addr)) (d : DHT Addr) : Prop where
  sound : Sound d
  friends : d.friendsList.lst ≠ [] ↔ AddsFriend events
  nodes : Populated d ↔ NodesForFriends events

theorem Reached.new (selfPubkey : CryptoKey) : Reached [] (newDHT selfPubkey : DHT Addr) where
  sound := Sound.new selfPubkey
  friends := by simp [newDHT, newPriorityList, AddsFriend]
  nodes := by simp [newDHT, newPriorityList, Populated, NodesForFriends]

theorem Reached.addFriend {events : List (TableEvent Addr)} {d : DHT Addr} (h : Reached events d)
    (now : CryptoKey → Time) (pubkey : CryptoKey)
    (ok : pubkey ∈ d.friendsList.keys ∨ ¬ Populated d) :
    ∃ d', Dht.addFriend d now pubkey = some d' ∧
      Reached (events ++ [.addFriend now pubkey]) d' := by
  have added : AddsFriend (events ++ [.addFriend now pubkey]) :=
    addsFriend_snoc.mpr (Or.inr ⟨now, pubkey, rfl⟩)
  have later : NodesForFriends (events ++ [.addFriend now pubkey]) ↔ NodesForFriends events := by
    simp [nodesForFriends_snoc]
  by_cases known : pubkey ∈ d.friendsList.keys
  · refine ⟨d, addFriend_known known now, h.sound, iff_of_true ?_ added, h.nodes.trans later.symm⟩
    have listed := (h.sound.listed.mem_keys _).mp known
    intro none
    rw [none] at listed
    exact List.not_mem_nil listed
  · have empty := ok.resolve_left known
    obtain ⟨d', add, sound, empty', some⟩ := h.sound.addFriend_new known empty now
    refine ⟨d', add, sound, iff_of_true some added, ?_⟩
    rw [later, ← h.nodes]
    exact iff_of_false empty' empty

theorem Reached.sendNodes {events : List (TableEvent Addr)} {d : DHT Addr} (h : Reached events d)
    (nodes : List (Received Addr)) :
    ∃ d', handleSendNodes d nodes = some d' ∧ Reached (events ++ [.sendNodes nodes]) d' := by
  obtain ⟨d', run, sound, same, populated⟩ := h.sound.handleSendNodes nodes
  refine ⟨d', run, sound, ?_, ?_⟩
  · rw [same, h.friends, addsFriend_snoc]
    simp
  · rw [populated, h.nodes, h.friends, nodesForFriends_snoc]
    simp [and_comm]

theorem reached {selfPubkey : CryptoKey} {events : List (TableEvent Addr)} {d : DHT Addr}
    (run : exec tableNext (newDHT selfPubkey) events = some d) : Reached events d := by
  refine exec_history (Reached.new selfPubkey) ?_ run
  intro events d e d' _ h step
  cases e with
  | addFriend now pubkey =>
    have ok : pubkey ∈ d.friendsList.keys ∨ ¬ Populated d := by
      by_contra refused
      rw [not_or, not_not] at refused
      simp [tableNext, addFriend_refused refused.1 refused.2] at step
    obtain ⟨d'', add, reached⟩ := h.addFriend now pubkey ok
    obtain rfl := Option.some.inj (add.symm.trans step)
    exact reached
  | sendNodes nodes =>
    obtain ⟨d'', run, reached⟩ := h.sendNodes nodes
    obtain rfl := Option.some.inj (run.symm.trans step)
    exact reached

theorem run_returns (selfPubkey : CryptoKey) {events : List (TableEvent Addr)}
    (apart : ¬ NodesForFriends events) :
    ∃ d, exec tableNext (newDHT selfPubkey) events = some d := by
  induction events using List.reverseRecOn with
  | nil => exact ⟨_, rfl⟩
  | append_singleton events e ih =>
    have before : ¬ NodesForFriends events := fun h => apart (h.append [e])
    obtain ⟨d, run⟩ := ih before
    have h := reached run
    have step : ∃ d', tableNext d e = some d' := by
      cases e with
      | addFriend now pubkey =>
        obtain ⟨d', add, -⟩ := h.addFriend now pubkey (Or.inr (mt h.nodes.mp before))
        exact ⟨d', add⟩
      | sendNodes nodes =>
        obtain ⟨d', run, -⟩ := h.sendNodes nodes
        exact ⟨d', run⟩
    obtain ⟨d', step⟩ := step
    exact ⟨d', exec_snoc_iff.mpr ⟨d, run, step⟩⟩

def TypesAgree (selfPubkey : CryptoKey) (events : List (TableEvent Addr)) : Prop :=
  ∀ before after, events = before ++ after →
    ∃ d, exec tableNext (newDHT selfPubkey) before = some d ∧
      (∀ pubkey clock draw, (getCloseNodes d pubkey clock draw).isSome) ∧
      (∀ now pubkey, (addFriend d now pubkey).isSome) ∧
      ∀ draws, (doDHTFriends d draws).isSome

/-- The types agree exactly as long as no node is received after a friend was added. -/
theorem types_agree_iff (selfPubkey : CryptoKey) (events : List (TableEvent Addr)) :
    TypesAgree selfPubkey events ↔ ¬ NodesForFriends events := by
  constructor
  · intro agree nodes
    obtain ⟨d, run, close, -⟩ := agree events [] (by simp)
    have free := (getCloseNodes_returns_iff selfPubkey _ _).mp
      (close selfPubkey (fun _ _ => 0) fun x => ⟨0, Nat.lt_add_left x (by decide)⟩)
    exact free ((reached run).nodes.mpr nodes)
  · rintro apart before after rfl
    have before_apart : ¬ NodesForFriends before := fun h => apart (h.append after)
    obtain ⟨d, run⟩ := run_returns selfPubkey before_apart
    have h := reached run
    have free := mt h.nodes.mp before_apart
    refine ⟨d, run, fun pubkey clock draw => ?_, fun now pubkey => ?_, doDHTFriends_returns d⟩
    · exact (getCloseNodes_returns_iff pubkey clock draw).mpr free
    · obtain ⟨d', add, -⟩ := h.addFriend now pubkey (Or.inr free)
      exact Option.isSome_iff_exists.mpr ⟨d', add⟩

def friendThenNode : List (TableEvent Nat) :=
  [.addFriend (fun _ => 0) (keyOf 1), .sendNodes [⟨keyOf 2, 5, 0, 0, 0, fun _ => 0⟩]]

/-- One friend and then one node: both readers that expect clients stop the program. -/
theorem node_found_for_client : ∃ d, exec tableNext (newDHT (keyOf 0)) friendThenNode = some d ∧
    getCloseNodes d (keyOf 4) (fun _ _ => 0) (fun x => ⟨0, Nat.lt_add_left x (by decide)⟩) = none ∧
    (addFriend d (fun _ => 0) (keyOf 3)).isNone := by
  have run : (exec tableNext (newDHT (keyOf 0)) friendThenNode).map (fun d =>
      decide (getCloseNodes d (keyOf 4) (fun _ _ => 0)
        (fun x => ⟨0, Nat.lt_add_left x (by decide)⟩) = none) &&
      (addFriend d (fun _ => 0) (keyOf 3)).isNone) = some true := by
    decide +kernel
  obtain ⟨d, reach, stops⟩ := Option.map_eq_some_iff.mp run
  rw [Bool.and_eq_true, decide_eq_true_eq] at stops
  exact ⟨d, reach, stops.1, stops.2⟩

end Dht
