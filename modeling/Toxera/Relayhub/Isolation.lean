import Toxera.Relayhub.Hub

/-!
# Isolation of sockets

No socket should get anything from two peers, and a socket made here connections only from
the peer it was connected to.
-/

namespace Relayhub

open Exec

variable {h h' : Hub} {id : Bytes} {r : Record}

namespace Record

def peers (r : Record) : List (Option Bytes) := r.received.map Prod.snd ++ r.signalled

/-- Everything comes from one peer and, for a socket made here, every connection from
a peer it was connected to. -/
def Isolated (r : Record) : Prop :=
  (∀ p ∈ r.peers, ∀ q ∈ r.peers, p = q) ∧
    (r.own = true → ∀ conn ∈ r.received, ∃ dst ∈ r.connectedTo, conn.2 = some dst)

instance (r : Record) : Decidable r.Isolated := by
  unfold Isolated
  infer_instance

theorem blank_isolated (own : Bool) : Isolated { own := own } :=
  ⟨by simp [peers], by simp⟩

theorem mem_peers_receive (r : Record) (wire : Nat) (p q : Option Bytes) :
    q ∈ (r.receive wire p).peers ↔ q ∈ r.peers ∨ q = p := by
  grind [peers, receive]

theorem mem_peers_signal (r : Record) (p q : Option Bytes) :
    q ∈ (r.signal p).peers ↔ q ∈ r.peers ∨ q = p := by
  simp [peers, signal, or_assoc]

end Record

namespace Hub

def Isolated (h : Hub) : Prop :=
  (∀ id, (h.recordFor id).Isolated) ∧ ∀ r ∈ h.past, r.Isolated

theorem retire_past_isolated (isolated : h.Isolated) (id : Bytes) :
    ∀ r ∈ (h.retire id).past, r.Isolated := by
  intro r mem
  simp only [retire] at mem
  split_ifs at mem with known
  · rcases List.mem_append.mp mem with old | new
    · exact isolated.2 r old
    · obtain rfl := List.mem_singleton.mp new
      have here := isolated.1 id
      rwa [recordFor, if_pos known] at here
  · exact isolated.2 r mem

theorem newHub_isolated (limit : Option UInt64) : (newHub limit).Isolated := by
  refine ⟨fun id => ?_, by simp [newHub]⟩
  exact Record.blank_isolated false

end Hub

/-- The socket that an incoming connection names, with the peer that the relay names. -/
def HubEvent.names : HubEvent → Option (Route × Option Bytes)
  | .incoming proto stream sent =>
    (firstRoute proto stream sent).map fun rt => (rt, remotePeer proto stream)
  | _ => none

/-- The events after which another socket has the id, or none. -/
def HubEvent.renews (id : Bytes) : HubEvent → Bool
  | .newSocket other | .close other => other = id
  | _ => false

/-- The events since the last `NewSocket` or `Close` of the id. -/
def since (id : Bytes) (es : List HubEvent) : List HubEvent :=
  es.rtakeWhile fun ev => !ev.renews id

/-- The last of them was a `NewSocket`. -/
def MadeHere (id : Bytes) (es : List HubEvent) : Prop :=
  (es.rdropWhile fun ev => !ev.renews id).getLast? = some (.newSocket id)

/-- Since its last `NewSocket` or `Close` an id is named by one peer only and, if it was made
here, by connections only from a peer that `Connect` was called with. -/
structure Owned (es : List HubEvent) : Prop where
  one_peer : ∀ front ev rest rt p, es = front ++ ev :: rest → ev.names = some (rt, p) →
    ∀ old ∈ since rt.target front, ∀ rt' q, old.names = some (rt', q) →
      rt'.target = rt.target → q = p
  connected : ∀ front ev rest id p, es = front ++ ev :: rest → ev.names = some (.data id, p) →
    MadeHere id front →
      ∃ ctxDone dst dial, .call id (.connect ctxDone dst dial) ∈ since id front ∧ p = some dst

theorem since_snoc (id : Bytes) (front : List HubEvent) (ev : HubEvent) :
    since id (front ++ [ev]) = if ev.renews id then [] else since id front ++ [ev] := by
  rw [since, List.rtakeWhile_concat]
  cases ev.renews id <;> rfl

theorem since_renewed {ev : HubEvent} (renews : ev.renews id = true) (front : List HubEvent) :
    since id (front ++ [ev]) = [] := by
  rw [since_snoc, if_pos renews]

theorem mem_since_snoc {front : List HubEvent} {ev old : HubEvent} (kept : ev.renews id = false) :
    old ∈ since id (front ++ [ev]) ↔ old ∈ since id front ∨ old = ev := by
  rw [since_snoc, if_neg (by simp [kept]), List.mem_append, List.mem_singleton]

theorem madeHere_snoc (id : Bytes) (front : List HubEvent) (ev : HubEvent) :
    MadeHere id (front ++ [ev]) ↔
      if ev.renews id then ev = .newSocket id else MadeHere id front := by
  rw [MadeHere, List.rdropWhile_concat]
  cases ev.renews id <;> simp [MadeHere]

/-- What an event does to the record of an id. -/
inductive Noted (h : Hub) (id : Bytes) : HubEvent → Record → Prop
  | newSocket : Noted h id (.newSocket id) { own := true }
  | close : Noted h id (.close id) {}
  | connect (ctxDone : Bool) (dst : Bytes) (dial : RelaySocket.Dial) :
    Noted h id (.call id (.connect ctxDone dst dial))
      (Hub.noteCall (h.recordFor id) (.connect ctxDone dst dial))
  | named {ev : HubEvent} {rt : Route} {p : Option Bytes} {r : Record} :
    ev.names = some (rt, p) → rt.target = id → h.Delivered rt → r.own = (h.recordFor id).own →
    r.connectedTo = (h.recordFor id).connectedTo →
    (∀ q, q ∈ r.peers ↔ q ∈ (h.recordFor id).peers ∨ q = p) →
    (∀ conn ∈ r.received, conn ∈ (h.recordFor id).received ∨ rt = .data id ∧ conn.2 = p) →
    (rt = .data id → ∃ conn ∈ r.received, conn.2 = p) → Noted h id ev r
  | other {ev : HubEvent} : ev.renews id = false →
    (∀ ctxDone dst dial, ev ≠ .call id (.connect ctxDone dst dial)) →
    (∀ rt p, ev.names = some (rt, p) → ¬ (rt.target = id ∧ h.Delivered rt)) →
    Noted h id ev (h.recordFor id)

theorem renews_of_names {ev : HubEvent} {n : Route × Option Bytes} (names : ev.names = some n) :
    ev.renews id = false := by
  cases ev <;> first | rfl | cases names

namespace Hub

variable {ev : HubEvent}

theorem recordFor_step (ran : h.step ev = some h') (id : Bytes) :
    Noted h id ev (h'.recordFor id) := by
  cases ev with
  | incoming proto stream sent =>
    rw [recordFor_incoming ran]
    cases hrt : firstRoute proto stream sent with
    | none => exact .other rfl (by simp) (by simp [HubEvent.names, hrt])
    | some rt =>
      have names : (HubEvent.incoming proto stream sent).names =
          some (rt, remotePeer proto stream) := by rw [HubEvent.names, hrt]; rfl
      by_cases hit : rt.target = id ∧ h.Delivered rt
      · obtain ⟨rfl, delivered⟩ := hit
        cases rt with
        | data sockID =>
          simp only [Route.target, note_data _ delivered]
          refine .named names rfl delivered rfl rfl (Record.mem_peers_receive _ _ _) ?_ ?_
          · rintro conn mem
            exact (List.mem_append.mp mem).imp_right fun new =>
              ⟨rfl, congrArg Prod.snd (List.mem_singleton.mp new)⟩
          · exact fun _ => ⟨_, List.mem_append_right _ (List.mem_singleton_self _), rfl⟩
        | close origID =>
          simp only [Route.target, note_close _ delivered]
          exact .named names rfl delivered rfl rfl (Record.mem_peers_signal _ _)
            (fun conn mem => .inl mem) (by simp)
      · simp only [note_of_missed _ hit]
        refine .other rfl (by simp) fun rt' p named => ?_
        obtain ⟨rfl, -⟩ := Prod.mk.inj (Option.some.inj (names.symm.trans named))
        exact hit
  | accept =>
    obtain ⟨client, accepted, rfl⟩ := Option.map_eq_some_iff.mp ran
    obtain ⟨rest, rfl⟩ := receive_accept accepted
    exact .other rfl (by simp) (by simp [HubEvent.names])
  | newSocket other =>
    cases ran
    rcases eq_or_ne id other with rfl | ne
    · rw [recordFor_newSocket_self]
      exact .newSocket
    · rw [recordFor_newSocket_of_ne h ne]
      exact .other (by simp [HubEvent.renews, ne.symm]) (by simp) (by simp [HubEvent.names])
  | close other =>
    cases ran
    rcases eq_or_ne id other with rfl | ne
    · rw [recordFor_close_self]
      exact .close
    · rw [recordFor_close_of_ne h ne]
      exact .other (by simp [HubEvent.renews, ne.symm]) (by simp) (by simp [HubEvent.names])
  | call other ev =>
    obtain ⟨e, e', -, -, -, -, -, here, away⟩ := call_cases ran
    rcases eq_or_ne id other with rfl | ne
    · rw [here]
      cases ev with
      | connect ctxDone dst dial => exact .connect ctxDone dst dial
      | _ => exact .other rfl (by simp) (by simp [HubEvent.names])
    · rw [away id ne]
      exact .other rfl (by simp [ne.symm]) (by simp [HubEvent.names])

theorem past_isolated (isolated : h.Isolated) (ran : h.step ev = some h') :
    ∀ r ∈ h'.past, r.Isolated := by
  cases ev with
  | incoming | accept =>
    obtain ⟨client, -, rfl⟩ := Option.map_eq_some_iff.mp ran
    exact isolated.2
  | newSocket other | close other =>
    cases ran
    exact retire_past_isolated isolated other
  | call other ev =>
    obtain ⟨-, -, -, -, -, -, past, -⟩ := call_cases ran
    exact past ▸ isolated.2

/-- What the message names has room for it. -/
def Arrives (h : Hub) (ev : HubEvent) : Prop := ∀ rt p, ev.names = some (rt, p) → h.Delivered rt

end Hub

/-- What the events say about the record of an id. -/
structure Tracks (id : Bytes) (front : List HubEvent) (r : Record) : Prop where
  own : r.own = true ↔ MadeHere id front
  connectedTo : ∀ dst, dst ∈ r.connectedTo ↔
    ∃ ctxDone dial, .call id (.connect ctxDone dst dial) ∈ since id front
  peers : ∀ q ∈ r.peers, ∃ old ∈ since id front, ∃ rt, old.names = some (rt, q) ∧ rt.target = id

namespace Tracks

variable {front : List HubEvent} {ev : HubEvent}

theorem renewed {own : Bool} (renews : ev.renews id = true)
    (made : own = true ↔ ev = .newSocket id) : Tracks id (front ++ [ev]) { own := own } where
  own := by rw [madeHere_snoc, if_pos renews, ← made]
  connectedTo dst := by simp [since_renewed renews]
  peers := by simp [Record.peers]

theorem kept {r' : Record} (tracks : Tracks id front r) (kept : ev.renews id = false)
    (own : r'.own = r.own)
    (connectedTo : ∀ dst, dst ∈ r'.connectedTo ↔
      dst ∈ r.connectedTo ∨ ∃ ctxDone dial, .call id (.connect ctxDone dst dial) = ev)
    (peers : ∀ q ∈ r'.peers, q ∈ r.peers ∨ ∃ rt, ev.names = some (rt, q) ∧ rt.target = id) :
    Tracks id (front ++ [ev]) r' where
  own := by rw [madeHere_snoc, if_neg (by simp [kept]), own, tracks.own]
  connectedTo dst := by
    simp only [connectedTo, tracks.connectedTo, mem_since_snoc kept, exists_or]
  peers q mem := by
    simp only [mem_since_snoc kept]
    rcases peers q mem with old | new
    · obtain ⟨old, mem, named⟩ := tracks.peers q old
      exact ⟨old, .inl mem, named⟩
    · exact ⟨ev, .inr rfl, new⟩

theorem step (tracks : Tracks id front (h.recordFor id)) (noted : Noted h id ev r) :
    Tracks id (front ++ [ev]) r := by
  cases noted with
  | newSocket => exact renewed (by simp [HubEvent.renews]) (by simp)
  | close => exact renewed (by simp [HubEvent.renews]) (by simp)
  | connect ctxDone dst dial =>
    refine tracks.kept rfl rfl (fun dst' => ?_) fun q mem => .inl mem
    simp only [Hub.noteCall, List.mem_append, List.mem_singleton]
    refine or_congr_right ⟨?_, ?_⟩
    · rintro rfl
      exact ⟨ctxDone, dial, rfl⟩
    · rintro ⟨ctxDone, dial, ⟨⟩⟩
      rfl
  | named names target _ own connectedTo peers =>
    refine tracks.kept (renews_of_names names) own (fun dst => ?_) fun q mem => ?_
    · rw [connectedTo]
      refine ⟨.inl, fun or => or.resolve_right ?_⟩
      rintro ⟨ctxDone, dial, rfl⟩
      cases names
    · rcases (peers q).mp mem with old | rfl
      · exact .inl old
      · exact .inr ⟨_, names, target⟩
  | other keeps noConnect =>
    refine tracks.kept keeps rfl (fun dst => ⟨.inl, fun or => or.resolve_right ?_⟩) fun q => .inl
    rintro ⟨ctxDone, dial, eq⟩
    exact noConnect _ _ _ eq.symm

end Tracks

variable {front : List HubEvent} {limit : Option UInt64}

theorem tracks_of_exec (run : exec Hub.step (newHub limit) front = some h) (id : Bytes) :
    Tracks id front (h.recordFor id) := by
  induction front using List.reverseRecOn generalizing h with
  | nil =>
    obtain rfl : newHub limit = h := by simpa using run
    exact ⟨by simp [newHub, Hub.recordFor, MadeHere], by simp [newHub, Hub.recordFor, since],
      by simp [newHub, Hub.recordFor, Record.peers]⟩
  | append_singleton front ev ih =>
    obtain ⟨m, before, ran⟩ := exec_snoc_iff.mp run
    exact (ih before).step (Hub.recordFor_step ran id)

/-- With every message delivered, a peer that named the id is in its record. -/
theorem noted_of_exec {old : HubEvent} {rt : Route} {q : Option Bytes}
    (run : exec Hub.step (newHub limit) front = some h)
    (arrives : Along Hub.step Hub.Arrives (newHub limit) front)
    (mem : old ∈ since rt.target front) (names : old.names = some (rt, q)) :
    q ∈ (h.recordFor rt.target).peers := by
  induction front using List.reverseRecOn generalizing h with
  | nil => cases mem
  | append_singleton front ev ih =>
    obtain ⟨m, before, ran⟩ := exec_snoc_iff.mp run
    have here : m.Arrives ev := arrives front ev [] m rfl before
    have ih := ih before (along_append_left arrives)
    have keeps : ev.renews rt.target = false := by
      by_contra renews
      rw [since_renewed (by simpa using renews)] at mem
      cases mem
    have mem := (mem_since_snoc keeps).mp mem
    generalize h.recordFor rt.target = r, Hub.recordFor_step ran rt.target = noted
    cases noted with
    | newSocket | close => simp [HubEvent.renews] at keeps
    | connect =>
      rcases mem with old | rfl
      · exact ih old
      · cases names
    | named newest _ _ _ _ peers =>
      rw [peers]
      rcases mem with old | rfl
      · exact .inl (ih old)
      · exact .inr (Prod.mk.inj (Option.some.inj (names.symm.trans newest))).2
    | other _ _ missed =>
      rcases mem with old | rfl
      · exact ih old
      · exact absurd ⟨rfl, here _ _ names⟩ (missed _ _ names)

theorem Noted.isolated {ev : HubEvent} {es rest : List HubEvent} (noted : Noted h id ev r)
    (before : (h.recordFor id).Isolated) (tracks : Tracks id front (h.recordFor id))
    (owned : Owned es) (split : es = front ++ ev :: rest) : r.Isolated := by
  cases noted with
  | newSocket => exact Record.blank_isolated true
  | close => exact Record.blank_isolated false
  | connect =>
    refine ⟨before.1, fun own conn mem => ?_⟩
    obtain ⟨dst, known, eq⟩ := before.2 own conn mem
    exact ⟨dst, List.mem_append_left _ known, eq⟩
  | @named _ rt p _ names target _ own connectedTo peers received =>
    have same : ∀ q ∈ r.peers, q = p := by
      intro q mem
      rcases (peers q).mp mem with old | rfl
      · obtain ⟨old, mem, rt', named, same⟩ := tracks.peers q old
        exact owned.one_peer front ev rest rt p split names old (target ▸ mem) rt' q named
          (same.trans target.symm)
      · rfl
    refine ⟨fun a ha b hb => (same a ha).trans (same b hb).symm, fun made conn mem => ?_⟩
    rw [own] at made
    rw [connectedTo]
    rcases received conn mem with old | ⟨rfl, eq⟩
    · exact before.2 made conn old
    · obtain ⟨ctxDone, dst, dial, called, from_⟩ :=
        owned.connected front ev rest id p split names (tracks.own.mp made)
      exact ⟨dst, (tracks.connectedTo dst).mpr ⟨ctxDone, dial, called⟩, eq.trans from_⟩
  | other => exact before

theorem isolated_of_owned {es rest : List HubEvent} (owned : Owned es) (split : es = front ++ rest)
    (run : exec Hub.step (newHub limit) front = some h) : h.Isolated := by
  induction front using List.reverseRecOn generalizing rest h with
  | nil =>
    obtain rfl : newHub limit = h := by simpa using run
    exact Hub.newHub_isolated limit
  | append_singleton front ev ih =>
    obtain ⟨m, before, ran⟩ := exec_snoc_iff.mp run
    rw [List.append_assoc] at split
    have here := ih split before
    exact ⟨fun id => (Hub.recordFor_step ran id).isolated (here.1 id) (tracks_of_exec before id)
      owned split, Hub.past_isolated here ran⟩

/-- A message that is delivered is in the record, which is isolated only if the peer is the one
of all messages before and, for a connection to a socket made here, one it is connected to. -/
theorem belongs_of_isolated {ev : HubEvent} {rt : Route} {p : Option Bytes}
    (isolated : h'.Isolated) (ran : h.step ev = some h') (arrives : h.Arrives ev)
    (names : ev.names = some (rt, p)) :
    (∀ q ∈ (h.recordFor rt.target).peers, q = p) ∧
      (rt = .data rt.target → (h.recordFor rt.target).own = true →
        ∃ dst ∈ (h.recordFor rt.target).connectedTo, p = some dst) := by
  have record := isolated.1 rt.target
  generalize h'.recordFor rt.target = r, Hub.recordFor_step ran rt.target = noted at record
  cases noted with
  | newSocket | close | connect => cases names
  | named newest _ _ own connectedTo peers _ arrived =>
    obtain ⟨rfl, rfl⟩ := Prod.mk.inj (Option.some.inj (names.symm.trans newest))
    refine ⟨fun q mem => record.1 q ((peers q).mpr (.inl mem)) p ((peers p).mpr (.inr rfl)),
      fun data made => ?_⟩
    obtain ⟨conn, mem, rfl⟩ := arrived data
    rw [← connectedTo]
    exact record.2 (own.trans made) conn mem
  | other _ _ missed => exact absurd ⟨rfl, arrives _ _ names⟩ (missed _ _ names)

/-- If every id is named by one peer, and the id of a socket made here by connections from a
peer it was connected to only, the sockets stay isolated along the run; where every message is
delivered, nothing less is enough, for nothing in the loop keeps a stranger out. The records
have what the sockets hold. -/
theorem sockets_isolated_iff (limit : Option UInt64) (es : List HubEvent) (hub : Hub)
    (run : exec Hub.step (newHub limit) es = some hub) :
    (Owned es → ∀ front rest h, es = front ++ rest →
      exec Hub.step (newHub limit) front = some h → h.Recorded ∧ h.Isolated) ∧
    (Along Hub.step Hub.Arrives (newHub limit) es →
      (∀ front rest h, es = front ++ rest → exec Hub.step (newHub limit) front = some h →
        h.Isolated) →
      Owned es) := by
  constructor
  · intro owned front rest h split before
    exact ⟨Hub.recorded_of_exec before, isolated_of_owned owned split before⟩
  · intro arrives isolated
    -- the state before an event that names a socket, and what follows from the one after it
    have reached {front ev rest} (split : es = front ++ ev :: rest) :
        ∃ h h', exec Hub.step (newHub limit) front = some h ∧ h.step ev = some h' ∧
          h'.Isolated := by
      subst split
      obtain ⟨h, before, after⟩ := exec_append_iff.mp run
      obtain ⟨h', stepped, -⟩ := exec_cons_iff.mp after
      exact ⟨h, h', before, stepped, isolated (front ++ [ev]) rest h' (by simp)
        (exec_snoc_iff.mpr ⟨h, before, stepped⟩)⟩
    refine ⟨fun front ev rest rt p split names old mem rt' q named target => ?_,
      fun front ev rest id p split names made => ?_⟩
    · obtain ⟨h, h', before, stepped, here⟩ := reached split
      refine (belongs_of_isolated here stepped (arrives front ev rest h split before) names).1 q ?_
      rw [← target] at mem ⊢
      exact noted_of_exec before (along_append_left (split ▸ arrives)) mem named
    · obtain ⟨h, h', before, stepped, here⟩ := reached split
      have tracks := tracks_of_exec before id
      obtain ⟨dst, mem, eq⟩ := (belongs_of_isolated here stepped
        (arrives front ev rest h split before) names).2 rfl (tracks.own.mpr made)
      obtain ⟨ctxDone, dial, called⟩ := (tracks.connectedTo dst).mp mem
      exact ⟨ctxDone, dst, dial, called, eq⟩

def streamFrom (id : UInt8) (data : Bytes) : HubEvent :=
  .incoming (.ok .stopV2) (stopStream { id := some [id] } data []) (.ok ())

def connectTo (id : UInt8) : HubEvent :=
  .call RelaySocket.sockID (.connect false [id] ⟨true, none, []⟩)

def ownPeerRun : List HubEvent :=
  [.newSocket RelaySocket.sockID, connectTo 1, streamFrom 1 RelaySocket.sockID,
    streamFrom 1 (RelaySocket.closePrefix ++ RelaySocket.sockID.drop 6)]

theorem ownPeerRun_owned : Owned ownPeerRun := by
  have data : (streamFrom 1 RelaySocket.sockID).names =
      some (.data RelaySocket.sockID, some [1]) := by decide +kernel
  have close : (streamFrom 1 (RelaySocket.closePrefix ++ RelaySocket.sockID.drop 6)).names =
      some (.close RelaySocket.sockID, some [1]) := by decide +kernel
  have one : ∀ ev ∈ ownPeerRun, ∀ rt p, ev.names = some (rt, p) → p = some [1] := by
    simp only [ownPeerRun, List.forall_mem_cons, data, close]
    simp [HubEvent.names, connectTo]
  constructor
  · intro front ev rest rt p split names old mem rt' q named target
    have old_mem : old ∈ ownPeerRun :=
      split ▸ List.mem_append_left _ ((List.rtakeWhile_suffix _ front).subset mem)
    exact (one old old_mem rt' q named).trans (one ev (by simp [split]) rt p names).symm
  · intro front ev rest id p split names made
    rcases front with _ | ⟨a, _ | ⟨b, _ | ⟨c, _ | ⟨d, front⟩⟩⟩⟩
    · cases split
      cases names
    · cases split
      cases names
    · cases split
      obtain ⟨eq, rfl⟩ := Prod.mk.inj (Option.some.inj (data.symm.trans names))
      cases eq
      exact ⟨false, [1], ⟨true, none, []⟩,
        by simp [since, List.rtakeWhile, HubEvent.renews, connectTo], rfl⟩
    · cases split
      cases close.symm.trans names
    · simp [ownPeerRun] at split

theorem sockets_isolated_own_peer :
    ∃ hub, exec Hub.step (newHub none) ownPeerRun = some hub ∧
      (hub.recordFor RelaySocket.sockID) = ⟨true, [[1]], [(1, some [1])], [some [1]]⟩ ∧
      ∀ front rest h, ownPeerRun = front ++ rest →
        exec Hub.step (newHub none) front = some h → h.Recorded ∧ h.Isolated := by
  obtain ⟨hub, run, record⟩ : ∃ hub, exec Hub.step (newHub none) ownPeerRun = some hub ∧
      (hub.recordFor RelaySocket.sockID) = ⟨true, [[1]], [(1, some [1])], [some [1]]⟩ :=
    Option.map_eq_some_iff.mp (by decide +kernel)
  exact ⟨hub, run, record, (sockets_isolated_iff none _ hub run).1 ownPeerRun_owned⟩

theorem not_isolated_of_record {es : List HubEvent}
    (run : (exec Hub.step (newHub none) es).map (fun h => h.recordFor id) = some r)
    (bad : ¬ r.Isolated) :
    ∃ hub, exec Hub.step (newHub none) es = some hub ∧ hub.recordFor id = r ∧ ¬ hub.Isolated := by
  obtain ⟨hub, run, record⟩ := Option.map_eq_some_iff.mp run
  exact ⟨hub, run, record, fun isolated => bad (record ▸ isolated.1 id)⟩

/-- Two peers that send the same id share a socket; a stranger sends the id of a socket
made here and connected to another peer; a stranger closes it. -/
theorem strangers_reach_sockets :
    (∃ hub, exec Hub.step (newHub none)
        [streamFrom 1 RelaySocket.sockID, streamFrom 2 RelaySocket.sockID] = some hub ∧
      hub.recordFor RelaySocket.sockID =
        { received := [(0, some [1]), (1, some [2])] } ∧ ¬ hub.Isolated) ∧
    (∃ hub, exec Hub.step (newHub none)
        [.newSocket RelaySocket.sockID, connectTo 1, streamFrom 2 RelaySocket.sockID] = some hub ∧
      hub.recordFor RelaySocket.sockID =
        { own := true, connectedTo := [[1]], received := [(1, some [2])] } ∧ ¬ hub.Isolated) ∧
    ∃ hub, exec Hub.step (newHub none)
        [.newSocket RelaySocket.sockID, connectTo 1, streamFrom 1 RelaySocket.sockID,
          streamFrom 2 (RelaySocket.closePrefix ++ RelaySocket.sockID.drop 6)] = some hub ∧
      hub.recordFor RelaySocket.sockID =
        ⟨true, [[1]], [(1, some [1])], [some [2]]⟩ ∧ ¬ hub.Isolated :=
  ⟨not_isolated_of_record (by decide +kernel) (by decide),
    not_isolated_of_record (by decide +kernel) (by decide),
    not_isolated_of_record (by decide +kernel) (by decide)⟩

end Relayhub
