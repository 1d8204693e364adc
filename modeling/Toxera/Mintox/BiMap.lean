import Toxera.Lib.Exec
import Toxera.Mintox.ClientRouting

/-!
# The map of connections

`mintox/bimap.go` keeps a map and its inverse.
-/

namespace TcpClient

open CryptoCore Exec

variable {rspdat : Bytes}

namespace BiMap
variable {α β : Type}

def get (b : BiMap α β) (k : α) : Option β := b.forward k

def getInverse (b : BiMap α β) (v : β) : Option α := b.inverse v

def Bijective (b : BiMap α β) : Prop :=
  ∀ k v, b.forward k = some v ↔ b.inverse v = some k

theorem bijective_new : (BiMap.new α β).Bijective := by
  intro k v
  simp [BiMap.new]

theorem new_mutable (α β : Type) : (BiMap.new α β).immutable = false := rfl

variable [DecidableEq α] [DecidableEq β]

def delete (b : BiMap α β) (k : α) : Option (BiMap α β) :=
  if b.immutable then none
  else match b.get k with
    | none => some b
    | some val => some { b with
        forward := Function.update b.forward k none
        inverse := Function.update b.inverse val none }

def deleteInverse (b : BiMap α β) (v : β) : Option (BiMap α β) :=
  if b.immutable then none
  else match b.getInverse v with
    | none => some b
    | some key => some { b with
        inverse := Function.update b.inverse v none
        forward := Function.update b.forward key none }

inductive Op (α β : Type) where
  | insert (k : α) (v : β)
  | delete (k : α)
  | deleteInverse (v : β)

def apply (b : BiMap α β) : Op α β → Option (BiMap α β)
  | .insert k v => b.insert k v
  | .delete k => b.delete k
  | .deleteInverse v => b.deleteInverse v

/-- An insertion finds neither its key with another value nor its value under another key. -/
def Fits (b : BiMap α β) : Op α β → Prop
  | .insert k v => (∀ v' ∈ b.forward k, v' = v) ∧ ∀ k' ∈ b.inverse v, k' = k
  | .delete _ => True
  | .deleteInverse _ => True

instance (b : BiMap α β) : (op : Op α β) → Decidable (b.Fits op)
  | .insert k v =>
    inferInstanceAs (Decidable ((∀ v' ∈ b.forward k, v' = v) ∧ ∀ k' ∈ b.inverse v, k' = k))
  | .delete _ => isTrue trivial
  | .deleteInverse _ => isTrue trivial

theorem bijective_insert_iff {b b' : BiMap α β} {k : α} {v : β} (bij : b.Bijective)
    (step : b.insert k v = some b') : b'.Bijective ↔ b.Fits (.insert k v) := by
  unfold BiMap.insert at step
  split_ifs at step
  cases step
  constructor
  · intro bij'
    constructor
    · -- the old value still names the key in the inverse map
      intro v' old
      by_contra ne
      have stale := (bij' k v').mpr (by
        simpa [Function.update_of_ne ne] using (bij k v').mp old)
      simp only [Function.update_self, Option.some.injEq] at stale
      exact ne stale.symm
    · intro k' old
      by_contra ne
      have stale := (bij' k' v).mp (by
        simpa [Function.update_of_ne ne] using (bij k' v).mpr old)
      simp only [Function.update_self, Option.some.injEq] at stale
      exact ne stale.symm
  · rintro ⟨value, key⟩ k' v'
    by_cases hk : k' = k
    · subst hk
      by_cases hv : v' = v
      · simp [hv]
      · simp only [Function.update_self, Function.update_of_ne hv, Option.some.injEq]
        refine iff_of_false (fun h => hv h.symm) fun h => ?_
        exact hv (value v' ((bij k' v').mpr h))
    · by_cases hv : v' = v
      · subst hv
        simp only [Function.update_self, Function.update_of_ne hk, Option.some.injEq]
        refine iff_of_false (fun h => ?_) fun h => hk h.symm
        exact hk (key k' ((bij k' v').mp h))
      · simpa only [Function.update_of_ne hk, Function.update_of_ne hv] using bij k' v'

theorem bijective_removed {b : BiMap α β} (bij : b.Bijective) {k : α} {v : β}
    (pair : b.forward k = some v) (flag : Bool) :
    (BiMap.mk flag (Function.update b.forward k none)
      (Function.update b.inverse v none)).Bijective := by
  intro k' v'
  by_cases hk : k' = k
  · subst hk
    by_cases hv : v' = v
    · simp [hv]
    · simp only [Function.update_self, Function.update_of_ne hv, reduceCtorEq, false_iff]
      intro h
      exact hv (Option.some.inj (((bij k' v').mpr h).symm.trans pair))
  · by_cases hv : v' = v
    · subst hv
      simp only [Function.update_self, Function.update_of_ne hk, reduceCtorEq, iff_false]
      intro h
      exact hk (Option.some.inj (((bij k' v').mp h).symm.trans ((bij k v').mp pair)))
    · simpa only [Function.update_of_ne hk, Function.update_of_ne hv] using bij k' v'

theorem bijective_apply_iff {b b' : BiMap α β} {op : Op α β} (bij : b.Bijective)
    (step : b.apply op = some b') : b'.Bijective ↔ b.Fits op := by
  cases op with
  | insert k v => exact bijective_insert_iff bij step
  | delete k =>
    refine iff_of_true ?_ trivial
    simp only [apply, delete, get] at step
    split_ifs at step
    split at step
    · cases step
      exact bij
    · rename_i pair
      cases step
      exact bijective_removed bij pair _
  | deleteInverse v =>
    refine iff_of_true ?_ trivial
    simp only [apply, deleteInverse, getInverse] at step
    split_ifs at step
    split at step
    · cases step
      exact bij
    · rename_i pair
      cases step
      exact bijective_removed bij ((bij _ v).mpr pair) _

theorem apply_writable {b : BiMap α β} (writable : b.immutable = false) (op : Op α β) :
    ∃ b', b.apply op = some b' ∧ b'.immutable = false := by
  have open_ : ¬ b.immutable = true := by simp [writable]
  cases op with
  | insert k v => exact ⟨_, if_neg open_, writable⟩
  | delete k =>
    simp only [apply, delete, if_neg open_]
    split
    · exact ⟨b, rfl, writable⟩
    · exact ⟨_, rfl, writable⟩
  | deleteInverse v =>
    simp only [apply, deleteInverse, if_neg open_]
    split
    · exact ⟨b, rfl, writable⟩
    · exact ⟨_, rfl, writable⟩

theorem calls_return {b : BiMap α β} (writable : b.immutable = false) (ops : List (Op α β)) :
    ∃ b', exec apply b ops = some b' := by
  induction ops generalizing b with
  | nil => exact ⟨b, rfl⟩
  | cons op ops ih =>
    obtain ⟨m, step, writable'⟩ := apply_writable writable op
    obtain ⟨b', rest⟩ := ih writable'
    exact ⟨b', exec_cons_iff.mpr ⟨m, step, rest⟩⟩

theorem throughout_bijective_iff (ops : List (Op α β)) :
    Throughout apply Bijective (BiMap.new α β) ops ↔ Along apply Fits (BiMap.new α β) ops := by
  obtain ⟨b', run⟩ := calls_return (b := BiMap.new α β) rfl ops
  exact throughout_iff_along (I := fun _ => True)
    (fun b op b' _ bij _ step => ⟨trivial, bijective_apply_iff bij step⟩) trivial bijective_new
    (along_of_mem (fun _ _ _ => trivial) _) run

end BiMap

def responsePair (rspdat : Bytes) : Option (UInt8 × CryptoKey) :=
  rspdat[1]?.bind fun connid =>
    (newCryptoKey ((rspdat.drop 2).take publicKeySize)).map fun pubkey => (connid, pubkey)

def receiveResponse (c : RoutingClient) (rspdat : Bytes) : Option RoutingClient :=
  (handleRoutingResponse c rspdat).map Prod.fst

/-- The response uses neither a number of another key nor a key of another number. -/
def RoutingClient.FitsResponse (c : RoutingClient) (rspdat : Bytes) : Prop :=
  ∀ pair ∈ responsePair rspdat, c.conns.Fits (.insert pair.1 pair.2)

variable {c c' : RoutingClient}

instance (c : RoutingClient) (rspdat : Bytes) : Decidable (c.FitsResponse rspdat) :=
  inferInstanceAs
    (Decidable (∀ pair ∈ responsePair rspdat, c.conns.Fits (.insert pair.1 pair.2)))

theorem insertConn_conns {connid : UInt8} {pubkey : CryptoKey}
    (h : c.insertConn connid pubkey = some c') : c.conns.insert connid pubkey = some c'.conns := by
  unfold RoutingClient.insertConn at h
  split at h
  · cases h
  · rename_i inserted
    cases h
    exact inserted

theorem receiveResponse_inserts (h : receiveResponse c rspdat = some c') :
    ∃ connid pubkey, responsePair rspdat = some (connid, pubkey) ∧
      c.conns.insert connid pubkey = some c'.conns := by
  obtain ⟨r, handled, rfl⟩ := Option.map_eq_some_iff.mp h
  unfold handleRoutingResponse at handled
  rw [ite_eq_iff] at handled
  obtain ⟨-, handled⟩ | ⟨-, handled⟩ := handled
  · cases handled
  obtain ⟨connid, at_1, handled⟩ := Option.bind_eq_some_iff.mp handled
  rw [ite_eq_iff] at handled
  obtain ⟨-, handled⟩ | ⟨-, handled⟩ := handled
  · cases handled
  obtain ⟨pubkey, key, handled⟩ := Option.bind_eq_some_iff.mp handled
  obtain ⟨c', inserted, rfl⟩ := Option.map_eq_some_iff.mp handled
  exact ⟨connid, pubkey, by simp [responsePair, at_1, key], insertConn_conns inserted⟩

theorem bijective_receive_iff (bij : c.conns.Bijective) (h : receiveResponse c rspdat = some c') :
    c'.conns.Bijective ↔ c.FitsResponse rspdat := by
  obtain ⟨connid, pubkey, pair, inserted⟩ := receiveResponse_inserts h
  rw [BiMap.bijective_insert_iff bij inserted]
  constructor
  · intro fits pair' same
    obtain rfl := Option.some.inj (pair.symm.trans same)
    exact fits
  · exact fun fits => fits (connid, pubkey) pair

/-- The maps stay inverse to each other exactly as long as no insertion meets its key with another
value or its value under another key. -/
theorem conns_bijective_iff {α β : Type} [DecidableEq α] [DecidableEq β]
    (ops : List (BiMap.Op α β)) (c c' : RoutingClient) (empty : c.conns = BiMap.new UInt8 CryptoKey)
    (responses : List Bytes) (run : exec receiveResponse c responses = some c') :
    (Throughout BiMap.apply BiMap.Bijective (BiMap.new α β) ops ↔
      Along BiMap.apply BiMap.Fits (BiMap.new α β) ops) ∧
    (Throughout receiveResponse (fun c => c.conns.Bijective) c responses ↔
      Along receiveResponse RoutingClient.FitsResponse c responses) := by
  refine ⟨BiMap.throughout_bijective_iff ops, ?_⟩
  refine throughout_iff_along (I := fun _ => True)
    (fun c p c' _ bij _ step => ⟨trivial, bijective_receive_iff bij step⟩) trivial ?_
    (along_of_mem (fun _ _ _ => trivial) _) run
  rw [empty]
  exact BiMap.bijective_new

def newRoutingClient : RoutingClient where
  toTCPClient := newTCPClient plainBox (keyOf 1) (keyOf 2) (keyOf 2)
  pingRequestId := 0
  conns := BiMap.new UInt8 CryptoKey
  sendq := ⟨[], false⟩
  callbacks := ⟨false, false, false, false⟩
  writable := BiMap.new_mutable UInt8 CryptoKey

def response (connid b : UInt8) : Bytes := 1 :: connid :: (keyOf b).val

theorem conns_bijective_two :
    (∃ b, exec BiMap.apply (BiMap.new Nat Nat) [.insert 1 10, .insert 2 20] = some b ∧
      b.Bijective) ∧
    ∃ c, exec receiveResponse newRoutingClient [response 16 1, response 17 2] = some c ∧
      c.conns.Bijective := by
  obtain ⟨c, run, -⟩ := Option.map_eq_some_iff.mp
    (show (exec receiveResponse newRoutingClient [response 16 1, response 17 2]).map
      (fun c => c.conns.get 16) = some (some (keyOf 1)) by decide +kernel)
  have exact_ := conns_bijective_iff (α := Nat) (β := Nat) [.insert 1 10, .insert 2 20]
    newRoutingClient c rfl _ run
  refine ⟨⟨_, rfl, exact_.1.mpr ?_ [.insert 1 10, .insert 2 20] [] _ rfl rfl⟩, c, run,
    exact_.2.mpr ?_ _ [] c rfl run⟩
  · exact along_of_decide (by decide +kernel)
  · exact along_of_decide (by decide +kernel)

/-- The number of the first key is given to a second one, and the second key gets another
number: the first key still leads to the number that is no longer its own, and the second
key has two numbers. -/
theorem conns_not_bijective :
    (∃ b, exec BiMap.apply (BiMap.new Nat Nat) [.insert 1 10, .insert 1 20] = some b ∧
      b.get 1 = some 20 ∧ b.getInverse 10 = some 1) ∧
    (∃ c, exec receiveResponse newRoutingClient [response 16 1, response 16 2] = some c ∧
      c.conns.get 16 = some (keyOf 2) ∧ c.conns.getInverse (keyOf 1) = some 16) ∧
    ∃ c, exec receiveResponse newRoutingClient [response 16 1, response 17 1] = some c ∧
      c.conns.get 16 = some (keyOf 1) ∧ c.conns.getInverse (keyOf 1) = some 17 := by
  refine ⟨⟨_, rfl, rfl, rfl⟩, ?_, ?_⟩
  · obtain ⟨c, run, values⟩ := Option.map_eq_some_iff.mp
      (show (exec receiveResponse newRoutingClient [response 16 1, response 16 2]).map
        (fun c => (c.conns.get 16, c.conns.getInverse (keyOf 1))) =
          some (some (keyOf 2), some 16) by decide +kernel)
    exact ⟨c, run, Prod.mk.inj values⟩
  · obtain ⟨c, run, values⟩ := Option.map_eq_some_iff.mp
      (show (exec receiveResponse newRoutingClient [response 16 1, response 17 1]).map
        (fun c => (c.conns.get 16, c.conns.getInverse (keyOf 1))) =
          some (some (keyOf 1), some 17) by decide +kernel)
    exact ⟨c, run, Prod.mk.inj values⟩

end TcpClient
