import Toxera.Lib.Varint

/-!
# The wire format of protocol buffers

A message is a sequence of fields: a tag with the field number and the wire type, and a
payload whose extent the wire type determines.
-/

namespace Protobuf

inductive Payload where
  | varint (v : UInt64)
  | fixed64 (b : List UInt8)
  | bytes (b : List UInt8)
  | fixed32 (b : List UInt8)

def Payload.wireType : Payload → Nat
  | .varint _ => 0
  | .fixed64 _ => 1
  | .bytes _ => 2
  | .fixed32 _ => 5

structure Field where
  number : Nat
  payload : Payload

def Payload.Spells (bs : List UInt8) : Payload → Prop
  | .varint v => Varint.Spells bs v.toNat
  | .fixed64 b => bs = b ∧ b.length = 8
  | .bytes b => ∃ size, Varint.Spells size b.length ∧ bs = size ++ b
  | .fixed32 b => bs = b ∧ b.length = 4

def Field.Spells (bs : List UInt8) (f : Field) : Prop :=
  ∃ tag body, Varint.Spells tag (8 * f.number + f.payload.wireType) ∧ f.payload.Spells body ∧
    bs = tag ++ body

inductive SpellsAll : List UInt8 → List Field → Prop
  | nil : SpellsAll [] []
  | cons {bs cs : List UInt8} {f : Field} {fs : List Field} (first : f.Spells bs)
      (rest : SpellsAll cs fs) : SpellsAll (bs ++ cs) (f :: fs)

theorem SpellsAll.append {bs cs : List UInt8} {fs gs : List Field} (h : SpellsAll bs fs)
    (h' : SpellsAll cs gs) : SpellsAll (bs ++ cs) (fs ++ gs) := by
  induction h with
  | nil => exact h'
  | cons first _ ih =>
    rw [List.append_assoc]
    exact .cons first ih

theorem Field.Spells.single {bs : List UInt8} {f : Field} (h : f.Spells bs) :
    SpellsAll bs [f] := by
  have all := SpellsAll.cons h .nil
  rwa [List.append_nil] at all

theorem Payload.wireType_lt (p : Payload) : p.wireType < 8 := by
  cases p <;> simp [wireType]

theorem Field.Spells.length_pos {bs : List UInt8} {f : Field} (h : f.Spells bs) :
    0 < bs.length := by
  obtain ⟨tag, body, spells, -, rfl⟩ := h
  rw [List.length_append]
  exact Nat.add_pos_left spells.length_pos _

theorem SpellsAll.payload_length {bs b : List UInt8} {fs : List Field} (h : SpellsAll bs fs)
    {n : Nat} (mem : ⟨n, .bytes b⟩ ∈ fs) : b.length ≤ bs.length := by
  induction h with
  | nil => exact absurd mem List.not_mem_nil
  | cons first _ ih =>
    rw [List.length_append]
    rcases List.mem_cons.mp mem with rfl | mem
    · obtain ⟨tag, body, -, ⟨size, -, rfl⟩, rfl⟩ := first
      simp only [List.length_append]
      omega
    · exact (ih mem).trans (Nat.le_add_left _ _)

theorem Payload.Spells.not_broken {p : Payload} {body rest : List UInt8} (h : p.Spells body)
    (type : p.wireType = 0 ∨ p.wireType = 2) : ¬ Varint.Broken (body ++ rest) := by
  intro broken
  cases p with
  | varint v => exact broken body rest _ h rfl
  | bytes b =>
    obtain ⟨size, sized, rfl⟩ := h
    exact broken size _ _ sized (List.append_assoc ..)
  | fixed64 b => simp [wireType] at type
  | fixed32 b => simp [wireType] at type

theorem payload_cases (wt : Nat) (rest : List UInt8) :
    (wt ≠ 0 ∧ wt ≠ 2) ∨ ((wt = 0 ∨ wt = 2) ∧ Varint.Broken rest) ∨
    (∃ (p : Payload) (body rest' : List UInt8), p.wireType = wt ∧ (wt = 0 ∨ wt = 2) ∧
      rest = body ++ rest' ∧ p.Spells body) ∨
    ∃ size l rest', wt = 2 ∧ rest = size ++ rest' ∧ Varint.Spells size l ∧ rest'.length < l := by
  by_cases type : wt = 0 ∨ wt = 2
  · refine Or.inr ?_
    rcases Varint.broken_or_spells rest with broken | ⟨bs, rest', v, rfl, spells⟩
    · exact Or.inl ⟨type, broken⟩
    · refine Or.inr ?_
      rcases type with rfl | rfl
      · have v64 : (UInt64.ofNat v).toNat = v := UInt64.toNat_ofNat_of_lt' spells.fits
        rw [← v64] at spells
        exact Or.inl ⟨.varint (UInt64.ofNat v), bs, rest', rfl, Or.inl rfl, rfl, spells⟩
      · rcases Nat.lt_or_ge rest'.length v with beyond | inside
        · grind
        · rw [← List.length_take_of_le inside] at spells
          refine Or.inl ⟨.bytes (rest'.take v), bs ++ rest'.take v, rest'.drop v, rfl, Or.inr rfl,
            ?_, bs, spells, rfl⟩
          rw [List.append_assoc, List.take_append_drop]
  · exact Or.inl (not_or.mp type)

theorem SpellsAll.of_tag {tag rest : List UInt8} {fs : List Field} {n wt : Nat}
    (h : SpellsAll (tag ++ rest) fs) (tagged : Varint.Spells tag (8 * n + wt)) (small : wt < 8) :
    ∃ p body rest' fs', fs = ⟨n, p⟩ :: fs' ∧ p.wireType = wt ∧ rest = body ++ rest' ∧
      p.Spells body ∧ SpellsAll rest' fs' := by
  generalize whole : tag ++ rest = bs at h
  cases h with
  | nil =>
    have pos := tagged.length_pos
    rw [List.append_eq_nil_iff] at whole
    simp [whole.1] at pos
  | @cons bs cs f fs first others =>
    obtain ⟨tag', body, tagged', spells, rfl⟩ := first
    rw [List.append_assoc] at whole
    obtain ⟨-, same, rfl⟩ := tagged.unique tagged' whole
    have type := f.payload.wireType_lt
    have number : f.number = n := by omega
    refine ⟨f.payload, body, cs, fs, ?_, by omega, rfl, spells, others⟩
    rw [← number]

theorem Payload.Spells.unique {p p' : Payload} {body body' rest rest' : List UInt8}
    (h : p.Spells body) (h' : p'.Spells body') (type : p.wireType = p'.wireType)
    (same : body ++ rest = body' ++ rest') : p = p' ∧ rest = rest' := by
  cases p with
  | varint v =>
    cases p' with
    | varint v' =>
      obtain ⟨-, value, back⟩ := Varint.Spells.unique h h' same
      exact ⟨congrArg Payload.varint (UInt64.toNat_inj.mp value), back⟩
    | _ => simp [wireType] at type
  | bytes b =>
    cases p' with
    | bytes b' =>
      obtain ⟨size, sized, rfl⟩ := h
      obtain ⟨size', sized', rfl⟩ := h'
      rw [List.append_assoc, List.append_assoc] at same
      obtain ⟨-, length, rest⟩ := sized.unique sized' same
      obtain ⟨rfl, back⟩ := List.append_inj rest length
      exact ⟨rfl, back⟩
    | _ => simp [wireType] at type
  | fixed64 b =>
    cases p' with
    | fixed64 b' =>
      obtain ⟨rfl, len⟩ := h
      obtain ⟨rfl, len'⟩ := h'
      obtain ⟨rfl, back⟩ := List.append_inj same (len.trans len'.symm)
      exact ⟨rfl, back⟩
    | _ => simp [wireType] at type
  | fixed32 b =>
    cases p' with
    | fixed32 b' =>
      obtain ⟨rfl, len⟩ := h
      obtain ⟨rfl, len'⟩ := h'
      obtain ⟨rfl, back⟩ := List.append_inj same (len.trans len'.symm)
      exact ⟨rfl, back⟩
    | _ => simp [wireType] at type

theorem SpellsAll.uncons {bs rest : List UInt8} {f : Field} {fs : List Field}
    (h : SpellsAll (bs ++ rest) fs) (first : f.Spells bs) :
    ∃ gs, fs = f :: gs ∧ SpellsAll rest gs := by
  obtain ⟨tag, body, tagged, spells, rfl⟩ := first
  rw [List.append_assoc] at h
  obtain ⟨p, body', rest', gs, rfl, type, same, spells', others⟩ :=
    h.of_tag tagged f.payload.wireType_lt
  obtain ⟨rfl, rfl⟩ := spells.unique spells' type.symm same
  exact ⟨gs, rfl, others⟩

def Payload.varint? : Payload → Option UInt64
  | .varint v => some v
  | _ => none

def Payload.bytes? : Payload → Option (List UInt8)
  | .bytes b => some b
  | _ => none

def numbered (fs : List Field) (n : Nat) : List Field := fs.filter fun f => f.number = n

def varints (fs : List Field) (n : Nat) : List UInt64 :=
  (numbered fs n).filterMap fun f => f.payload.varint?

def strings (fs : List Field) (n : Nat) : List (List UInt8) :=
  (numbered fs n).filterMap fun f => f.payload.bytes?

@[simp] theorem varints_nil (n : Nat) : varints [] n = [] := rfl

@[simp] theorem strings_nil (n : Nat) : strings [] n = [] := rfl

@[simp] theorem varints_snoc_varint (fs : List Field) (k n : Nat) (v : UInt64) :
    varints (fs ++ [⟨k, .varint v⟩]) n = varints fs n ++ if k = n then [v] else [] := by
  by_cases same : k = n <;> simp [varints, numbered, Payload.varint?, same]

@[simp] theorem varints_snoc_bytes (fs : List Field) (k n : Nat) (b : List UInt8) :
    varints (fs ++ [⟨k, .bytes b⟩]) n = varints fs n := by
  by_cases same : k = n <;> simp [varints, numbered, Payload.varint?, same]

@[simp] theorem strings_snoc_varint (fs : List Field) (k n : Nat) (v : UInt64) :
    strings (fs ++ [⟨k, .varint v⟩]) n = strings fs n := by
  by_cases same : k = n <;> simp [strings, numbered, Payload.bytes?, same]

@[simp] theorem strings_snoc_bytes (fs : List Field) (k n : Nat) (b : List UInt8) :
    strings (fs ++ [⟨k, .bytes b⟩]) n = strings fs n ++ if k = n then [b] else [] := by
  by_cases same : k = n <;> simp [strings, numbered, Payload.bytes?, same]

structure Reordered (fs fs' : List Field) : Prop where
  perm : fs.Perm fs'
  order : ∀ n, numbered fs n = numbered fs' n

theorem Reordered.varints {fs fs' : List Field} (h : Reordered fs fs') (n : Nat) :
    varints fs n = varints fs' n := by
  rw [Protobuf.varints, h.order, Protobuf.varints]

theorem Reordered.strings {fs fs' : List Field} (h : Reordered fs fs') (n : Nat) :
    strings fs n = strings fs' n := by
  rw [Protobuf.strings, h.order, Protobuf.strings]

section

variable {fs gs : List Field} (once : ((fs ++ gs).map Field.number).Nodup)
include once

theorem numbered_front (n : Nat) :
    numbered fs n = if n ∈ fs.map Field.number then numbered (fs ++ gs) n else [] := by
  have none {l : List Field} (absent : n ∉ l.map Field.number) : numbered l n = [] := by
    refine List.filter_eq_nil_iff.mpr fun f hf => ?_
    rw [decide_eq_true_iff]
    rintro rfl
    exact absent (List.mem_map_of_mem hf)
  split_ifs with front
  · grind [numbered]
  · exact none front

theorem varints_front (n : Nat) :
    varints fs n = if n ∈ fs.map Field.number then varints (fs ++ gs) n else [] := by
  rw [varints, numbered_front once]
  split_ifs <;> rfl

theorem strings_front (n : Nat) :
    strings fs n = if n ∈ fs.map Field.number then strings (fs ++ gs) n else [] := by
  rw [strings, numbered_front once]
  split_ifs <;> rfl

end

end Protobuf
