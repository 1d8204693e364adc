import Mathlib

/-!
# Key streams

A stream cipher as the bytes of its key stream, and what comes out when a buffer goes
through it in place, chunk by chunk: a chunk is the beginning of the buffer, which is
XORed with the next bytes of the key stream and then handed out.
-/

namespace KeyStream

variable {b : UInt8} {buf src : List UInt8} {c i pos : Nat} {chunks : List Nat}

variable {ks : Nat → UInt8}

def keyBytes (ks : Nat → UInt8) (pos n : Nat) : List UInt8 := (List.range' pos n).map ks

def xorKeyStream (ks : Nat → UInt8) (pos : Nat) (src : List UInt8) : List UInt8 :=
  List.zipWith (· ^^^ ·) src (keyBytes ks pos src.length)

@[simp] theorem keyBytes_length (pos n : Nat) : (keyBytes ks pos n).length = n := by
  simp [keyBytes]

theorem keyBytes_add (pos m n : Nat) :
    keyBytes ks pos (m + n) = keyBytes ks pos m ++ keyBytes ks (pos + m) n := by
  rw [keyBytes, ← List.range'_append_1, List.map_append]
  rfl

theorem keyBytes_getElem? {n : Nat} (lt : i < n) :
    (keyBytes ks pos n)[i]? = some (ks (pos + i)) := by
  simp [keyBytes, lt]

@[simp] theorem xorKeyStream_length (pos : Nat) (src : List UInt8) :
    (xorKeyStream ks pos src).length = src.length := by
  simp [xorKeyStream]

theorem xorKeyStream_getElem? (there : src[i]? = some b) :
    (xorKeyStream ks pos src)[i]? = some (b ^^^ ks (pos + i)) := by
  have lt : i < src.length := (List.getElem?_eq_some_iff.mp there).1
  rw [xorKeyStream, List.getElem?_zipWith, there, keyBytes_getElem? lt]

theorem xorKeyStream_eq {out : List UInt8} (len : src.length = out.length)
    (each : ∀ i < src.length, src.getD i 0 ^^^ ks (pos + i) = out.getD i 0) :
    xorKeyStream ks pos src = out := by
  refine List.ext_getElem? fun i => ?_
  rcases Nat.lt_or_ge i src.length with lt | ge
  · have lt' : i < out.length := len ▸ lt
    have at_ := each i lt
    rw [List.getD_eq_getElem _ _ lt, List.getD_eq_getElem _ _ lt'] at at_
    rw [xorKeyStream_getElem? (List.getElem?_eq_getElem lt), List.getElem?_eq_getElem lt', at_]
  · rw [List.getElem?_eq_none (by simpa using ge), List.getElem?_eq_none (by omega)]

def Blank (buf : List UInt8) (n : Nat) : Prop := ∀ i < n, buf[i]? = some 0

theorem xor_eq_right_iff {a : UInt8} : a ^^^ b = b ↔ a = 0 := by
  constructor
  · intro h
    rw [← UInt8.xor_zero (a := a), ← UInt8.xor_self (a := b), ← UInt8.xor_assoc, h, UInt8.xor_self]
  · rintro rfl
    exact UInt8.zero_xor

theorem xorKeyStream_eq_iff (ks : Nat → UInt8) (pos : Nat) (src : List UInt8) :
    xorKeyStream ks pos src = keyBytes ks pos src.length ↔ Blank src src.length := by
  constructor
  · intro same i lt
    have there := List.getElem?_eq_getElem lt
    have at_ : (xorKeyStream ks pos src)[i]? = some _ := xorKeyStream_getElem? there
    rw [same, keyBytes_getElem? lt] at at_
    rw [there, xor_eq_right_iff.mp (Option.some.inj at_).symm]
  · intro blank
    refine List.ext_getElem? fun i => ?_
    rcases Nat.lt_or_ge i src.length with lt | ge
    · rw [xorKeyStream_getElem? (blank i lt), keyBytes_getElem? lt, UInt8.zero_xor]
    · rw [List.getElem?_eq_none (by simpa using ge), List.getElem?_eq_none (by simpa using ge)]

def through (ks : Nat → UInt8) (pos : Nat) (buf : List UInt8) : List Nat → List UInt8
  | [] => []
  | c :: chunks =>
    let out := xorKeyStream ks pos (buf.take c)
    out ++ through ks (pos + c) (out ++ buf.drop c) chunks

def spans (pos : Nat) : List Nat → List (Nat × Nat)
  | [] => []
  | c :: chunks => (pos, c) :: spans (pos + c) chunks

/-- The key bytes of one chunk leave nothing in the part of the buffer that another uses. -/
def Unstained (ks : Nat → UInt8) (a b : Nat × Nat) : Prop := ∀ i < a.2, i < b.2 → ks (a.1 + i) = 0

theorem spans_map_snd (pos : Nat) (chunks : List Nat) :
    (spans pos chunks).map Prod.snd = chunks := by
  induction chunks generalizing pos with
  | nil => rfl
  | cons c chunks ih => rw [spans, List.map_cons, ih]

theorem unstained_spans_iff {start : Nat} :
    (∀ b ∈ spans start chunks, Unstained ks (pos, c) b) ↔
      ∀ d ∈ chunks, ∀ i < c, i < d → ks (pos + i) = 0 := by
  conv_rhs => rw [← spans_map_snd start chunks]
  rw [List.forall_mem_map]
  rfl

theorem blank_take_iff (fits : c ≤ buf.length) :
    Blank (buf.take c) (buf.take c).length ↔ Blank buf c := by
  rw [List.length_take, Nat.min_eq_left fits]
  refine forall₂_congr fun i lt => ?_
  rw [List.getElem?_take_of_lt lt]

theorem blank_keyBytes_iff {d : Nat} (blank : Blank buf c) :
    Blank (keyBytes ks pos c ++ buf.drop c) d ↔
      Blank buf d ∧ ∀ i < c, i < d → ks (pos + i) = 0 := by
  have inside : ∀ i < c, (keyBytes ks pos c ++ buf.drop c)[i]? = some (ks (pos + i)) := by
    intro i lt
    rw [List.getElem?_append_left (by simpa using lt), keyBytes_getElem? lt]
  have behind : ∀ i, c ≤ i → (keyBytes ks pos c ++ buf.drop c)[i]? = buf[i]? := by
    grind [keyBytes_length]
  constructor
  · intro after
    refine ⟨fun i lt => ?_, fun i small lt => ?_⟩
    · rcases Nat.lt_or_ge i c with small | large
      · exact blank i small
      · rw [← behind i large, after i lt]
    · rw [← Option.some_inj, ← inside i small, after i lt]
  · rintro ⟨before, zero⟩ i lt
    rcases Nat.lt_or_ge i c with small | large
    · rw [inside i small, zero i small lt]
    · rw [behind i large, before i lt]

theorem through_eq_iff (fit : ∀ c ∈ chunks, c ≤ buf.length) :
    through ks pos buf chunks = keyBytes ks pos chunks.sum ↔
      (∀ c ∈ chunks, Blank buf c) ∧ (spans pos chunks).Pairwise (Unstained ks) := by
  induction chunks generalizing pos buf with
  | nil => simp [through, spans, keyBytes]
  | cons c chunks ih =>
    have fits : c ≤ buf.length := fit c List.mem_cons_self
    have size : (buf.take c).length = c := by rw [List.length_take, Nat.min_eq_left fits]
    have first := (xorKeyStream_eq_iff ks pos (buf.take c)).trans (blank_take_iff fits)
    rw [size] at first
    have split : through ks pos buf (c :: chunks) = keyBytes ks pos (c :: chunks).sum ↔
        Blank buf c ∧ through ks (pos + c) (keyBytes ks pos c ++ buf.drop c) chunks =
          keyBytes ks (pos + c) chunks.sum := by
      have same : (xorKeyStream ks pos (buf.take c)).length = (keyBytes ks pos c).length := by
        rw [xorKeyStream_length, keyBytes_length, size]
      rw [through, List.sum_cons, keyBytes_add]
      constructor
      · intro eq
        obtain ⟨out, rest⟩ := List.append_inj eq same
        rw [out] at rest
        exact ⟨first.mp out, rest⟩
      · grind
    rw [split, ih, List.forall_mem_cons, spans, List.pairwise_cons, unstained_spans_iff, and_assoc]
    · grind [blank_keyBytes_iff]
    · intro d mem
      have := fit d (List.mem_cons_of_mem _ mem)
      simp
      omega

end KeyStream
