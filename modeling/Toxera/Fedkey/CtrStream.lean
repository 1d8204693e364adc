import Toxera.Fedkey.Encodings
import Toxera.Lib.KeyStream

/-!
# The random source of the RSA keys

`ctrStream.Read` of `fedkey/keyring.go` and `aes256ctr` of `fedkey/keyring.c`, over the
key stream of the cipher.
-/

namespace Fedkey

open KeyStream

variable {c chunk n outLen : Nat}

namespace C

def int32 (n : Nat) : Int := Int.bmod n (2 ^ 32)

def zerosLen : Nat := 64

def zeros : Bytes := List.replicate zerosLen 0

def encryptZeros (ks : Nat → UInt8) (total chunk : Nat) : Bytes :=
  xorKeyStream ks total (zeros.take chunk)

def aes256ctrLoop (ks : Nat → UInt8) (outLen : Int) (total : Nat) : Bytes :=
  if total < outLen then
    let remain := (outLen - total).toNat
    let chunk := min remain zerosLen
    encryptZeros ks total chunk ++ aes256ctrLoop ks outLen (total + chunk)
  else []
termination_by (outLen - total).toNat
decreasing_by
  simp only [zerosLen]
  omega

def aes256ctr (ks : Nat → UInt8) (outLen : Nat) : Bytes :=
  let chunk := min outLen zerosLen
  encryptZeros ks 0 chunk ++ aes256ctrLoop ks (int32 outLen) chunk

end C

def zeroBufLen : Nat := 4096

structure CtrStream where
  /-- how much of the key stream is used up -/
  pos : Nat
  zeroBuf : Bytes
  zeroBuf_length : zeroBuf.length = zeroBufLen

namespace CtrStream

def new : CtrStream := ⟨0, List.replicate zeroBufLen 0, List.length_replicate⟩

theorem xor_length (ks : Nat → UInt8) (pos chunk : Nat) (buf : Bytes) :
    (xorKeyStream ks pos (buf.take chunk) ++ buf.drop chunk).length = buf.length := by
  rw [List.length_append, xorKeyStream_length, ← List.length_append, List.take_append_drop]

def xor (ks : Nat → UInt8) (r : CtrStream) (chunk : Nat) : CtrStream where
  pos := r.pos + chunk
  zeroBuf := xorKeyStream ks r.pos (r.zeroBuf.take chunk) ++ r.zeroBuf.drop chunk
  zeroBuf_length := (xor_length ks r.pos chunk r.zeroBuf).trans r.zeroBuf_length

def read (ks : Nat → UInt8) (r : CtrStream) (n : Nat) : Bytes × CtrStream :=
  if 0 < n then
    let chunk := min n zeroBufLen
    let r := r.xor ks chunk
    let rest := read ks r (n - chunk)
    (r.zeroBuf.take chunk ++ rest.1, rest.2)
  else ([], r)
termination_by n
decreasing_by
  simp only [zeroBufLen]
  omega

def reads (ks : Nat → UInt8) (r : CtrStream) : List Nat → Bytes
  | [] => []
  | n :: sizes => (r.read ks n).1 ++ reads ks (r.read ks n).2 sizes

end CtrStream

section
variable {ks : Nat → UInt8}

theorem encryptZeros_eq (total : Nat) (fits : chunk ≤ C.zerosLen) :
    C.encryptZeros ks total chunk = keyBytes ks total chunk := by
  have size : (C.zeros.take chunk).length = chunk := by
    rw [C.zeros, List.length_take, List.length_replicate, Nat.min_eq_left fits]
  have blank : Blank (C.zeros.take chunk) (C.zeros.take chunk).length := by
    intro i lt
    rw [size] at lt
    rw [C.zeros, List.take_replicate, Nat.min_eq_left fits, List.getElem?_replicate_of_lt lt]
  rw [C.encryptZeros, (xorKeyStream_eq_iff _ _ _).mpr blank, size]

theorem aes256ctrLoop_eq {total : Nat} (le : total ≤ outLen) :
    C.aes256ctrLoop ks outLen total = keyBytes ks total (outLen - total) := by
  fun_induction C.aes256ctrLoop ks outLen total with
  | case1 total more remain chunk ih =>
    have fits : total + chunk ≤ outLen := by omega
    rw [encryptZeros_eq total (Nat.min_le_right _ _), ih fits, ← keyBytes_add]
    congr 1
    omega
  | case2 total done =>
    rw [show outLen - total = 0 by omega]
    rfl

theorem aes256ctr_eq (small : outLen < 2 ^ 31) : C.aes256ctr ks outLen = keyBytes ks 0 outLen := by
  have int : C.int32 outLen = outLen := Int.bmod_eq_of_le (by omega) (by omega)
  have fits : min outLen C.zerosLen ≤ outLen := Nat.min_le_left _ _
  simp only [C.aes256ctr, int]
  rw [encryptZeros_eq 0 (Nat.min_le_right _ _), aes256ctrLoop_eq fits]
  conv_rhs => rw [← Nat.add_sub_cancel' fits, keyBytes_add, Nat.zero_add]

end

namespace CtrStream

def chunks (n : Nat) : List Nat :=
  List.replicate (n / zeroBufLen) zeroBufLen ++
    if n % zeroBufLen = 0 then [] else [n % zeroBufLen]

theorem chunks_small (pos : 0 < n) (small : n ≤ zeroBufLen) : chunks n = [n] := by
  rw [zeroBufLen] at small
  rcases Nat.lt_or_eq_of_le small with lt | rfl
  · simp only [chunks, zeroBufLen, Nat.div_eq_of_lt lt, Nat.mod_eq_of_lt lt]
    simp [Nat.pos_iff_ne_zero.mp pos]
  · rfl

theorem chunks_large (large : zeroBufLen < n) :
    chunks n = zeroBufLen :: chunks (n - zeroBufLen) := by
  obtain ⟨m, rfl⟩ := Nat.exists_eq_add_of_le large.le
  have size : 0 < zeroBufLen := by decide
  rw [Nat.add_sub_cancel_left, chunks, chunks, Nat.add_div_left m size, Nat.add_mod_left,
    List.replicate_succ, List.cons_append]

theorem chunks_sum (n : Nat) : (chunks n).sum = n := by
  have whole := Nat.div_add_mod' n zeroBufLen
  simp only [chunks, List.sum_append, List.sum_replicate, smul_eq_mul]
  split_ifs with none
  · rw [none] at whole
    exact whole
  · rw [List.sum_singleton]
    exact whole

theorem le_of_mem_chunks (mem : c ∈ chunks n) : c ≤ zeroBufLen := by
  have rest : n % zeroBufLen < zeroBufLen := Nat.mod_lt n (by decide)
  rcases List.mem_append.mp mem with whole | last
  · exact (List.eq_of_mem_replicate whole).le
  · split_ifs at last
    · cases last
    · rw [List.mem_singleton.mp last]
      exact rest.le

variable {ks : Nat → UInt8}

theorem xor_take (ks : Nat → UInt8) (r : CtrStream) (fits : chunk ≤ zeroBufLen) :
    (r.xor ks chunk).zeroBuf.take chunk = xorKeyStream ks r.pos (r.zeroBuf.take chunk) := by
  have size : (xorKeyStream ks r.pos (r.zeroBuf.take chunk)).length = chunk := by
    rw [xorKeyStream_length, List.length_take, r.zeroBuf_length, Nat.min_eq_left fits]
  rw [xor, List.take_left' size]

theorem read_small (r : CtrStream) (pos : 0 < n) (small : n ≤ zeroBufLen) :
    r.read ks n = (xorKeyStream ks r.pos (r.zeroBuf.take n), r.xor ks n) := by
  have chunk : min n zeroBufLen = n := Nat.min_eq_left small
  rw [read, if_pos pos]
  simp only [chunk, Nat.sub_self, xor_take ks r small]
  rw [read, if_neg (Nat.lt_irrefl 0), List.append_nil]

theorem read_length (r : CtrStream) (n : Nat) : (r.read ks n).1.length = n := by
  fun_induction read ks r n with
  | case1 r n pos chunk r' rest ih =>
    have fits : chunk ≤ n := Nat.min_le_left _ _
    rw [List.length_append, ih, List.length_take, r'.zeroBuf_length]
    omega
  | case2 r n none => exact (Nat.eq_zero_of_not_pos none).symm

theorem through_read (r : CtrStream) (n : Nat) (later : List Nat) :
    through ks r.pos r.zeroBuf (chunks n ++ later) =
      (r.read ks n).1 ++ through ks (r.read ks n).2.pos (r.read ks n).2.zeroBuf later := by
  fun_induction read ks r n with
  | case1 r n pos chunk r' rest ih =>
    have head : chunks n = chunk :: chunks (n - chunk) := by
      rcases Nat.lt_or_ge zeroBufLen n with large | small
      · rw [chunks_large large, show chunk = zeroBufLen from Nat.min_eq_right large.le]
      · rw [chunks_small pos small, show chunk = n from Nat.min_eq_left small, Nat.sub_self]
        rfl
    have out := xor_take ks r (Nat.min_le_right n zeroBufLen)
    rw [List.append_assoc, ← ih, out, head]
    rfl
  | case2 r n none =>
    rw [Nat.eq_zero_of_not_pos none]
    rfl

theorem reads_eq_through (r : CtrStream) (sizes : List Nat) :
    r.reads ks sizes = through ks r.pos r.zeroBuf (sizes.flatMap chunks) := by
  induction sizes generalizing r with
  | nil => rfl
  | cons n sizes ih => rw [reads, ih, List.flatMap_cons, through_read]

theorem sum_flatMap_chunks (sizes : List Nat) : (sizes.flatMap chunks).sum = sizes.sum := by
  induction sizes with
  | nil => rfl
  | cons n sizes ih => rw [List.flatMap_cons, List.sum_append, chunks_sum, ih, List.sum_cons]

theorem reads_iff_unstained (sizes : List Nat) :
    new.reads ks sizes = keyBytes ks 0 sizes.sum ↔
      (spans 0 (sizes.flatMap chunks)).Pairwise (Unstained ks) := by
  have fit : ∀ c ∈ sizes.flatMap chunks, c ≤ new.zeroBuf.length := by
    intro c mem
    obtain ⟨n, -, inside⟩ := List.mem_flatMap.mp mem
    rw [new.zeroBuf_length]
    exact le_of_mem_chunks inside
  have blank : ∀ c ∈ sizes.flatMap chunks, Blank new.zeroBuf c := by
    intro c mem i lt
    have := fit c mem
    rw [new.zeroBuf_length] at this
    exact List.getElem?_replicate_of_lt (by omega)
  rw [reads_eq_through, ← sum_flatMap_chunks]
  exact (through_eq_iff fit).trans (and_iff_right blank)

/-- The C function writes the key stream. -/
theorem reads_eq_keyBytes_iff (ks : Nat → UInt8) (sizes : List Nat) :
    (∀ n < 2 ^ 31, C.aes256ctr ks n = keyBytes ks 0 n) ∧
    (new.reads ks sizes = keyBytes ks 0 sizes.sum ↔
      (spans 0 (sizes.flatMap chunks)).Pairwise (Unstained ks)) :=
  ⟨fun _ small => aes256ctr_eq small, reads_iff_unstained sizes⟩

/-- Two reads of one byte. -/
theorem second_byte_lost :
    new.reads (fun _ => 1) [1, 1] = [1, 0] ∧ keyBytes (fun _ => 1) 0 2 = [1, 1] := by
  refine ⟨?_, by decide⟩
  rw [reads_eq_through]
  decide

theorem pos_of_mem_chunks (mem : c ∈ chunks n) : 0 < c := by
  rcases List.mem_append.mp mem with whole | last
  · rw [List.eq_of_mem_replicate whole]
    decide
  · split_ifs at last with none
    · cases last
    · grind

/-- The sizes of reads that give the key stream whatever the key is. -/
theorem reads_every_key_iff (sizes : List Nat) :
    (∀ ks : Nat → UInt8, new.reads ks sizes = keyBytes ks 0 sizes.sum) ↔
      (sizes.flatMap chunks).length ≤ 1 := by
  simp only [reads_iff_unstained]
  constructor
  · intro every
    have ones := every fun _ => 1
    match there : sizes.flatMap chunks with
    | [] | [_] => simp
    | c :: d :: later =>
      have positive : ∀ c ∈ sizes.flatMap chunks, 0 < c := by
        intro c mem
        obtain ⟨n, -, inside⟩ := List.mem_flatMap.mp mem
        exact pos_of_mem_chunks inside
      rw [there] at ones positive
      have clean := (List.pairwise_cons.mp ones).1 (0 + c, d) List.mem_cons_self
      have first : 0 < c := positive c List.mem_cons_self
      have second : 0 < d := positive d (List.mem_cons_of_mem _ List.mem_cons_self)
      exact absurd (show (1 : UInt8) = 0 from clean 0 first second) (by decide)
  · intro one ks
    match sizes.flatMap chunks, one with
    | [], _ => exact .nil
    | [c], _ => exact List.pairwise_singleton _ _

end CtrStream
end Fedkey
