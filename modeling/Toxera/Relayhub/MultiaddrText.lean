import Toxera.Relayhub.Multiaddr

/-!
# A `ws` before another component

The component behind a `ws` is taken for the value of the `ws`: its code for the length,
and what follows for the text.
-/

namespace Relayhub.Multiaddr

open BaseEncoding Radix Component

variable {b : UInt8} {back more out s value : Bytes} {c : Component} {fuel n : Nat}

theorem multiaddrLoop_grows {b s' : Bytes}
    (slash : ∀ {b s}, multiaddrLoop fuel b s = some out → out = s ∨ s ++ ascii "/" <+: out)
    (grown : s ++ ascii "/" <+: s') (run : multiaddrLoop fuel b s' = some out) :
    s ++ ascii "/" <+: out := by
  rcases slash run with rfl | later
  · exact grown
  · grind

theorem multiaddrLoop_slash {b : Bytes} (run : multiaddrLoop fuel b s = some out) :
    out = s ∨ s ++ ascii "/" <+: out := by
  induction fuel generalizing b s with
  | zero => cases run
  | succ fuel ih =>
    have slash (name : Bytes) : s ++ ascii "/" <+: s ++ ascii "/" ++ name := List.prefix_append ..
    rw [multiaddrLoop] at run
    split_ifs at run
    · exact Or.inl (Option.some.inj run).symm
    · dsimp only at run
      split_ifs at run
      · exact Or.inl (Option.some.inj run).symm
      · right
        obtain ⟨b, -, run⟩ := Option.bind_eq_some_iff.mp run
        split at run
        · obtain ⟨b, -, run⟩ := Option.bind_eq_some_iff.mp run
          refine multiaddrLoop_grows ih ?_ run
          rw [show ascii "/<proto-" = ascii "/" ++ ascii "<proto-" from rfl]
          simp only [List.append_assoc]
          exact List.prefix_append_right_inj s |>.mpr (List.prefix_append ..)
        · split_ifs at run
          · exact multiaddrLoop_grows ih (slash _) run
          · obtain ⟨taken, -, run⟩ := Option.bind_eq_some_iff.mp run
            cases taken with
            | none => grind
            | some r =>
              obtain ⟨v, -, run⟩ := Option.bind_eq_some_iff.mp run
              exact multiaddrLoop_grows ih ((slash _).trans (List.prefix_append ..)) run

/-- Behind a `ws`, the bytes are written up to the code of the component, and then a slash
follows or nothing. -/
structure Misread (code : Nat) (bytes text : Bytes) : Prop where
  enough : code ≤ bytes.length
  copied : ∀ i < code, bytes[i]? = text[i]?
  next : ∀ b ∈ text[code]?, b = 0x2f

theorem Misread.of_append {bytes text val : Bytes} (split : bytes = val ++ back)
    (written : text = val ++ more) (slash : more = [] ∨ ascii "/" <+: more) :
    Misread val.length bytes text := by
  subst split written
  refine ⟨by simp, fun i inside => ?_, fun b hb => ?_⟩
  · grind
  · rw [List.getElem?_append_right le_rfl, Nat.sub_self] at hb
    rcases slash with rfl | ⟨rest, rfl⟩
    · cases hb
    · exact (Option.some.inj hb).symm

def behind (c : Component) (cs : List Component) : Bytes :=
  (format c.proto.name).encode c.value ++ cs.flatMap encode

def behindText (c : Component) (cs : List Component) : Bytes :=
  ascii c.proto.name ++ c.text ++ cs.flatMap render

theorem Component.Web.maValue_eq {w : Component} (web : w.Web) (val : Bytes) :
    maValue w.proto.name val = some (ascii "/" ++ val) := by
  rcases web with name | name
  all_goals
    rw [name]
    rfl

theorem misread_of_run {w : Component} {cs : List Component} (web : w.Web)
    (int : (w.encode ++ (c :: cs).flatMap encode).length < 2 ^ 63)
    (run : multiaddrLoop (fuel + 1) (w.encode ++ (c :: cs).flatMap encode) s =
      some (s ++ (w :: c :: cs).flatMap render)) :
    Misread c.code (behind c cs) (behindText c cs) := by
  obtain ⟨size, -⟩ := web.facts
  have bytes : (c :: cs).flatMap encode = encodeVarint c.code ++ behind c cs := by
    rw [List.flatMap_cons, encode, List.append_assoc]
    rfl
  have text : s ++ (w :: c :: cs).flatMap render =
      s ++ ascii "/" ++ ascii w.proto.name ++ (ascii "/" ++ behindText c cs) := by
    rw [List.flatMap_cons, web.render_eq, List.flatMap_cons, render, behindText]
    simp only [List.append_assoc]
  rw [bytes, List.length_append] at int
  have int' : (encodeVarint c.code ++ behind c cs).length < 2 ^ 63 := by omega
  have pos := c.code_spells.length_pos
  have code64 : (UInt64.ofNat c.code).toNat = c.code :=
    UInt64.toNat_ofNat_of_lt' c.code_spells.fits
  have read := decodeVarint_append c.code_spells (behind c cs)
  rw [web.encode_eq, multiaddrLoop_known, size, if_neg (by decide), bytes, text] at run
  by_cases beyond : (behind c cs).length < c.code
  · rw [maTake_beyond (by decide) read int' (by rwa [code64])] at run
    have stopped := List.self_eq_append_right.mp (Option.some.inj run)
    cases stopped
  · obtain ⟨val, back, split, len⟩ := exists_front (Nat.le_of_not_lt beyond)
    rw [split] at read int' run
    rw [maTake_counted (by decide) read (by omega) int' (by rw [code64, len]), Option.bind_some,
      Option.elim_some, web.maValue_eq, Option.bind_some] at run
    rw [← len]
    rcases multiaddrLoop_slash run with same | longer
    · have same := List.append_cancel_left (List.append_cancel_left same)
      exact .of_append split (same.trans (List.append_nil val).symm) (Or.inl rfl)
    · rw [List.append_assoc (s ++ ascii "/" ++ ascii w.proto.name),
        List.prefix_append_right_inj, List.append_assoc, List.prefix_append_right_inj] at longer
      obtain ⟨more, written⟩ := longer
      rw [List.append_assoc] at written
      exact .of_append split written.symm (Or.inr (List.prefix_append ..))

def codeStarts : Bytes := maProtos.filterMap fun q => (encodeVarint q.1).head?

theorem Component.start_mem (start : (encodeVarint c.code).head? = some b) : b ∈ codeStarts :=
  List.mem_filterMap.mpr ⟨_, c.mem_table, start⟩

theorem exists_varint_head (v : Nat) : ∃ b bytes, encodeVarint v = b :: bytes := by
  rw [encodeVarint, show binaryMaxVarintLen64 = 9 + 1 from rfl, putUvarint]
  split_ifs
  · exact ⟨_, _, rfl⟩
  · exact ⟨_, _, rfl⟩

theorem encodeVarint_head {v : Nat} (head : (encodeVarint v).head? = some b) (small : b < 128) :
    encodeVarint v = [b] ∧ v = b.toNat := by
  rw [encodeVarint, show binaryMaxVarintLen64 = 9 + 1 from rfl, putUvarint] at head ⊢
  split_ifs at head ⊢ with short
  · cases head
    exact ⟨rfl, (UInt8.toNat_ofNat_of_lt' (lt_trans short (by decide))).symm⟩
  · cases head
    have high : (UInt8.ofNat (v % 128 + 128)).toNat = v % 128 + 128 :=
      UInt8.toNat_ofNat_of_lt' (show v % 128 + 128 < 256 by omega)
    have small : (UInt8.ofNat (v % 128 + 128)).toNat < 128 := small
    omega

section Misreadings

variable {code : Nat} {cs : List Component} {text : Bytes}

theorem Misread.start (m : Misread code (value ++ cs.flatMap encode) text)
    (inside : value.length < code) : ∃ c cs' b, cs = c :: cs' ∧
      (encodeVarint c.code).head? = some b ∧ text[value.length]? = some b := by
  have longer := inside.trans_le m.enough
  have copied := m.copied _ inside
  rw [List.getElem?_append_right le_rfl, Nat.sub_self] at copied
  cases cs with
  | nil => grind
  | cons c cs =>
    obtain ⟨b, bytes, code_eq⟩ := exists_varint_head c.code
    refine ⟨c, cs, b, rfl, ?_, ?_⟩
    · rw [code_eq]
      rfl
    · rw [← copied, List.flatMap_cons, encode, code_eq]
      rfl

theorem not_misread (size : value.length = n) (inside : n < code) (there : text[n]? = some b)
    (other : b ∉ codeStarts) : ¬ Misread code (value ++ cs.flatMap encode) text := by
  subst size
  intro m
  obtain ⟨c, cs', b', -, start, there'⟩ := m.start inside
  rw [there] at there'
  rw [← Option.some.inj there'] at start
  exact other (c.start_mem start)

theorem Misread.counted (m : Misread code (encodeVarint value.length ++ value ++ back) text)
    (pos : 0 < code) (first : text[0]? = some b) (small : b < 128) :
    encodeVarint value.length = [b] ∧ value.length = b.toNat ∧
      ∀ i < value.length, i + 1 < code → value[i]? = text[i + 1]? := by
  have head : (encodeVarint value.length).head? = some b := by
    obtain ⟨x, bytes, length_eq⟩ := exists_varint_head value.length
    have copied := m.copied 0 pos
    rw [first, length_eq] at copied
    rw [length_eq]
    exact copied
  obtain ⟨single, len⟩ := encodeVarint_head head small
  refine ⟨single, len, fun i inside below => ?_⟩
  have copied := m.copied (i + 1) below
  rw [single, List.append_assoc, List.singleton_append, List.getElem?_cons_succ,
    List.getElem?_append_left inside] at copied
  exact copied

theorem ip4_differs (size : value.length = 4) :
    ¬ Misread 4 (value ++ back) (ascii "ip4" ++ (ascii "/" ++ valueText "ip4" value) ++ more) := by
  intro m
  obtain ⟨a₀, a₁, a₂, a₃, rfl⟩ := List.length_eq_four.mp size
  obtain rfl : a₀ = 0x69 := Option.some.inj (m.copied 0 (by decide))
  obtain rfl : a₁ = 0x70 := Option.some.inj (m.copied 1 (by decide))
  obtain rfl : a₂ = 0x34 := Option.some.inj (m.copied 2 (by decide))
  obtain rfl : a₃ = 0x2f := Option.some.inj (m.copied 3 (by decide))
  -- the text goes on with the number 105
  exact absurd (m.next 0x31 rfl) (by decide)

theorem port_differs {name : String} (port : name = "tcp" ∨ name = "udp") (size : value.length = 2)
    (big : 2 < code) : ¬ Misread code (value ++ cs.flatMap encode) (ascii name ++ more) := by
  have there : (ascii name ++ more)[2]? = some 0x70 := by
    rcases port with rfl | rfl <;> rfl
  exact not_misread size big there (by decide +kernel)

theorem ip6_differs (size : value.length = 16) :
    ¬ Misread 0x29 (value ++ cs.flatMap encode)
      (ascii "ip6" ++ (ascii "/" ++ valueText "ip6" value) ++ more) := by
  intro m
  have byte {i : Nat} (inside : i < 16) : (value ++ cs.flatMap encode)[i]? =
      some (value.getD i 0) := by
    rw [List.getElem?_append_left (by omega), getElem?_eq_getD (by omega)]
  have first : value.getD 0 0 = 0x69 :=
    Option.some.inj ((byte (by decide)).symm.trans (m.copied 0 (by decide)))
  have sixth : value.getD 5 0 = hexDigits.getD ((value.getD 0 0).toNat % 16) 0 :=
    Option.some.inj ((byte (by decide)).symm.trans (m.copied 5 (by decide)))
  have there : (ascii "ip6" ++ (ascii "/" ++ valueText "ip6" value) ++ more)[16]? =
      some (hexDigits.getD ((value.getD 5 0).toNat / 16) 0) := rfl
  rw [sixth, first] at there
  exact not_misread size (by decide) there (by decide +kernel) m

theorem periodic {α : Type} {f : Nat → α} {bound : Nat}
    (step : ∀ j, n + j < bound → f (n + j) = f j) {j : Nat} (inside : j < bound) :
    f j = f (j % n) := by
  have shifted (k : Nat) : j % n + n * k < bound → f (j % n + n * k) = f (j % n) := by
    induction k with
    | zero => exact fun _ => rfl
    | succ k ih => grind
  have whole := shifted (j / n)
  rw [Nat.mod_add_div] at whole
  exact whole inside

theorem name_differs {name : Bytes} {x : UInt8} (first : name[0]? = some 0x64)
    (code_le : code ≤ 100) (longer : name.length < code)
    (last : name[(code - (name.length + 1)) % name.length + 1]? = some x) (other : x ≠ 0x2f) :
    ¬ Misread code (encodeVarint value.length ++ value ++ back)
      (name ++ (ascii "/" ++ value) ++ more) := by
  intro m
  have some_ : 0 < name.length := (List.getElem?_eq_some_iff.mp first).1
  have inName {i : Nat} (inside : i < name.length) :
      (name ++ (ascii "/" ++ value) ++ more)[i]? = name[i]? := by
    rw [List.append_assoc, List.getElem?_append_left inside]
  have inValue {i : Nat} (inside : i < value.length) :
      (name ++ (ascii "/" ++ value) ++ more)[name.length + i + 1]? = value[i]? := by
    rw [List.append_assoc, List.getElem?_append_right (by omega),
      ← List.getElem?_append_left inside]
    have place : name.length + i + 1 - name.length = i + 1 := by omega
    rw [place]
    rfl
  obtain ⟨-, len, copied⟩ := m.counted (by omega) ((inName some_).trans first) (by decide)
  have len : value.length = 100 := len
  have step (j : Nat) (below : name.length + j < code - 1) :
      value[name.length + j]? = value[j]? :=
    (copied _ (by omega) (by omega)).trans (inValue (by omega))
  have place : code = name.length + (code - (name.length + 1)) + 1 := by omega
  have final : value[code - (name.length + 1)]? = some x := by
    have lastPlace := (List.getElem?_eq_some_iff.mp last).1
    rw [periodic step (by omega), copied _ (by omega) (by omega), inName lastPlace, last]
  refine other (m.next x ?_)
  rw [place, inValue (by omega)]
  exact final

def hexHigh (b : UInt8) : UInt8 := hexDigits.getD (b.toNat / 16) 0

def hexLow (b : UInt8) : UInt8 := hexDigits.getD (b.toNat % 16) 0

theorem hex_places (value : Bytes) (i : Nat) :
    (value.flatMap hexByte)[2 * i]? = value[i]?.map hexHigh ∧
      (value.flatMap hexByte)[2 * i + 1]? = value[i]?.map hexLow := by
  induction value generalizing i with
  | nil => exact ⟨rfl, rfl⟩
  | cons b value ih =>
    cases i with
    | zero => exact ⟨rfl, rfl⟩
    | succ i => exact ih i

theorem Component.encode_dns6 (start : (encodeVarint c.code).head? = some 0x37) :
    c.encode = 0x37 :: (encodeVarint c.value.length ++ c.value) := by
  obtain ⟨single, code_eq⟩ := encodeVarint_head start (by decide)
  have known := c.known
  rw [code_eq] at known
  rw [encode, single, ← Option.some.inj known]
  rfl

theorem getElem?_of_written {front : Bytes} (written : front <+: text) {i : Nat}
    (there : front[i]? = some b) : text[i]? = some b := by
  obtain ⟨more, rfl⟩ := written
  rw [List.getElem?_append_left (List.getElem?_eq_some_iff.mp there).1, there]

theorem hash_differs (written : ascii "certhash/" ++ value.flatMap hexByte <+: text) :
    ¬ Misread 0x01d2 (encodeVarint value.length ++ value ++ cs.flatMap encode) text := by
  intro m
  obtain ⟨single, len, copied⟩ :=
    m.counted (by decide) (getElem?_of_written written (b := 0x63) rfl) (by decide)
  have len : value.length = 99 := len
  have high {i : Nat} {b : UInt8} (byte : value[i]? = some b) :
      text[2 * i + 9]? = some (hexHigh b) := by
    refine getElem?_of_written written ((hex_places value i).1.trans ?_)
    rw [byte, Option.map_some]
  have low {i : Nat} {b : UInt8} (byte : value[i]? = some b) :
      text[2 * i + 10]? = some (hexLow b) := by
    refine getElem?_of_written written ((hex_places value i).2.trans ?_)
    rw [byte, Option.map_some]
  have byte {i : Nat} {b : UInt8} (there : text[i + 1]? = some b) (inside : i < 99) :
      value[i]? = some b :=
    (copied i (by omega) (by omega)).trans there
  have b₂ : value[2]? = some 0x74 := byte (getElem?_of_written written rfl) (by decide)
  have b₅ : value[5]? = some 0x73 := byte (getElem?_of_written written rfl) (by decide)
  have b₁₂ : value[12]? = some 0x37 := byte (high b₂) (by decide)
  have b₁₈ : value[18]? = some 0x37 := byte (high b₅) (by decide)
  have b₁₉ : value[19]? = some 0x33 := byte (low b₅) (by decide)
  have b₃₂ : value[32]? = some 0x33 := byte (high b₁₂) (by decide)
  have b₄₅ : value[45]? = some 0x37 := byte (low b₁₈) (by decide)
  have b₄₆ : value[46]? = some 0x33 := byte (high b₁₉) (by decide)
  have b₇₂ : value[72]? = some 0x33 := byte (high b₃₂) (by decide)
  have front : (encodeVarint value.length ++ value).length = 100 := by
    rw [single, List.length_append, len]
    rfl
  obtain ⟨c, cs', b, rfl, start, there⟩ := m.start (by omega)
  rw [front, show text[100]? = some 0x37 from low b₄₅] at there
  cases there
  have copied' := m.copied 101 (by decide)
  rw [List.flatMap_cons, c.encode_dns6 start] at m copied'
  obtain ⟨x, bytes, length_eq⟩ := exists_varint_head c.value.length
  rw [List.getElem?_append_right (by omega), front, show text[101]? = some 0x33 from high b₄₆,
    length_eq] at copied'
  have head : (encodeVarint c.value.length).head? = some 0x33 := by
    rw [length_eq]
    exact copied'
  obtain ⟨single', len'⟩ := encodeVarint_head head (by decide)
  have len' : c.value.length = 51 := len'
  rw [← List.append_assoc] at m
  refine not_misread ?_ (by decide) (high b₇₂) (by decide +kernel) m
  rw [List.length_append, front, List.length_cons, List.length_append, single', len']
  rfl

/-- How the text of a peer id starts that repeats itself from its fourth byte on. -/
def echoDigits : List Nat :=
  [9, 27, 14, 23, 56, 1, 16, 34, 19, 14, 30, 34, 13, 3, 47, 0, 57, 4, 47, 35, 36, 28, 1, 56, 57,
   33, 11, 23, 41, 52, 53, 14, 39, 54, 42, 28, 44, 23, 35, 49, 33, 17, 23, 48, 1, 57, 31, 26, 41,
   38, 38, 25, 23, 10, 44, 24, 40, 26, 50, 18, 30, 49, 16, 33, 9, 11, 29, 17, 4, 36, 56, 11, 32,
   42, 1, 39, 10, 46, 54, 3, 6, 16, 46, 46, 9, 16, 1, 23, 14, 11, 19, 30, 47, 56, 45, 28, 10, 40,
   18, 50, 22, 9, 11, 44, 4, 53, 54, 55, 4, 33]

def echo : Bytes := spell base58Alphabet echoDigits

def echoing : Bytes := ascii "2p/" ++ echo

theorem echoDigits_small : ∀ d ∈ echoDigits, d < 58 := by
  decide

structure Fixes (known digits : Nat) : Prop where
  pos : 0 < known
  le : known ≤ 112
  lower : number 58 (echoDigits.take digits) * 58 ^ (153 - digits) ≤
    number 256 ((echoing.take known).map UInt8.toNat) * 256 ^ (112 - known)
  upper : (number 256 ((echoing.take known).map UInt8.toNat) + 1) * 256 ^ (112 - known) ≤
    (number 58 (echoDigits.take digits) + 1) * 58 ^ (153 - digits)

theorem leads_take {l : List Nat} {d : Nat} (head : l.head? = some d) (nonzero : d ≠ 0) (n : Nat) :
    Leads (l.take n) := by
  intro x hx
  rw [List.head?_take, head] at hx
  split_ifs at hx
  · cases hx
  · rwa [← Option.some.inj hx]

theorem echo_starts {known digits : Nat} (len : value.length = 112)
    (start : echoing.take known <+: value) (fixes : Fixes known digits) :
    echo.take digits <+: spell base58Alphabet (rebase 256 58 (value.map UInt8.toNat)) := by
  obtain ⟨back, rfl⟩ := start
  have size : (echoing.take known).length = known :=
    List.length_take_of_le (fixes.le.trans (show 112 ≤ echoing.length by decide +kernel))
  have left : (back.map UInt8.toNat).length = 112 - known := by grind
  have first : Leads ((echoing.take known).map UInt8.toNat) := by
    rw [List.map_take]
    exact leads_take (d := 0x32) (by decide +kernel) (by decide) known
  have some_ : (echoing.take known).map UInt8.toNat ≠ [] := by
    intro none
    have none := congrArg List.length none
    rw [List.length_map, size] at none
    exact absurd none fixes.pos.ne'
  have lead : echoDigits.take digits <+:
      rebase 256 58 ((echoing.take known).map UInt8.toNat ++ back.map UInt8.toNat) := by
    refine lead_of_front (k := 153 - digits) (by decide) (by decide) first some_
      (bytes_small back) (leads_take (d := 9) (by decide +kernel) (by decide) digits)
      (fun d hd => echoDigits_small d (List.mem_of_mem_take hd)) ?_ ?_
    · rw [left]
      exact fixes.lower
    · rw [left]
      exact fixes.upper
  rw [echo, List.map_append, spell, ← List.map_take]
  exact lead.map _

instance (known digits : Nat) : Decidable (Fixes known digits) :=
  decidable_of_iff (_ ∧ _ ∧ _ ∧ _)
    ⟨fun h => ⟨h.1, h.2.1, h.2.2.1, h.2.2.2⟩, fun h => ⟨h.pos, h.le, h.lower, h.upper⟩⟩

theorem echo_rounds : Fixes 3 3 ∧ Fixes 6 8 ∧ Fixes 11 14 ∧ Fixes 17 22 ∧ Fixes 25 33 ∧
    Fixes 36 49 ∧ Fixes 52 70 ∧ Fixes 73 99 ∧ Fixes 102 110 := by
  decide +kernel

theorem peer_differs
    (written : ascii "p2p/" ++
      spell base58Alphabet (rebase 256 58 (value.map UInt8.toNat)) <+: text) :
    ¬ Misread 0x01a5 (encodeVarint value.length ++ value ++ cs.flatMap encode) text := by
  intro m
  obtain ⟨single, len, copied⟩ :=
    m.counted (by decide) (getElem?_of_written written (b := 0x70) rfl) (by decide)
  have len : value.length = 112 := len
  have text_echo {digits : Nat} (lead : echo.take digits <+:
      spell base58Alphabet (rebase 256 58 (value.map UInt8.toNat))) :
      ascii "p2p/" ++ echo.take digits <+: text :=
    (List.prefix_append_right_inj _ |>.mpr lead).trans written
  have grow {digits : Nat} (le : digits ≤ 109) (lead : echo.take digits <+:
      spell base58Alphabet (rebase 256 58 (value.map UInt8.toNat))) :
      echoing.take (digits + 3) <+: value := by
    refine List.prefix_iff_getElem?.mpr fun i inside => ?_
    rw [copied i ?_ ?_]
    · exact getElem?_of_written (text_echo lead) (List.getElem?_eq_getElem inside)
    all_goals
      rw [List.length_take] at inside
      omega
  have round {known digits : Nat} (start : echoing.take known <+: value)
      (fixes : Fixes known digits) (le : digits ≤ 109) : echoing.take (digits + 3) <+: value :=
    grow le (echo_starts len start fixes)
  obtain ⟨f₃, f₆, f₁₁, f₁₇, f₂₅, f₃₆, f₅₂, f₇₃, f₁₀₂⟩ := echo_rounds
  have known₃ : echoing.take 3 <+: value := grow (Nat.zero_le 109) List.nil_prefix
  have known₆ := round known₃ f₃ (by decide)
  have known₁₁ := round known₆ f₆ (by decide)
  have known₁₇ := round known₁₁ f₁₁ (by decide)
  have known₂₅ := round known₁₇ f₁₇ (by decide)
  have known₃₆ := round known₂₅ f₂₅ (by decide)
  have known₅₂ := round known₃₆ f₃₆ (by decide)
  have known₇₃ := round known₅₂ f₅₂ (by decide)
  have known₁₀₂ := round known₇₃ f₇₃ (by decide)
  have lead := echo_starts len known₁₀₂ f₁₀₂
  have there : text[113]? = some 0x61 :=
    getElem?_of_written (text_echo lead) (by decide +kernel)
  refine not_misread ?_ (by decide) there (by decide +kernel) m
  rw [single, List.length_append, len]
  rfl

end Misreadings

theorem table_names : ∀ q ∈ maProtos, 0 < q.1 ∧ ∃ b ∈ ascii q.2.name,
    (ascii q.2.name)[0]? = some b ∧ b ∉ codeStarts := by
  decide +kernel

theorem table_values : ∀ q ∈ maProtos, format q.2.name = .bare ∨
    (q.1, q.2.name) ∈ [(0x04, "ip4"), (0x06, "tcp"), (0x29, "ip6"), (0x35, "dns"),
      (0x36, "dns4"), (0x37, "dns6"), (0x0111, "udp"), (0x01a5, "p2p"), (0x01d2, "certhash")] := by
  decide +kernel

theorem bare_differs (bare : format c.proto.name = .bare) (cs : List Component) :
    ¬ Misread c.code (behind c cs) (behindText c cs) := by
  obtain ⟨pos, b, mem, first, other⟩ := table_names _ c.mem_table
  have there : (behindText c cs)[0]? = some b := by grind [behindText]
  rw [behind, bare, value_of_bare bare]
  exact not_misread rfl pos there other

theorem never_misread (c : Component) (cs : List Component) :
    ¬ Misread c.code (behind c cs) (behindText c cs) := by
  have admitted := c.admitted
  rcases table_values _ c.mem_table with bare | valued
  · exact bare_differs bare cs
  · simp only [List.mem_cons, Prod.mk.injEq, List.not_mem_nil, or_false] at valued
    rw [behind, behindText, Component.text]
    rcases valued with ⟨code, name⟩ | ⟨code, name⟩ | ⟨code, name⟩ | ⟨code, name⟩ | ⟨code, name⟩ |
      ⟨code, name⟩ | ⟨code, name⟩ | ⟨code, name⟩ | ⟨code, name⟩
    all_goals rw [name] at admitted ⊢
    all_goals rw [code]
    · exact ip4_differs admitted
    · rw [List.append_assoc]
      exact port_differs (Or.inl rfl) admitted (by decide)
    · exact ip6_differs admitted
    · exact name_differs (x := 0x73) rfl (by decide) (by decide) rfl (by decide)
    · exact name_differs (x := 0x73) rfl (by decide) (by decide) rfl (by decide)
    · exact name_differs (x := 0x36) rfl (by decide) (by decide) rfl (by decide)
    · rw [List.append_assoc]
      exact port_differs (Or.inr rfl) admitted (by decide)
    · exact peer_differs (List.prefix_append ..)
    · exact hash_differs (List.prefix_append ..)

section Addresses

variable {front : List Component} {w : Component}

theorem multiaddrString_web_last (table : ∀ c ∈ front, ¬ c.Web) (web : w.Web)
    (int : ((front ++ [w]).flatMap encode).length < 2 ^ 63) :
    multiaddrString ((front ++ [w]).flatMap encode) = some ((front ++ [w]).flatMap render) := by
  rw [List.flatMap_append, List.flatMap_cons, List.flatMap_nil] at int ⊢
  obtain ⟨left, run⟩ := multiaddrString_web table int
  rw [run, List.append_nil, multiaddrLoop_web_last left _ web, List.flatMap_append,
    List.flatMap_singleton]

theorem multiaddrString_web_before {cs : List Component} (table : ∀ c ∈ front, ¬ c.Web)
    (web : w.Web) (int : ((front ++ w :: c :: cs).flatMap encode).length < 2 ^ 63) :
    multiaddrString ((front ++ w :: c :: cs).flatMap encode) ≠
      some ((front ++ w :: c :: cs).flatMap render) := by
  intro written
  rw [List.flatMap_append, List.flatMap_cons] at int
  rw [List.flatMap_append, List.flatMap_cons, List.flatMap_append] at written
  obtain ⟨left, run⟩ := multiaddrString_web table int
  rw [run] at written
  rw [List.length_append] at int
  exact never_misread c cs (misread_of_run web (by omega) written)

end Addresses

theorem multiaddrString_single (c : Component) (int : c.encode.length < 2 ^ 63) :
    multiaddrString c.encode = some c.render := by
  have bytes : [c].flatMap encode = c.encode := List.flatMap_singleton ..
  have text : [c].flatMap render = c.render := List.flatMap_singleton ..
  rw [← bytes] at int ⊢
  rw [← text]
  by_cases web : c.Web
  · exact multiaddrString_web_last (List.forall_mem_nil _) web int
  · exact multiaddrString_of_table (by simpa using web) int

/-- A well-formed address is written component by component, each as it would be alone,
unless a `ws` or `wss` stands before another component. -/
theorem multiaddrString_components_iff (cs : List Component)
    (int : (cs.flatMap encode).length < 2 ^ 63) :
    (∀ c ∈ cs, multiaddrString c.encode = some c.render) ∧
      (multiaddrString (cs.flatMap encode) = some (cs.flatMap render) ↔
        ∀ c ∈ cs.dropLast, ¬ c.Web) := by
  refine ⟨fun c hc => multiaddrString_single c ?_, ?_⟩
  · obtain ⟨before, after, rfl⟩ := List.append_of_mem hc
    rw [List.flatMap_append, List.flatMap_cons, List.length_append, List.length_append] at int
    omega
  · rcases exists_web cs with table | ⟨front, w, back, rfl, table, web⟩
    · exact iff_of_true (multiaddrString_of_table table int)
        fun c hc => table c (List.mem_of_mem_dropLast hc)
    · cases back with
      | nil =>
        rw [List.dropLast_concat]
        exact iff_of_true (multiaddrString_web_last table web int) table
      | cons c cs =>
        refine iff_of_false (multiaddrString_web_before table web int) fun none => none w ?_ web
        rw [List.dropLast_append_of_ne_nil (List.cons_ne_nil _ _), List.dropLast_cons_cons]
        simp

def webRelay : List Component :=
  [⟨0x04, ⟨"ip4", 4⟩, [127, 0, 0, 1], rfl, rfl⟩, ⟨0x06, ⟨"tcp", 2⟩, [0x1f, 0x90], rfl, rfl⟩,
    ⟨0x01dd, ⟨"ws", -1⟩, [], rfl, rfl⟩, ⟨0x01a5, ⟨"p2p", -1⟩, [1, 2], rfl, trivial⟩]

/-- Without the peer, the socket is last and the text is right. -/
theorem multiaddrString_socket_last :
    multiaddrString ((webRelay.take 3).flatMap encode) =
        some ((webRelay.take 3).flatMap render) ∧
      (webRelay.take 3).flatMap render = ascii "/ip4/127.0.0.1/tcp/8080/ws" :=
  ⟨(multiaddrString_components_iff (webRelay.take 3) (by decide +kernel)).2.mpr
    (by decide +kernel), by decide +kernel⟩

/-- The peer behind the socket is lost. -/
theorem multiaddrString_peer_lost :
    (webRelay.flatMap encode).length < 2 ^ 63 ∧
      webRelay.flatMap render = ascii "/ip4/127.0.0.1/tcp/8080/ws/p2p/5T" ∧
      multiaddrString (webRelay.flatMap encode) = some (ascii "/ip4/127.0.0.1/tcp/8080/ws") ∧
      multiaddrString (webRelay.flatMap encode) ≠ some (webRelay.flatMap render) := by
  decide +kernel

end Relayhub.Multiaddr
