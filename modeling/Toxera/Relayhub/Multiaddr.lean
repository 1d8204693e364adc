import Toxera.Relayhub.Base58
import Toxera.Relayhub.CircuitRoundTrip

/-!
# Texts of well-formed addresses

An address in the multiaddr format is a sequence of components.
-/

namespace Relayhub.Multiaddr

open BaseEncoding Radix

inductive Format
  | fixed (size : Nat)
  | counted
  | bare
  deriving DecidableEq

def format (name : String) : Format :=
  if name = "ip4" then .fixed 4
  else if name = "tcp" ∨ name = "udp" then .fixed 2
  else if name = "ip6" then .fixed 16
  else if name ∈ ["dns", "dns4", "dns6", "p2p", "certhash"] then .counted
  else .bare

def Format.Admits : Format → Bytes → Prop
  | fixed size, value => value.length = size
  | counted, _ => True
  | bare, value => value = []

def Format.encode : Format → Bytes → Bytes
  | counted, value => encodeVarint value.length ++ value
  | fixed _, value | bare, value => value

structure Component where
  code : Nat
  proto : MaProto
  value : Bytes
  known : maProtos.lookup code = some proto
  admitted : (format proto.name).Admits value

namespace Component

def encode (c : Component) : Bytes :=
  encodeVarint c.code ++ (format c.proto.name).encode c.value

/-- The text of a value: addresses in groups, ports as numbers, peer ids in base 58, hashes
in hexadecimal and names as they are. -/
def valueText (name : String) (value : Bytes) : Bytes :=
  if name = "ip4" then (ascii ".").intercalate (value.map fun b => decimal b.toNat)
  else if name = "ip6" then
    (ascii ":").intercalate ((List.range 8).map fun i =>
      hexByte (value.getD (2 * i) 0) ++ hexByte (value.getD (2 * i + 1) 0))
  else if name = "tcp" ∨ name = "udp" then decimal (number 256 (value.map UInt8.toNat))
  else if name = "p2p" then spell base58Alphabet (rebase 256 58 (value.map UInt8.toNat))
  else if name = "certhash" then value.flatMap hexByte
  else value

def text (c : Component) : Bytes :=
  if format c.proto.name = .bare then [] else ascii "/" ++ valueText c.proto.name c.value

def render (c : Component) : Bytes := ascii "/" ++ ascii c.proto.name ++ c.text

/-- The protocols for which the table has a length and the format has no value. -/
def Web (c : Component) : Prop := c.proto.name = "ws" ∨ c.proto.name = "wss"

instance (c : Component) : Decidable c.Web :=
  inferInstanceAs (Decidable (c.proto.name = "ws" ∨ c.proto.name = "wss"))

end Component

theorem table_codes : ∀ q ∈ maProtos, q.1 < 2 ^ 14 := by
  decide +kernel

theorem table_sizes : ∀ q ∈ maProtos, (q.2.name = "ws" ∨ q.2.name = "wss") ∧ q.2.size = -1 ∧
      format q.2.name = .bare ∨
    ¬ (q.2.name = "ws" ∨ q.2.name = "wss") ∧
      ((q.2.size = 0 ∧ format q.2.name = .bare) ∨
        (q.2.size = -1 ∧ format q.2.name = .counted) ∨
        (0 < q.2.size ∧ format q.2.name = .fixed q.2.size.toNat)) := by
  decide +kernel

namespace Component

variable (c : Component)

theorem mem_table : (c.code, c.proto) ∈ maProtos := by
  obtain ⟨front, back, split, -⟩ := List.lookup_eq_some_iff.mp c.known
  rw [split]
  simp

theorem code_spells : Varint.Spells (encodeVarint c.code) c.code :=
  encodeVarint_spells (lt_trans (table_codes _ c.mem_table) (by decide))

variable {c} in
theorem value_of_bare (bare : format c.proto.name = .bare) : c.value = [] := by
  have admitted := c.admitted
  rwa [bare] at admitted

theorem port_number (hi lo : UInt8) :
    hi.toNat <<< 8 ||| lo.toNat = number 256 [hi.toNat, lo.toNat] := by
  rw [← Nat.shiftLeft_add_eq_or_of_lt (show lo.toNat < 2 ^ 8 from lo.toNat_lt),
    Nat.shiftLeft_eq, number_eq_foldl]
  simp [Nat.mul_comm]

theorem getElem?_eq_getD {value : Bytes} {i : Nat} (inside : i < value.length) :
    value[i]? = some (value.getD i 0) := by
  rw [List.getElem?_eq_getElem inside, List.getD_eq_getElem _ _ inside]

theorem maValue_eq :
    maValue c.proto.name c.value = some (ascii "/" ++ valueText c.proto.name c.value) := by
  have admitted := c.admitted
  unfold maValue valueText
  split_ifs with ip4 ip6 port p2p hash
  · rw [ip4] at admitted
    obtain ⟨a₀, a₁, a₂, a₃, value⟩ := List.length_eq_four.mp admitted
    rw [value]
    rfl
  · have size : c.value.length = 16 := by
      rw [ip6] at admitted
      exact admitted
    rw [mapM_eq_map (g := fun i =>
      hexByte (c.value.getD (2 * i) 0) ++ hexByte (c.value.getD (2 * i + 1) 0))]
    · rfl
    · grind [hexGroup]
  · have size : c.value.length = 2 := by
      rcases port with port | port
      all_goals
        rw [port] at admitted
        exact admitted
    obtain ⟨hi, lo, value⟩ := List.length_eq_two.mp size
    rw [value, List.map_cons, List.map_cons, List.map_nil, ← port_number]
    rfl
  · rw [base58Encode_eq_spell]
    rfl
  · rfl
  · rfl

end Component

namespace Component

variable (c : Component) (fuel : Nat) (rest s : Bytes)

theorem multiaddrLoop_known :
    multiaddrLoop (fuel + 1) (encodeVarint c.code ++ rest) s =
      if c.proto.size = 0 then multiaddrLoop fuel rest (s ++ ascii "/" ++ ascii c.proto.name)
      else (maTake c.proto.size rest).bind fun taken =>
        taken.elim (some (s ++ ascii "/" ++ ascii c.proto.name)) fun r =>
          (maValue c.proto.name r.1).bind fun v =>
            multiaddrLoop fuel r.2 (s ++ ascii "/" ++ ascii c.proto.name ++ v) := by
  rw [multiaddrLoop_code c.code_spells, c.known]
  simp only
  congr 2
  funext taken
  cases taken <;> rfl

variable {c}

theorem maTake_value (table : ¬ c.Web) (valued : format c.proto.name ≠ .bare)
    (int : ((format c.proto.name).encode c.value ++ rest).length < 2 ^ 63) :
    c.proto.size ≠ 0 ∧ maTake c.proto.size ((format c.proto.name).encode c.value ++ rest) =
      some (some (c.value, rest)) := by
  rcases table_sizes _ c.mem_table with ⟨web, -⟩ | ⟨-, ⟨-, bare⟩ | ⟨size, counted⟩ | ⟨size, fixed⟩⟩
  · exact absurd web table
  · exact absurd bare valued
  · rw [counted, Format.encode, List.append_assoc] at int ⊢
    have fits : c.value.length < 2 ^ 64 := by grind
    have spells := encodeVarint_spells fits
    have pos := spells.length_pos
    dsimp only at size
    refine ⟨by omega, maTake_counted (by omega) (decodeVarint_append spells _) (by omega) int ?_⟩
    exact (UInt64.toNat_ofNat_of_lt' fits).symm
  · have len : c.value.length = c.proto.size.toNat := by
      have admitted := c.admitted
      rwa [fixed] at admitted
    dsimp only at size
    rw [fixed, Format.encode]
    exact ⟨by omega, maTake_fixed size (by omega) rest⟩

theorem multiaddrLoop_component (table : ¬ c.Web) (int : (c.encode ++ rest).length < 2 ^ 63) :
    multiaddrLoop (fuel + 1) (c.encode ++ rest) s = multiaddrLoop fuel rest (s ++ c.render) := by
  rw [encode, List.append_assoc] at int ⊢
  rw [multiaddrLoop_known, render, text]
  by_cases bare : format c.proto.name = .bare
  · have size : c.proto.size = 0 := by
      rcases table_sizes _ c.mem_table with ⟨web, -⟩ | ⟨-, size⟩
      · exact absurd web table
      · simpa [bare] using size
    rw [if_pos size, bare, value_of_bare bare, if_pos rfl, List.append_nil, List.append_assoc]
    rfl
  · rw [List.length_append] at int
    obtain ⟨size, taken⟩ := maTake_value rest table bare (by omega)
    rw [if_neg size, taken, Option.bind_some, Option.elim_some, maValue_eq, Option.bind_some,
      if_neg bare]
    simp only [List.append_assoc]

theorem encode_length_pos : 0 < c.encode.length := by
  have pos := c.code_spells.length_pos
  rw [encode, List.length_append]
  omega

theorem Web.facts (web : c.Web) :
    c.proto.size = -1 ∧ format c.proto.name = .bare ∧ c.value = [] := by
  rcases table_sizes _ c.mem_table with ⟨-, size, bare⟩ | ⟨other, -⟩
  · exact ⟨size, bare, value_of_bare bare⟩
  · exact absurd web other

theorem Web.encode_eq (web : c.Web) : c.encode = encodeVarint c.code := by
  obtain ⟨-, bare, none⟩ := web.facts
  rw [encode, bare, none]
  exact List.append_nil _

theorem Web.render_eq (web : c.Web) : c.render = ascii "/" ++ ascii c.proto.name := by
  rw [render, text, if_pos web.facts.2.1, List.append_nil]

theorem multiaddrLoop_web_last (web : c.Web) :
    multiaddrLoop (fuel + 1) c.encode s = some (s ++ c.render) := by
  obtain ⟨size, -⟩ := web.facts
  rw [web.encode_eq, web.render_eq, ← List.append_nil (encodeVarint c.code), multiaddrLoop_known,
    size]
  exact congrArg some (List.append_assoc ..)

end Component

section Sequences

open Component

variable {fuel : Nat} {rest : Bytes} {cs : List Component}

theorem multiaddrLoop_components (table : ∀ c ∈ cs, ¬ c.Web) (s : Bytes)
    (int : (cs.flatMap encode ++ rest).length < 2 ^ 63)
    (enough : (cs.flatMap encode ++ rest).length < fuel) :
    ∃ left, rest.length < left ∧ multiaddrLoop fuel (cs.flatMap encode ++ rest) s =
      multiaddrLoop left rest (s ++ cs.flatMap render) := by
  induction cs generalizing fuel s with
  | nil => exact ⟨fuel, enough, congrArg _ (List.append_nil s).symm⟩
  | cons c cs ih =>
    rw [List.flatMap_cons, List.append_assoc] at int enough ⊢
    have pos := c.encode_length_pos
    obtain ⟨fuel, rfl⟩ := Nat.exists_eq_succ_of_ne_zero (Nat.ne_zero_of_lt enough)
    rw [multiaddrLoop_component fuel _ s (table c List.mem_cons_self) int]
    rw [List.length_append] at int enough
    have shorter : (cs.flatMap encode ++ rest).length < fuel := by omega
    obtain ⟨left, enough', run⟩ := ih (fun c hc => table c (List.mem_cons_of_mem _ hc))
      (s ++ c.render) (by omega) shorter
    exact ⟨left, enough', by rw [run, List.flatMap_cons, List.append_assoc]⟩

theorem exists_web (cs : List Component) : (∀ c ∈ cs, ¬ c.Web) ∨
    ∃ front w back, cs = front ++ w :: back ∧ (∀ c ∈ front, ¬ c.Web) ∧ w.Web := by
  induction cs with
  | nil => exact Or.inl (by simp)
  | cons c cs ih =>
    by_cases web : c.Web
    · exact Or.inr ⟨[], c, cs, rfl, by simp, web⟩
    · rcases ih with none | ⟨front, w, back, rfl, none, web'⟩
      · exact Or.inl (by simpa [web] using none)
      · grind

theorem multiaddrString_of_table (table : ∀ c ∈ cs, ¬ c.Web)
    (int : (cs.flatMap encode).length < 2 ^ 63) :
    multiaddrString (cs.flatMap encode) = some (cs.flatMap render) := by
  rw [← List.append_nil (cs.flatMap encode)] at int
  obtain ⟨left, enough, run⟩ := multiaddrLoop_components table [] int (Nat.lt_succ_self _)
  obtain ⟨left, rfl⟩ := Nat.exists_eq_succ_of_ne_zero (Nat.ne_zero_of_lt enough)
  rw [List.append_nil] at run
  rw [multiaddrString, run, multiaddrLoop]
  rfl

theorem multiaddrString_web {front : List Component} {w : Component} {back : Bytes}
    (table : ∀ c ∈ front, ¬ c.Web)
    (int : (front.flatMap encode ++ (w.encode ++ back)).length < 2 ^ 63) :
    ∃ left, multiaddrString (front.flatMap encode ++ (w.encode ++ back)) =
      multiaddrLoop (left + 1) (w.encode ++ back) (front.flatMap render) := by
  obtain ⟨left, enough, run⟩ := multiaddrLoop_components table [] int (Nat.lt_succ_self _)
  obtain ⟨left, rfl⟩ := Nat.exists_eq_succ_of_ne_zero (Nat.ne_zero_of_lt enough)
  exact ⟨left, run⟩

end Sequences

end Relayhub.Multiaddr
