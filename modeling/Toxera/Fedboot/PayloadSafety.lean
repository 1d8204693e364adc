import Toxera.Fedboot.AddrMessages
import Toxera.Lib.Allocations

/-!
# What a payload makes its readers allocate

`btcReadVarInt`, `btcReadVarStr`, `btcParseVersionPubkey` and `parseAddrMsg` of
`fedboot/bitcoin_bs.go` once more, with the slices and strings that they allocate and with
the panics of `make` and of slice expressions.
-/

namespace Fedboot

open AddrTexts Allocations BaseEncoding Fedkey Radix

variable {l width : Nat} {r rest : Bytes}

namespace Measured

def readNumber (width : Nat) (r : Bytes) : Alloc (Option (Nat × Bytes)) := do
  make width
  return Fedboot.readNumber width r

def btcReadVarInt : Bytes → Alloc (Option (Nat × Bytes))
  | [] => return none
  | b :: r =>
    if b = 0xFD then readNumber 2 r
    else if b = 0xFE then readNumber 4 r
    else if b = 0xFF then readNumber 8 r
    else return some (b.toNat, r)

def readStr (l : Nat) (r : Bytes) : Alloc (Option Bytes) := do
  make l
  match readFull l r with
  | none => return none
  | some (s, _) =>
    let s ← text s
    return some s

def btcReadVarStr (r : Bytes) : Alloc (Option Bytes) := do
  match ← btcReadVarInt r with
  | none => return none
  | some (l, r) => readStr l r

def pubkeyOf (ua : Bytes) : Alloc Bytes :=
  match index ua (ascii "pubkey=") with
  | none => return []
  | some idx => do
    let p ← sub ua (idx + 7) ua.length
    let stop := (p.idxOf? slash).getD p.length
    sub p 0 (if 128 ≤ stop then 128 else stop)

def btcParseVersionPubkey (payload : Bytes) : Alloc Bytes := do
  match ← btcReadVarStr (payload.drop 80) with
  | none => return []
  | some ua => pubkeyOf ua

def recordText (buf : Bytes) : Alloc Bytes := do
  let ip ← sub buf 8 24
  let port ← sub buf 24 26
  let host ← text (ipText ip)
  let number ← text (decimals 1 (bigEndian16 port))
  text (joinHostPort host number)

def stringSize : Nat := 16

def parseAddrLoop : Nat → Bytes → List Bytes → Nat → Alloc (List Bytes)
  | 0, _, addrs, _ => return addrs
  | count + 1, r, addrs, cap => do
    make 30
    match readFull 30 r with
    | none => return addrs
    | some (buf, r) =>
      let addr ← recordText buf
      let cap ← grow stringSize addrs.length cap
      let addrs := addrs ++ [addr]
      if 1000 ≤ addrs.length then return addrs else parseAddrLoop count r addrs cap

def parseAddrMsg (payload : Bytes) : Alloc (List Bytes) := do
  match ← btcReadVarInt payload with
  | none => return []
  | some (count, r) => if count = 0 then return [] else parseAddrLoop count r [] 0

end Measured

/-- The four readers return, within the given number of bytes for each byte of the payload. -/
structure Safe (c : Nat) (payload : Bytes) : Prop where
  varInt : Within (Measured.btcReadVarInt payload) (btcReadVarInt payload) (c * payload.length)
  varStr : Within (Measured.btcReadVarStr payload) (btcReadVarStr payload) (c * payload.length)
  version : Within (Measured.btcParseVersionPubkey payload) (btcParseVersionPubkey payload)
    (c * payload.length)
  addrs : Within (Measured.parseAddrMsg payload) (parseAddrMsg payload) (c * payload.length)

def markerWidth : Bytes → Nat
  | [] => 0
  | b :: _ => if b = 0xFD then 2 else if b = 0xFE then 4 else if b = 0xFF then 8 else 0

def Modest (bound : Nat) (r : Bytes) : Prop :=
  ∀ announced ∈ btcReadVarInt r,
    announced.1 ≤ maxInt ∧ markerWidth r + announced.1 ≤ bound

instance (bound : Nat) (r : Bytes) : Decidable (Modest bound r) :=
  inferInstanceAs (Decidable (∀ announced ∈ btcReadVarInt r, _ ∧ _))

theorem takes_readNumber (small : width ≤ 8) (r : Bytes) :
    Takes (Measured.readNumber width r) (readNumber width r) width :=
  (Takes.make (Nat.le_trans small (by decide))).bind
    (f := fun _ => return readNumber width r) (.pure _)

theorem takes_btcReadVarInt (r : Bytes) :
    Takes (Measured.btcReadVarInt r) (btcReadVarInt r) (markerWidth r) := by
  cases r with
  | nil => exact .pure none
  | cons b r =>
    rw [Measured.btcReadVarInt, btcReadVarInt, markerWidth]
    split_ifs
    · exact takes_readNumber (by decide) r
    · exact takes_readNumber (by decide) r
    · exact takes_readNumber (by decide) r
    · exact .pure _

theorem readNumber_length (read : readNumber width r = some (l, rest)) :
    r.length = width + rest.length := by
  rw [readNumber, readFull] at read
  split_ifs at read with there
  · cases read
    rw [List.length_drop]
    omega
  · cases read

theorem btcReadVarInt_length (read : btcReadVarInt r = some (l, rest)) :
    r.length = 1 + markerWidth r + rest.length := by
  cases r with
  | nil => cases read
  | cons b r =>
    rw [btcReadVarInt] at read
    rw [List.length_cons, markerWidth]
    split_ifs at read ⊢
    · rw [readNumber_length read]; omega
    · rw [readNumber_length read]; omega
    · rw [readNumber_length read]; omega
    · cases read
      omega

theorem markerWidth_le (r : Bytes) : markerWidth r ≤ 8 * r.length := by
  cases r with
  | nil => exact Nat.zero_le _
  | cons b r =>
    rw [markerWidth, List.length_cons]
    split_ifs <;> omega

theorem btcReadVarStr_eq (r : Bytes) : btcReadVarStr r =
    (btcReadVarInt r).bind fun a => (readFull a.1 a.2).map Prod.fst := by
  cases r with
  | nil => rfl
  | cons b r =>
    have after : ∀ number : Option (Nat × Bytes),
        (number.bind fun a => (readFull a.1 a.2).bind fun b => some b.1) =
          number.bind fun a => (readFull a.1 a.2).map Prod.fst := by
      intro number
      refine congrArg number.bind (funext fun a => ?_)
      cases readFull a.1 a.2 <;> rfl
    rw [btcReadVarStr, btcReadVarInt]
    split_ifs <;> exact after _

theorem takes_readStr (fits : l ≤ maxInt) (r : Bytes) :
    Takes (Measured.readStr l r) ((readFull l r).map Prod.fst)
      (l + if l ≤ r.length then l else 0) := by
  refine (Takes.make fits).bind ?_
  rw [readFull]
  split_ifs with there
  · have len : (r.take l).length = l := by rw [List.length_take]; omega
    have made : Takes (text (r.take l)) (r.take l) l := by
      have whole := Takes.text (s := r.take l) (by rwa [len])
      rwa [len] at whole
    exact made.bind (f := fun s => return some s) (.pure _)
  · exact .pure none

theorem takes_btcReadVarStr_none (unread : btcReadVarInt r = none) :
    Takes (Measured.btcReadVarStr r) (btcReadVarStr r) (markerWidth r) := by
  have int := takes_btcReadVarInt r
  rw [unread] at int
  rw [btcReadVarStr_eq, unread]
  refine Takes.bind (n := 0) int ?_
  exact .pure none

theorem takes_btcReadVarStr (read : btcReadVarInt r = some (l, rest)) (fits : l ≤ maxInt) :
    Takes (Measured.btcReadVarStr r) (btcReadVarStr r)
      (markerWidth r + (l + if l ≤ rest.length then l else 0)) := by
  have int := takes_btcReadVarInt r
  rw [read] at int
  rw [btcReadVarStr_eq, read]
  exact int.bind (takes_readStr fits rest)

theorem panics_btcReadVarStr (read : btcReadVarInt r = some (l, rest)) (large : maxInt < l) :
    Panics (Measured.btcReadVarStr r) := by
  have int := takes_btcReadVarInt r
  rw [read] at int
  exact int.bind_panics (Panics.make large).bind

theorem btcReadVarStr_within_iff (r : Bytes) {bound : Nat} (enough : 8 * r.length ≤ bound) :
    Within (Measured.btcReadVarStr r) (btcReadVarStr r) bound ↔ Modest bound r := by
  rcases read : btcReadVarInt r with - | ⟨l, rest⟩
  · have modest : Modest bound r := by simp [Modest, read]
    have le := markerWidth_le r
    exact iff_of_true ⟨_, by omega, takes_btcReadVarStr_none read⟩ modest
  · have modest : Modest bound r ↔ l ≤ maxInt ∧ markerWidth r + l ≤ bound := by
      simp [Modest, read]
    rw [modest]
    by_cases fits : l ≤ maxInt
    · rw [(takes_btcReadVarStr read fits).within_iff, and_iff_right fits]
      have len := btcReadVarInt_length read
      split_ifs <;> omega
    · exact iff_of_false (panics_btcReadVarStr read (Nat.not_le.mp fits)).not_within
        fun h => fits h.1

theorem index_le {s pat : Bytes} {i : Nat} (found : index s pat = some i) :
    i + pat.length ≤ s.length := by
  induction s generalizing i with
  | nil =>
    rw [index.eq_def] at found
    split_ifs at found with here
    cases found
    rw [Nat.zero_add]
    exact (List.isPrefixOf_iff_prefix.mp here).length_le
  | cons b s ih =>
    rw [index.eq_def] at found
    split_ifs at found with here
    · grind
    · obtain ⟨j, later, rfl⟩ : ∃ j, index s pat = some j ∧ j + 1 = i :=
        Option.map_eq_some_iff.mp found
      have le := ih later
      rw [List.length_cons]
      omega

def pubkeyOf (ua : Bytes) : Bytes :=
  match index ua (ascii "pubkey=") with
  | none => []
  | some idx =>
    let p := ua.drop (idx + 7)
    let stop := (p.idxOf? slash).getD p.length
    p.take (if 128 ≤ stop then 128 else stop)

theorem btcParseVersionPubkey_eq (payload : Bytes) : btcParseVersionPubkey payload =
    (btcReadVarStr (payload.drop 80)).elim [] pubkeyOf := by
  rw [btcParseVersionPubkey]
  cases btcReadVarStr (payload.drop 80) <;> rfl

theorem takes_pubkeyOf (ua : Bytes) : Takes (Measured.pubkeyOf ua) (pubkeyOf ua) 0 := by
  rw [Measured.pubkeyOf, pubkeyOf]
  rcases found : index ua (ascii "pubkey=") with - | idx
  · exact .pure []
  · have inside : idx + 7 ≤ ua.length := index_le found
    have rest : (ua.drop (idx + 7)).take (ua.length - (idx + 7)) = ua.drop (idx + 7) :=
      List.take_of_length_le (by rw [List.length_drop])
    have behind := Takes.sub inside le_rfl
    rw [rest] at behind
    have stop : ((ua.drop (idx + 7)).idxOf? slash).getD (ua.drop (idx + 7)).length ≤
        (ua.drop (idx + 7)).length := by
      rcases slashed : (ua.drop (idx + 7)).idxOf? slash with - | i
      · exact le_rfl
      · exact (List.idxOf?_eq_some_iff.mp slashed).1.le
    refine Takes.bind (n := 0) behind (Takes.sub (Nat.zero_le _) ?_)
    split_ifs <;> omega

theorem btcReadVarStr_outcome (r : Bytes) :
    (∃ n, Takes (Measured.btcReadVarStr r) (btcReadVarStr r) n) ∨
      Panics (Measured.btcReadVarStr r) := by
  rcases read : btcReadVarInt r with - | ⟨l, rest⟩
  · exact .inl ⟨_, takes_btcReadVarStr_none read⟩
  · rcases Nat.lt_or_ge maxInt l with large | fits
    · exact .inr (panics_btcReadVarStr read large)
    · exact .inl ⟨_, takes_btcReadVarStr read fits⟩

theorem btcParseVersionPubkey_within_iff (payload : Bytes) (bound : Nat) :
    Within (Measured.btcParseVersionPubkey payload) (btcParseVersionPubkey payload) bound ↔
      Within (Measured.btcReadVarStr (payload.drop 80)) (btcReadVarStr (payload.drop 80))
        bound := by
  rcases btcReadVarStr_outcome (payload.drop 80) with ⟨n, str⟩ | panics
  · have key : Takes (Measured.btcParseVersionPubkey payload)
        (btcParseVersionPubkey payload) n := by
      rw [btcParseVersionPubkey_eq]
      refine Takes.bind (n := 0) str ?_
      cases btcReadVarStr (payload.drop 80) with
      | none => exact .pure []
      | some ua => exact takes_pubkeyOf ua
    rw [key.within_iff, str.within_iff]
  · have key : Panics (Measured.btcParseVersionPubkey payload) := panics.bind
    exact iff_of_false key.not_within panics.not_within

theorem takes_recordText {buf : Bytes} (len : buf.length = 30) :
    ∃ n ≤ 97, Takes (Measured.recordText buf) (recordText buf) n := by
  have ip : (slice buf 8 24).length = 16 := by
    rw [slice, List.length_take, List.length_drop, len]
    rfl
  have port : bigEndian16 (slice buf 24 26) < 65536 := by
    have lt := ofLittleEndian_lt (slice buf 24 26).reverse
    rwa [List.length_reverse, slice, List.length_take, List.length_drop, len] at lt
  have host := ipText_length_le ip
  have number : (decimals 1 (bigEndian16 (slice buf 24 26))).length ≤ 5 :=
    decimals_length_le (by decide) (by omega)
  have joined := addrText_length_le ip port
  rw [addrText] at joined
  have room : 97 ≤ maxInt := by decide
  have address : Takes (sub buf 8 24) (slice buf 8 24) 0 := .sub (by decide) (by omega)
  have bytes : Takes (sub buf 24 26) (slice buf 24 26) 0 := .sub (by decide) (by omega)
  refine ⟨_, ?_, address.bind (bytes.bind ((Takes.text ?_).bind ((Takes.text ?_).bind
    (Takes.text ?_))))⟩ <;> omega

theorem takes_parseAddrLoop (count : Nat) (r : Bytes) (addrs : List Bytes) (cap : Nat)
    (few : addrs.length < 1000) (held : addrs.length ≤ cap) (twice : cap ≤ 2 * addrs.length) :
    ∃ n, Takes (Measured.parseAddrLoop count r addrs cap) (parseAddrLoop count r addrs) n ∧
      n + 80 * cap ≤ 30 + 287 * (r.length / 30) + 160 * addrs.length := by
  induction count generalizing r addrs cap with
  | zero => exact ⟨0, .pure addrs, by omega⟩
  | succ count ih =>
    have buffer : Takes (make 30) () 30 := .make (by decide)
    rw [Measured.parseAddrLoop, parseAddrLoop]
    by_cases whole : 30 ≤ r.length
    · have read : readFull 30 r = some (r.take 30, r.drop 30) := if_pos whole
      have len : (r.take 30).length = 30 := by rw [List.length_take]; omega
      have rest : (r.drop 30).length = r.length - 30 := List.length_drop
      have limit : 16 * (2 * 1000) ≤ maxInt := by decide
      obtain ⟨t, small, text⟩ := takes_recordText len
      obtain ⟨cap', g, grown, held', twice', paid⟩ :=
        Takes.grow Measured.stringSize held twice (by rw [Measured.stringSize]; omega)
      rw [Measured.stringSize] at paid
      have more : (addrs ++ [recordText (r.take 30)]).length = addrs.length + 1 := by
        rw [List.length_append, List.length_singleton]
      by_cases full : 1000 ≤ (addrs ++ [recordText (r.take 30)]).length
      · refine ⟨30 + (t + (g + 0)), buffer.bind ?_, by omega⟩
        simp only [read]
        refine text.bind (grown.bind ?_)
        simp only [if_pos full]
        exact .pure _
      · obtain ⟨n, later, bound⟩ := ih (r.drop 30) _ cap' (Nat.not_le.mp full)
          (by rwa [more]) (by rwa [more])
        refine ⟨30 + (t + (g + n)), buffer.bind ?_, ?_⟩
        · simp only [read]
          refine text.bind (grown.bind ?_)
          simp only [if_neg full]
          exact later
        · rw [more, rest] at bound
          omega
    · have read : readFull 30 r = none := if_neg whole
      rw [read]
      refine ⟨30, Takes.bind (n := 0) buffer (.pure addrs), by omega⟩

theorem parseAddrMsg_within (payload : Bytes) :
    Within (Measured.parseAddrMsg payload) (parseAddrMsg payload) (30 * payload.length) := by
  have int := takes_btcReadVarInt payload
  rw [Measured.parseAddrMsg, parseAddrMsg]
  rcases read : btcReadVarInt payload with - | ⟨count, r⟩
  · rw [read] at int
    have le := markerWidth_le payload
    exact ⟨_, by omega, Takes.bind (n := 0) int (.pure [])⟩
  · rw [read] at int
    have len := btcReadVarInt_length read
    by_cases zero : count = 0
    · subst zero
      exact ⟨_, by omega, Takes.bind (n := 0) int (.pure [])⟩
    · obtain ⟨n, loop, bound⟩ := takes_parseAddrLoop count r [] 0 (by decide)
        (by decide) (by decide)
      rw [List.length_nil] at bound
      refine ⟨_, by omega, Takes.bind (n := n) int ?_⟩
      simp only [if_neg zero]
      exact loop

/-- The readers of a payload return within a constant for each of its bytes exactly if the lengths
at its start and at the user agent are integers and within that bound. -/
theorem payload_safe_iff {c : Nat} (large : 30 ≤ c) (payload : Bytes) :
    Safe c payload ↔ Modest (c * payload.length) payload ∧
      Modest (c * payload.length) (payload.drop 80) := by
  have bound : 30 * payload.length ≤ c * payload.length := Nat.mul_le_mul_right _ large
  have rest : (payload.drop 80).length ≤ payload.length := by rw [List.length_drop]; omega
  have str := btcReadVarStr_within_iff payload (show _ ≤ c * payload.length by omega)
  have agent := btcReadVarStr_within_iff (payload.drop 80)
    (show _ ≤ c * payload.length by omega)
  have version := btcParseVersionPubkey_within_iff payload (c * payload.length)
  constructor
  · intro safe
    exact ⟨str.mp safe.varStr, agent.mp (version.mp safe.version)⟩
  · rintro ⟨start, later⟩
    have marker := markerWidth_le payload
    obtain ⟨n, le, takes⟩ := parseAddrMsg_within payload
    exact ⟨⟨_, by omega, takes_btcReadVarInt payload⟩, str.mpr start,
      version.mpr (agent.mpr later), n, by omega, takes⟩

def shortVersion : Bytes := btcBuildVersion (ascii "02ab") ⟨none, none, 1700000000, 1⟩

theorem short_version_safe : 30 ≤ 30 ∧ Safe 30 shortVersion :=
  ⟨le_rfl, (payload_safe_iff le_rfl shortVersion).mpr (by decide +kernel)⟩

def hugeLength : Bytes := List.replicate 9 0xFF

def hugeVersion : Bytes := List.replicate 80 0 ++ hugeLength

/-- Reading the user agent of this version panics, as does reading the string. -/
theorem huge_version_panics :
    (Measured.btcParseVersionPubkey hugeVersion).run 0 = none ∧
    (Measured.btcReadVarStr hugeLength).run 0 = none ∧
    (Measured.btcReadVarStr (0xFE :: List.replicate 4 0xFF)).run 0 = some (none, 2 ^ 32 + 3) := by
  decide +kernel

end Fedboot
