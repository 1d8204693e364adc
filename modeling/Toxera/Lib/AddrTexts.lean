import Toxera.Lib.BaseEncoding
import Toxera.Lib.Radix

/-!
# Texts of network addresses

Addresses of 16 bytes as the Go library writes them: with dots if they are mapped from
four bytes, and otherwise as hexadecimal groups, with the first of the longest runs of at
least two zero groups left out.
-/

namespace AddrTexts

open BaseEncoding Radix

variable {g : List Nat} {host host' ip ip' port : List UInt8} {l : List (List UInt8)} {n : Nat}

def colon : UInt8 := 58
def dot : UInt8 := 46

def hexDigits : List UInt8 := ascii "0123456789abcdef"

def hexText (n : Nat) : List UInt8 :=
  spell hexDigits (if n = 0 then [0] else (Nat.digits 16 n).reverse)

def groups (ip : List UInt8) : List Nat :=
  (List.range 8).map fun i => (ip.getD (2 * i) 0).toNat * 256 + (ip.getD (2 * i + 1) 0).toNat

def zeroRun (l : List Nat) : Nat := (l.takeWhile (· = 0)).length

def omitted (g : List Nat) : Option (Nat × Nat) :=
  (List.range 8).foldl (fun best i =>
    let len := zeroRun (g.drop i)
    if 2 ≤ len ∧ best.elim 0 (fun b => b.2 - b.1) < len then some (i, i + len) else best) none

def ip6Text (ip : List UInt8) : List UInt8 :=
  let g := groups ip
  let text := g.map hexText
  (omitted g).elim ([colon].intercalate text) fun run =>
    [colon].intercalate (text.take run.1) ++ [colon, colon] ++
      [colon].intercalate (text.drop run.2)

def ip4Text (ip : List UInt8) : List UInt8 :=
  [dot].intercalate (ip.map fun b => decimals 1 b.toNat)

def mapped : List UInt8 := List.replicate 10 0 ++ [0xff, 0xff]

def ipText (ip : List UInt8) : List UInt8 :=
  if ip.take 12 = mapped then ip4Text (ip.drop 12) else ip6Text ip

def joinHostPort (host port : List UInt8) : List UInt8 :=
  if colon ∈ host then ascii "[" ++ host ++ ascii "]" ++ [colon] ++ port
  else host ++ [colon] ++ port

theorem digit_inj {d e : Nat} (hd : d < 16) (he : e < 16)
    (same : hexDigits.getD d 0 = hexDigits.getD e 0) : d = e := by
  have all : ∀ d < 16, ∀ e < 16, hexDigits.getD d 0 = hexDigits.getD e 0 → d = e := by decide
  exact all d hd e he same

theorem spell_inj {l m : List Nat} (hl : ∀ d ∈ l, d < 16) (hm : ∀ d ∈ m, d < 16)
    (same : spell hexDigits l = spell hexDigits m) : l = m := by
  induction l generalizing m with
  | nil =>
    cases m with
    | nil => rfl
    | cons e m => cases same
  | cons d l ih =>
    cases m with
    | nil => cases same
    | cons e m =>
      simp only [spell, List.map_cons, List.cons.injEq] at same
      obtain rfl := digit_inj (hl d List.mem_cons_self) (hm e List.mem_cons_self) same.1
      rw [ih (fun d mem => hl d (List.mem_cons_of_mem _ mem))
        (fun d mem => hm d (List.mem_cons_of_mem _ mem)) same.2]

theorem hexText_digits (n : Nat) : ∃ l : List Nat, hexText n = spell hexDigits l ∧ l ≠ [] ∧
    (∀ d ∈ l, d < 16) ∧ number 16 l = n := by
  rw [hexText]
  split_ifs with zero
  · exact ⟨[0], rfl, by simp, by simp, by simp [number, zero]⟩
  · refine ⟨(Nat.digits 16 n).reverse, rfl, ?_, ?_, ?_⟩
    · simpa [Nat.digits_ne_nil_iff_ne_zero] using zero
    · intro d mem
      exact Nat.digits_lt_base (by decide) (List.mem_reverse.mp mem)
    · rw [number, List.reverse_reverse, Nat.ofDigits_digits]

theorem hexText_inj {m : Nat} (same : hexText m = hexText n) : m = n := by
  obtain ⟨l, text, -, small, value⟩ := hexText_digits m
  obtain ⟨l', text', -, small', value'⟩ := hexText_digits n
  rw [text, text'] at same
  rw [← value, ← value', spell_inj small small' same]

theorem hexText_ne_nil (n : Nat) : hexText n ≠ [] := by
  obtain ⟨l, text, some_, -⟩ := hexText_digits n
  simpa [text, spell] using some_

theorem colon_not_mem_hexText (n : Nat) : colon ∉ hexText n :=
  not_mem_spell (not_mem_ascii (by decide)) (by decide) _

theorem not_mem_decimals {c : UInt8} (other : c.toNat < 48 ∨ 58 ≤ c.toNat) (width n : Nat) :
    c ∉ decimals width n := by
  intro mem
  have := decimals_range mem
  omega

theorem zeroRun_spec (l : List Nat) : l = List.replicate (zeroRun l) 0 ++ l.drop (zeroRun l) := by
  induction l with
  | nil => rfl
  | cons d l ih =>
    by_cases zero : d = 0
    · have next : zeroRun (d :: l) = zeroRun l + 1 := by simp [zeroRun, zero]
      rw [next, List.replicate_succ, List.cons_append, List.drop_succ_cons, ← ih, zero]
    · have none : zeroRun (d :: l) = 0 := by simp [zeroRun, zero]
      rw [none]
      rfl

structure ZerosAt (g : List Nat) (run : Nat × Nat) : Prop where
  order : run.1 ≤ run.2
  inside : run.2 ≤ g.length
  split : g = g.take run.1 ++ List.replicate (run.2 - run.1) 0 ++ g.drop run.2

theorem zerosAt_zeroRun {i : Nat} (le : i ≤ g.length) : ZerosAt g (i, i + zeroRun (g.drop i)) := by
  have spec := zeroRun_spec (g.drop i)
  have size := congrArg List.length spec
  rw [List.length_append, List.length_replicate, List.length_drop, List.length_drop] at size
  refine ⟨Nat.le_add_right _ _, ?_, ?_⟩
  · grind
  · rw [List.drop_drop] at spec
    rw [Nat.add_sub_cancel_left, List.append_assoc, ← spec, List.take_append_drop]

theorem omitted_spec (len : g.length = 8) {run : Nat × Nat} (h : omitted g = some run) :
    ZerosAt g run := by
  have steps : ∀ (l : List Nat) (best : Option (Nat × Nat)), (∀ i ∈ l, i ≤ 8) →
      (∀ r, best = some r → ZerosAt g r) →
      ∀ r, l.foldl (fun best i =>
        let len := zeroRun (g.drop i)
        if 2 ≤ len ∧ best.elim 0 (fun b => b.2 - b.1) < len then some (i, i + len) else best)
        best = some r → ZerosAt g r := by
    intro l
    induction l with
    | nil => exact fun best _ before => before
    | cons i l ih =>
      intro best small before
      refine ih _ (fun j mem => small j (List.mem_cons_of_mem _ mem)) fun r found => ?_
      dsimp only at found
      split_ifs at found
      · cases found
        exact zerosAt_zeroRun (len.symm ▸ small i List.mem_cons_self)
      · exact before r found
  exact steps (List.range 8) none (fun i mem => (List.mem_range.mp mem).le) nofun run h

section
variable {α : Type} {c : α}

def blankEnd (l : List (List α)) : List (List α) := if l = [] then [[]] else l

theorem intercalate_append {sep : List α} {l m : List (List α)} (hl : l ≠ []) (hm : m ≠ []) :
    sep.intercalate (l ++ m) = sep.intercalate l ++ sep ++ sep.intercalate m := by
  induction l with
  | nil => exact absurd rfl hl
  | cons a l ih =>
    cases l with
    | nil =>
      rw [List.singleton_append, List.intercalate_cons_of_ne_nil hm, List.intercalate_singleton]
    | cons b l =>
      have later := ih (by simp)
      have first : ∀ rest,
          sep.intercalate (a :: b :: rest) = a ++ sep ++ sep.intercalate (b :: rest) :=
        fun rest => List.intercalate_cons_of_ne_nil (by simp)
      rw [List.cons_append, List.cons_append, first, first, ← List.cons_append, later]
      simp only [List.append_assoc]

theorem blankEnd_ne_nil (l : List (List α)) : blankEnd l ≠ [] := by
  rw [blankEnd]
  split_ifs with none
  · simp
  · exact none

theorem intercalate_blankEnd (sep : List α) (l : List (List α)) :
    sep.intercalate (blankEnd l) = sep.intercalate l := by
  rw [blankEnd]
  split_ifs with none
  · rw [none, List.intercalate_singleton, List.intercalate_nil]
  · rfl

theorem intercalate_gap (l m : List (List α)) :
    [c].intercalate (blankEnd l ++ [] :: blankEnd m) =
      [c].intercalate l ++ [c, c] ++ [c].intercalate m := by
  rw [intercalate_append (blankEnd_ne_nil l) (by simp), intercalate_blankEnd,
    List.intercalate_cons_of_ne_nil (blankEnd_ne_nil m), intercalate_blankEnd]
  simp

theorem takeWhile_gap {l : List (List α)} (full : ∀ p ∈ l, p ≠ []) (m : List (List α)) :
    (blankEnd l ++ [] :: m).takeWhile (· ≠ []) = l := by
  rw [blankEnd]
  split_ifs with none
  · simp [none]
  · rw [List.takeWhile_append_of_pos (by simpa using full)]
    simp

theorem reverse_blankEnd (l : List (List α)) : (blankEnd l).reverse = blankEnd l.reverse := by
  rw [blankEnd, blankEnd]
  split_ifs with none blank
  · rfl
  · simp [none] at blank
  · simp_all
  · rfl

theorem rtakeWhile_gap {m : List (List α)} (full : ∀ p ∈ m, p ≠ []) (l : List (List α)) :
    (blankEnd l ++ [] :: blankEnd m).rtakeWhile (· ≠ []) = m := by
  have turned : (blankEnd l ++ [] :: blankEnd m).reverse =
      blankEnd m.reverse ++ [] :: (blankEnd l).reverse := by
    rw [List.reverse_append, List.reverse_cons, List.append_assoc, reverse_blankEnd]
    rfl
  rw [List.rtakeWhile, turned, takeWhile_gap (by simpa using full), List.reverse_reverse]

end

def restore (pieces : List (List UInt8)) : List (List UInt8) :=
  if [] ∈ pieces then
    let front := pieces.takeWhile (· ≠ [])
    let back := pieces.rtakeWhile (· ≠ [])
    front ++ List.replicate (8 - front.length - back.length) (hexText 0) ++ back
  else pieces

theorem groups_length (ip : List UInt8) : (groups ip).length = 8 := by simp [groups]

theorem restore_gap {m : List (List UInt8)} (hl : ∀ p ∈ l, p ≠ []) (hm : ∀ p ∈ m, p ≠ []) :
    restore (blankEnd l ++ [] :: blankEnd m) =
      l ++ List.replicate (8 - l.length - m.length) (hexText 0) ++ m := by
  rw [restore, if_pos (by simp), takeWhile_gap hl, rtakeWhile_gap hm]

theorem not_mem_blankEnd {c : UInt8} (clean : ∀ p ∈ l, c ∉ p) : ∀ p ∈ blankEnd l, c ∉ p := by
  rw [blankEnd]
  split_ifs with none
  · simp
  · exact clean

theorem restore_ip6Text (ip : List UInt8) :
    restore ((ip6Text ip).splitOn colon) = (groups ip).map hexText := by
  have full : ∀ p ∈ (groups ip).map hexText, p ≠ [] := by grind [hexText_ne_nil]
  have clean : ∀ p ∈ (groups ip).map hexText, colon ∉ p := by grind [colon_not_mem_hexText]
  have len := groups_length ip
  have some_ : (groups ip).map hexText ≠ [] := by
    intro none
    have := congrArg List.length none
    rw [List.length_map, len] at this
    cases this
  rw [ip6Text]
  cases found : omitted (groups ip) with
  | none =>
    have none : [] ∉ (groups ip).map hexText := fun mem => full [] mem rfl
    rw [Option.elim_none, List.splitOn_intercalate colon clean some_, restore, if_neg none]
  | some run =>
    have zeros := omitted_spec len found
    have order := zeros.order
    have inside := zeros.inside
    have front : ∀ p ∈ ((groups ip).map hexText).take run.1, p ≠ [] ∧ colon ∉ p := fun p mem =>
      ⟨full p (List.mem_of_mem_take mem), clean p (List.mem_of_mem_take mem)⟩
    have back : ∀ p ∈ ((groups ip).map hexText).drop run.2, p ≠ [] ∧ colon ∉ p := fun p mem =>
      ⟨full p (List.mem_of_mem_drop mem), clean p (List.mem_of_mem_drop mem)⟩
    have pieces : ∀ p ∈ blankEnd (((groups ip).map hexText).take run.1) ++
        [] :: blankEnd (((groups ip).map hexText).drop run.2), colon ∉ p := by
      simp only [List.mem_append, List.mem_cons]
      rintro p (left | rfl | right)
      · exact not_mem_blankEnd (fun p mem => (front p mem).2) p left
      · simp
      · exact not_mem_blankEnd (fun p mem => (back p mem).2) p right
    rw [Option.elim_some, ← intercalate_gap, List.splitOn_intercalate colon pieces (by simp),
      restore_gap (fun p mem => (front p mem).1) (fun p mem => (back p mem).1)]
    conv_rhs => rw [zeros.split, List.map_append, List.map_append, List.map_replicate]
    rw [List.map_take, List.map_drop, List.length_take, List.length_drop, List.length_map, len]
    congr 3
    omega

theorem groups_inj (len : ip.length = 16) (len' : ip'.length = 16) (same : groups ip = groups ip') :
    ip = ip' := by
  have pairs : ∀ j < 8, ip.getD (2 * j) 0 = ip'.getD (2 * j) 0 ∧
      ip.getD (2 * j + 1) 0 = ip'.getD (2 * j + 1) 0 := by
    intro j lt
    have values := List.map_inj_left.mp same j (List.mem_range.mpr lt)
    have low := (ip.getD (2 * j + 1) 0).toNat_lt
    have low' := (ip'.getD (2 * j + 1) 0).toNat_lt
    exact ⟨UInt8.toNat_inj.mp (by omega), UInt8.toNat_inj.mp (by omega)⟩
  refine List.ext_getElem (len.trans len'.symm) fun i lt lt' => ?_
  have pair := pairs (i / 2) (by omega)
  rw [← List.getD_eq_getElem _ 0 lt, ← List.getD_eq_getElem _ 0 lt']
  rcases Nat.mod_two_eq_zero_or_one i with even | odd
  · rw [show i = 2 * (i / 2) by omega]
    exact pair.1
  · grind

theorem ip6Text_inj (len : ip.length = 16) (len' : ip'.length = 16)
    (same : ip6Text ip = ip6Text ip') : ip = ip' := by
  apply groups_inj len len'
  have texts := restore_ip6Text ip
  rw [same, restore_ip6Text] at texts
  exact List.map_injective_iff.mpr (fun _ _ => hexText_inj) texts.symm

theorem ip4Text_inj (some_ : ip ≠ []) (some' : ip' ≠ []) (same : ip4Text ip = ip4Text ip') :
    ip = ip' := by
  have clean : ∀ l : List UInt8, ∀ p ∈ l.map fun b => decimals 1 b.toNat, dot ∉ p := by
    intro l p mem
    obtain ⟨b, -, rfl⟩ := List.mem_map.mp mem
    exact not_mem_decimals (by decide) _ _
  have pieces := List.splitOn_intercalate dot (clean ip) (by simpa using some_)
  rw [← ip4Text, same, ip4Text, List.splitOn_intercalate dot (clean ip') (by simpa using some')]
    at pieces
  refine List.map_injective_iff.mpr (fun a b eq => ?_) pieces.symm
  exact UInt8.toNat_inj.mp (decimals_inj eq)

theorem mem_of_mem_intercalate {α : Type} {sep : List α} {l : List (List α)} {a : α}
    (mem : a ∈ sep.intercalate l) : a ∈ sep ∨ ∃ p ∈ l, a ∈ p := by
  induction l with
  | nil => cases mem
  | cons p l ih =>
    rcases eq_or_ne l [] with rfl | more
    · rw [List.intercalate_singleton] at mem
      exact Or.inr ⟨p, List.mem_cons_self, mem⟩
    · rw [List.intercalate_cons_of_ne_nil more, List.append_assoc, List.mem_append,
        List.mem_append] at mem
      rcases mem with here | between | later
      · exact Or.inr ⟨p, List.mem_cons_self, here⟩
      · exact Or.inl between
      · grind

theorem colon_not_mem_ip4Text (ip : List UInt8) : colon ∉ ip4Text ip := by
  intro mem
  rcases mem_of_mem_intercalate mem with sep | ⟨p, there, inside⟩
  · exact absurd sep (by decide)
  · obtain ⟨b, -, rfl⟩ := List.mem_map.mp there
    exact not_mem_decimals (by decide) _ _ inside

theorem colon_mem_ip6Text (ip : List UInt8) : colon ∈ ip6Text ip := by
  rw [ip6Text]
  cases omitted (groups ip) with
  | none =>
    have two : ∃ a b l, (groups ip).map hexText = a :: b :: l := ⟨_, _, _, rfl⟩
    obtain ⟨a, b, l, text⟩ := two
    rw [Option.elim_none, text, List.intercalate_cons_of_ne_nil (by simp)]
    simp
  | some run => simp

theorem ipText_inj (len : ip.length = 16) (len' : ip'.length = 16) (same : ipText ip = ipText ip') :
    ip = ip' := by
  rw [ipText, ipText] at same
  split_ifs at same with four four' four'
  · have size : ∀ {l : List UInt8}, l.length = 16 → l.drop 12 ≠ [] := by
      intro l eq none
      have := congrArg List.length none
      rw [List.length_drop, eq] at this
      cases this
    rw [← List.take_append_drop 12 ip, ← List.take_append_drop 12 ip', four, four',
      ip4Text_inj (size len) (size len') same]
  · exact absurd (same ▸ colon_mem_ip6Text ip') (colon_not_mem_ip4Text _)
  · exact absurd (same ▸ colon_mem_ip6Text ip) (colon_not_mem_ip4Text _)
  · exact ip6Text_inj len len' same

theorem rtakeWhile_port (clean : colon ∉ port) :
    (host ++ [colon] ++ port).rtakeWhile (· ≠ colon) = port := by
  have other : ∀ c ∈ port.reverse, c ≠ colon := by grind
  rw [List.rtakeWhile, List.reverse_append, List.reverse_append,
    List.takeWhile_append_of_pos (by simpa using other)]
  simp

def hostPart (host : List UInt8) : List UInt8 :=
  if colon ∈ host then ascii "[" ++ host ++ ascii "]" else host

theorem joinHostPort_eq (host port : List UInt8) :
    joinHostPort host port = hostPart host ++ [colon] ++ port := by
  rw [joinHostPort, hostPart]
  split_ifs <;> rfl

theorem hostPart_inj (same : hostPart host = hostPart host') : host = host' := by
  rw [hostPart, hostPart] at same
  split_ifs at same with colons colons' colons'
  · exact List.append_cancel_left (List.append_cancel_right same)
  · grind
  · grind
  · exact same

theorem joinHostPort_inj {port' : List UInt8} (clean : colon ∉ port) (clean' : colon ∉ port')
    (same : joinHostPort host port = joinHostPort host' port') : host = host' ∧ port = port' := by
  rw [joinHostPort_eq, joinHostPort_eq] at same
  have ports : port = port' := by rw [← rtakeWhile_port clean, same, rtakeWhile_port clean']
  rw [ports] at same
  exact ⟨hostPart_inj (List.append_cancel_right (List.append_cancel_right same)), ports⟩

def addrText (ip : List UInt8) (port : Nat) : List UInt8 :=
  joinHostPort (ipText ip) (decimals 1 port)

theorem addrText_inj {port port' : Nat} (len : ip.length = 16) (len' : ip'.length = 16)
    (same : addrText ip port = addrText ip' port') : ip = ip' ∧ port = port' := by
  have parts := joinHostPort_inj (not_mem_decimals (by decide) _ _)
    (not_mem_decimals (by decide) _ _) same
  exact ⟨ipText_inj len len' parts.1, decimals_inj parts.2⟩

theorem intercalate_length_le {α : Type} {sep : List α} {l : List (List α)} {k : Nat}
    (short : ∀ p ∈ l, p.length + sep.length ≤ k) : (sep.intercalate l).length ≤ l.length * k := by
  induction l with
  | nil => exact Nat.zero_le _
  | cons p l ih =>
    have first := short p List.mem_cons_self
    have later := ih fun q mem => short q (List.mem_cons_of_mem _ mem)
    rw [List.length_cons, Nat.succ_mul]
    rcases eq_or_ne l [] with rfl | more
    · rw [List.intercalate_singleton]
      omega
    · rw [List.intercalate_cons_of_ne_nil more, List.length_append, List.length_append]
      omega

theorem decimals_length_le {width : Nat} (pos : 0 < width) (fits : n < 10 ^ width) :
    (decimals 1 n).length ≤ width := by
  have short : (Nat.digits 10 n).length ≤ width :=
    (Nat.digits_length_le_iff (by decide) n).mpr fits
  rw [decimals, List.length_map, padded, List.length_append, List.length_replicate,
    List.length_reverse]
  omega

theorem hexText_length_le (fits : n < 65536) : (hexText n).length ≤ 4 := by
  have short : (Nat.digits 16 n).length ≤ 4 :=
    (Nat.digits_length_le_iff (by decide) n).mpr fits
  rw [hexText, spell_length]
  split_ifs
  · decide
  · rwa [List.length_reverse]

theorem ip6Text_length_le (ip : List UInt8) : (ip6Text ip).length ≤ 42 := by
  have short : ∀ p ∈ (groups ip).map hexText, p.length + [colon].length ≤ 5 := by
    intro p mem
    obtain ⟨n, there, rfl⟩ := List.mem_map.mp mem
    obtain ⟨i, -, rfl⟩ := List.mem_map.mp there
    have high := (ip.getD (2 * i) 0).toNat_lt
    have low := (ip.getD (2 * i + 1) 0).toNat_lt
    exact Nat.succ_le_succ (hexText_length_le (by omega))
  have len := groups_length ip
  rw [ip6Text]
  cases found : omitted (groups ip) with
  | none =>
    have whole := intercalate_length_le short
    rw [List.length_map, len] at whole
    rw [Option.elim_none]
    omega
  | some run =>
    have order := (omitted_spec len found).order
    have front := intercalate_length_le fun p (mem : p ∈ ((groups ip).map hexText).take run.1) =>
      short p (List.mem_of_mem_take mem)
    have back := intercalate_length_le fun p (mem : p ∈ ((groups ip).map hexText).drop run.2) =>
      short p (List.mem_of_mem_drop mem)
    rw [List.length_take, List.length_map, len] at front
    rw [List.length_drop, List.length_map, len] at back
    rw [Option.elim_some, List.length_append, List.length_append]
    simp only [List.length_cons, List.length_nil]
    omega

theorem ipText_length_le (len : ip.length = 16) : (ipText ip).length ≤ 42 := by
  rw [ipText]
  split_ifs
  · have short : ∀ p ∈ (ip.drop 12).map fun b => decimals 1 b.toNat,
        p.length + [dot].length ≤ 4 := by
      intro p mem
      obtain ⟨b, -, rfl⟩ := List.mem_map.mp mem
      have small := b.toNat_lt
      exact Nat.succ_le_succ (decimals_length_le (by decide) (by omega))
    have whole := intercalate_length_le short
    rw [List.length_map, List.length_drop, len] at whole
    rw [ip4Text]
    omega
  · exact ip6Text_length_le ip

theorem addrText_length_le {port : Nat} (len : ip.length = 16) (fits : port < 65536) :
    (addrText ip port).length ≤ 50 := by
  have host := ipText_length_le len
  have number : (decimals 1 port).length ≤ 5 := decimals_length_le (by decide) (by omega)
  have open_ : (ascii "[").length = 1 := by decide
  have close : (ascii "]").length = 1 := by decide
  rw [addrText, joinHostPort_eq, List.length_append, List.length_append, hostPart]
  split_ifs
  · grind
  · simp only [List.length_singleton]
    omega

end AddrTexts
