import Toxera.Lib.Paths

/-!
# Saving a profile

`WriteSavedata` of `xtox/util.go` over a file system that is a map from places to
contents.
-/

namespace Xtox

open Paths

abbrev Bytes := List UInt8

variable {old : Bytes}

abbrev Files := Place → Option Bytes

/-- `ioutil.WriteFile` fails before the file is opened and truncated, or after some bytes. -/
inductive WriteOutcome where
  | written | notOpened | short (n : Nat)
  deriving DecidableEq

/-- Which operations succeed; `write` is how far a write to the temporary file gets that fails. -/
structure Outcomes where
  stat : Bool
  writeFile : WriteOutcome
  readFile : Bool
  tempFile : Bool
  write : Option Nat
  close : Bool
  remove : Bool
  rename : Bool
  deriving DecidableEq

inductive Op where
  | writeFile | readFile | tempFile | write | close | remove | rename
  deriving DecidableEq

def fileExist (fs : Files) (fname : Path) (stat : Bool) : Bool :=
  stat && (fs (place fname)).isSome

def tempName (rand : Nat) : Part := "gotcb".toList ++ Nat.toDigits 10 rand

def tempFile (fs : Files) (dir : Path) (rand : Nat) (ok : Bool) : Option (Files × Path) :=
  let name := joinPath dir (tempName rand)
  if ok = true ∧ fs (place name) = none then
    some (Function.update fs (place name) (some []), name)
  else none

def remove (fs : Files) (fname : Path) (ok : Bool) : Option Files :=
  if ok = true ∧ (fs (place fname)).isSome then some (Function.update fs (place fname) none)
  else none

def rename (fs : Files) (oldpath newpath : Path) (ok : Bool) : Option Files :=
  if ok then
    (fs (place oldpath)).map fun data =>
      Function.update (Function.update fs (place oldpath) none) (place newpath) (some data)
  else none

def writeFile (fs : Files) (liveData : Bytes) (fname : Path) : WriteOutcome → Option Op × Files
  | .written => (none, Function.update fs (place fname) (some liveData))
  | .notOpened => (some .writeFile, fs)
  | .short n => (some .writeFile, Function.update fs (place fname) (some (liveData.take n)))

def moveFile (fs : Files) (fname tfname : Path) (o : Outcomes) : Option Op × Files :=
  match remove fs fname o.remove with
  | none => (some .remove, fs)
  | some fs => match rename fs (dir fname ++ '/' :: tfname) fname o.rename with
    | none => (some .rename, fs)
    | some fs => (none, fs)

def replaceFile (fs : Files) (liveData : Bytes) (fname : Path) (rand : Nat) (o : Outcomes) :
    Option Op × Files :=
  match tempFile fs (dir fname) rand o.tempFile with
  | none => (some .tempFile, fs)
  | some (fs, tfname) => match o.write with
    | some n => (some .write, Function.update fs (place tfname) (some (liveData.take n)))
    | none =>
      if o.close then moveFile (Function.update fs (place tfname) (some liveData)) fname tfname o
      else (some .close, Function.update fs (place tfname) (some liveData))

def writeSavedata (fs : Files) (liveData : Bytes) (fname : Path) (rand : Nat) (o : Outcomes) :
    Option Op × Files :=
  if fileExist fs fname o.stat then
    if o.readFile then
      if fs (place fname) = some liveData then (none, fs)
      else replaceFile fs liveData fname rand o
    else (some .readFile, fs)
  else writeFile fs liveData fname o.writeFile

theorem tempName_isName (rand : Nat) : IsName (tempName rand) := by
  have front : tempName rand = ['g', 'o', 't', 'c', 'b'] ++ Nat.toDigits 10 rand := rfl
  refine ⟨?_, ?_, ?_, ?_⟩
  · simp [front]
  · simp [front]
  · simp [front, dotdot]
  · intro slash
    rcases List.mem_append.mp slash with fixed | digit
    · revert fixed
      decide
    · have := Nat.isDigit_of_mem_toDigits (by decide) (by decide) digit
      revert this
      decide

def tempPath (fname : Path) (rand : Nat) : Path := joinPath (dir fname) (tempName rand)

def renamedPath (fname : Path) (rand : Nat) : Path := dir fname ++ '/' :: tempPath fname rand

def FoundAgain (fname : Path) : Prop :=
  if (place (dir fname)).rooted then (place (dir fname)).names = []
  else (place (dir fname)).ups = (place (dir fname)).names.length

instance (fname : Path) : Decidable (FoundAgain fname) :=
  inferInstanceAs (Decidable (if (place (dir fname)).rooted then _ else _))

theorem renamedPath_iff (fname : Path) (rand : Nat) :
    place (renamedPath fname rand) = place (tempPath fname rand) ↔ FoundAgain fname := by
  have valid := place_valid (fname.rdropWhile (· != '/'))
  have twice : place (renamedPath fname rand) =
      ((place (dir fname)).join (place (dir fname))).child (tempName rand) := by
    rw [dir, place_clean]
    exact place_twice valid (tempName_isName rand)
  have once : place (tempPath fname rand) = (place (dir fname)).child (tempName rand) :=
    place_joinPath (path_ne_nil valid) (tempName_isName rand)
  rw [twice, once, child_inj, join_self_iff (place_valid _)]
  rfl

example : FoundAgain "tox.save".toList ∧ FoundAgain "/tox.save".toList ∧
    FoundAgain "../etc/tox.save".toList ∧ ¬ FoundAgain "data/tox.save".toList := by decide

variable {fs : Files} {liveData : Bytes} {fname : Path} {rand : Nat} {o : Outcomes}

/-- The new data is in the file if no error is returned, the old or the new data otherwise. -/
structure Kept (fs : Files) (liveData : Bytes) (fname : Path) (r : Option Op × Files) : Prop where
  saved : r.1 = none → r.2 (place fname) = some liveData
  safe : r.1 ≠ none → ∀ old, fs (place fname) = some old →
    r.2 (place fname) = some old ∨ r.2 (place fname) = some liveData

/-- The old file is removed: it was found and read, its data is not the new data, and the
temporary file was made and written. -/
structure Removes (fs : Files) (liveData : Bytes) (fname : Path) (rand : Nat) (o : Outcomes) :
    Prop where
  stat : o.stat = true
  readFile : o.readFile = true
  differ : fs (place fname) ≠ some liveData
  tempFile : o.tempFile = true
  fresh : fs (place (tempPath fname rand)) = none
  write : o.write = none
  close : o.close = true
  remove : o.remove = true

/-- An existing file that is not found is not cut short when it is written, and one that is
removed is renamed from where the new data is. -/
structure Harmless (fs : Files) (liveData : Bytes) (fname : Path) (rand : Nat) (o : Outcomes)
    (old : Bytes) : Prop where
  unseen : o.stat = false → ∀ n, o.writeFile = .short n →
    liveData.take n = old ∨ liveData.take n = liveData
  renamed : Removes fs liveData fname rand o → o.rename = true ∧
    (FoundAgain fname ∨ fs (place (renamedPath fname rand)) = some liveData)

theorem kept_of_error {e : Op} {fs' : Files} (same : fs' (place fname) = fs (place fname)) :
    Kept fs liveData fname (some e, fs') :=
  ⟨fun h => (by cases h), fun _ old h => Or.inl (same.trans h)⟩

theorem writeSavedata_unseen (h : fileExist fs fname o.stat = false) :
    writeSavedata fs liveData fname rand o = writeFile fs liveData fname o.writeFile := by
  rw [writeSavedata, h]
  rfl

theorem kept_of_missing (missing : fs (place fname) = none) :
    Kept fs liveData fname (writeSavedata fs liveData fname rand o) := by
  rw [writeSavedata_unseen (by rw [fileExist, missing]; exact Bool.and_false _)]
  refine ⟨?_, fun _ old here => (by cases missing.symm.trans here)⟩
  cases o.writeFile with
  | written => exact fun _ => Function.update_self ..
  | notOpened => exact fun h => (by cases h)
  | short n => exact fun h => (by cases h)

theorem kept_unseen_iff (here : fs (place fname) = some old) (unseen : o.stat = false) :
    Kept fs liveData fname (writeSavedata fs liveData fname rand o) ↔
      ∀ n, o.writeFile = .short n → liveData.take n = old ∨ liveData.take n = liveData := by
  rw [writeSavedata_unseen (by rw [fileExist, unseen]; rfl)]
  cases o.writeFile with
  | written =>
    refine iff_of_true ⟨fun _ => Function.update_self .., fun h => absurd rfl h⟩ ?_
    exact fun n h => (by cases h)
  | notOpened => exact iff_of_true (kept_of_error rfl) fun n h => (by cases h)
  | short n =>
    have cut : (writeFile fs liveData fname (.short n)).2 (place fname) =
        some (liveData.take n) := Function.update_self ..
    constructor
    · rintro kept m same
      obtain rfl := WriteOutcome.short.inj same
      have left := kept.safe (by simp [writeFile]) old here
      simpa only [cut, Option.some.injEq] using left
    · intro same
      refine ⟨fun h => (by cases h), fun _ old' here' => ?_⟩
      obtain rfl := Option.some.inj (here.symm.trans here')
      simpa only [cut, Option.some.injEq] using same n rfl

def withTemp (fs : Files) (liveData : Bytes) (fname : Path) (rand : Nat) : Files :=
  Function.update fs (place (tempPath fname rand)) (some liveData)

theorem place_ne_temp (here : fs (place fname) = some old)
    (fresh : fs (place (tempPath fname rand)) = none) :
    place fname ≠ place (tempPath fname rand) := by
  intro same
  rw [same, fresh] at here
  cases here

theorem renamed_data_iff (differ : fs (place fname) ≠ some liveData)
    (other : place fname ≠ place (tempPath fname rand)) :
    Function.update (withTemp fs liveData fname rand) (place fname) none
        (place (renamedPath fname rand)) = some liveData ↔
      FoundAgain fname ∨ fs (place (renamedPath fname rand)) = some liveData := by
  by_cases again : FoundAgain fname
  · refine iff_of_true ?_ (Or.inl again)
    rw [(renamedPath_iff fname rand).mpr again, Function.update_of_ne other.symm]
    exact Function.update_self ..
  · have elsewhere : place (renamedPath fname rand) ≠ place (tempPath fname rand) :=
      fun same => again ((renamedPath_iff fname rand).mp same)
    rw [or_iff_right again]
    by_cases old : place (renamedPath fname rand) = place fname
    · grind
    · rw [Function.update_of_ne old, withTemp, Function.update_of_ne elsewhere]

theorem kept_moveFile_iff (here : fs (place fname) = some old)
    (differ : fs (place fname) ≠ some liveData) (other : place fname ≠ place (tempPath fname rand))
    (removed : o.remove = true) :
    Kept fs liveData fname
        (moveFile (withTemp fs liveData fname rand) fname (tempPath fname rand) o) ↔
      o.rename = true ∧
        (FoundAgain fname ∨ fs (place (renamedPath fname rand)) = some liveData) := by
  have still : (withTemp fs liveData fname rand (place fname)).isSome := by
    rw [withTemp, Function.update_of_ne other, here]
    rfl
  rw [← renamed_data_iff differ other, moveFile, remove, if_pos ⟨removed, still⟩]
  show Kept fs liveData fname (match rename _ (renamedPath fname rand) fname o.rename with
    | none => (some .rename, _)
    | some fs => (none, fs)) ↔ _
  have missing : Function.update (withTemp fs liveData fname rand) (place fname) none
      (place fname) = none := Function.update_self ..
  generalize Function.update (withTemp fs liveData fname rand) (place fname) none = gone at missing
  have lost : ¬ Kept fs liveData fname (some .rename, gone) := by
    intro kept
    rcases kept.safe (by simp) old here with h | h
    · cases missing.symm.trans h
    · cases missing.symm.trans h
  unfold rename
  cases o.rename with
  | false => exact iff_of_false lost fun h => (by cases h.1)
  | true =>
    rw [if_pos rfl]
    cases found : gone (place (renamedPath fname rand)) with
    | none => exact iff_of_false lost fun h => (by cases h.2)
    | some data =>
      have now : Function.update (Function.update gone (place (renamedPath fname rand)) none)
          (place fname) (some data) (place fname) = some data := Function.update_self ..
      refine ⟨fun kept => ⟨rfl, now.symm.trans (kept.saved rfl)⟩, fun same => ?_⟩
      exact ⟨fun _ => now.trans same.2, fun h => absurd rfl h⟩

theorem replaceFile_of_failed
    (temp : ¬ (o.tempFile = true ∧ fs (place (tempPath fname rand)) = none)) :
    replaceFile fs liveData fname rand o = (some .tempFile, fs) := by
  rw [replaceFile, tempFile, ← tempPath, if_neg temp]

theorem replaceFile_of_temp
    (temp : o.tempFile = true ∧ fs (place (tempPath fname rand)) = none) :
    replaceFile fs liveData fname rand o = match o.write with
      | some n => (some .write, withTemp fs (liveData.take n) fname rand)
      | none =>
        if o.close then
          moveFile (withTemp fs liveData fname rand) fname (tempPath fname rand) o
        else (some .close, withTemp fs liveData fname rand) := by
  rw [replaceFile, tempFile, ← tempPath, if_pos temp]
  simp only [Function.update_idem, withTemp]

theorem kept_replaceFile_iff (here : fs (place fname) = some old) (seen : o.stat = true)
    (read : o.readFile = true) (differ : fs (place fname) ≠ some liveData) :
    Kept fs liveData fname (replaceFile fs liveData fname rand o) ↔
      (Removes fs liveData fname rand o → o.rename = true ∧
        (FoundAgain fname ∨ fs (place (renamedPath fname rand)) = some liveData)) := by
  by_cases temp : o.tempFile = true ∧ fs (place (tempPath fname rand)) = none
  · have other := place_ne_temp here temp.2
    have still : ∀ data, withTemp fs data fname rand (place fname) = fs (place fname) :=
      fun data => Function.update_of_ne other ..
    rw [replaceFile_of_temp temp]
    cases write : o.write with
    | some n =>
      refine iff_of_true (kept_of_error (still _)) fun r => ?_
      cases write.symm.trans r.write
    | none =>
      by_cases close : o.close = true
      · simp only [if_pos close]
        by_cases removed : o.remove = true
        · have all : Removes fs liveData fname rand o :=
            ⟨seen, read, differ, temp.1, temp.2, write, close, removed⟩
          rw [forall_prop_of_true all]
          exact kept_moveFile_iff here differ other removed
        · refine iff_of_true ?_ fun r => absurd r.remove removed
          rw [moveFile, remove, if_neg fun h => removed h.1]
          exact kept_of_error (still _)
      · simp only [if_neg close]
        exact iff_of_true (kept_of_error (still _)) fun r => absurd r.close close
  · rw [replaceFile_of_failed temp]
    exact iff_of_true (kept_of_error rfl) fun r => absurd ⟨r.tempFile, r.fresh⟩ temp

theorem kept_seen_iff (here : fs (place fname) = some old) (seen : o.stat = true) :
    Kept fs liveData fname (writeSavedata fs liveData fname rand o) ↔
      (Removes fs liveData fname rand o → o.rename = true ∧
        (FoundAgain fname ∨ fs (place (renamedPath fname rand)) = some liveData)) := by
  have exists_ : fileExist fs fname o.stat = true := by rw [fileExist, seen, here]; rfl
  rw [writeSavedata, if_pos exists_]
  by_cases read : o.readFile = true
  · rw [if_pos read]
    by_cases same : fs (place fname) = some liveData
    · rw [if_pos same]
      exact iff_of_true ⟨fun _ => same, fun h => absurd rfl h⟩ fun r => absurd same r.differ
    · rw [if_neg same]
      exact kept_replaceFile_iff here seen read same
  · rw [if_neg read]
    exact iff_of_true (kept_of_error rfl) fun r => absurd r.readFile read

/-- For every path, every content, every new data and every choice of the operations that fail:
the file has the new data if no error is returned, and the old or the new data if one is, exactly
when there was no file or the conditions of `Harmless` are met. -/
theorem savedata_kept_iff (fs : Files) (liveData : Bytes) (fname : Path) (rand : Nat)
    (o : Outcomes) :
    Kept fs liveData fname (writeSavedata fs liveData fname rand o) ↔
      ∀ old, fs (place fname) = some old → Harmless fs liveData fname rand o old := by
  cases here : fs (place fname) with
  | none => exact iff_of_true (kept_of_missing here) fun old h => (by cases h)
  | some old =>
    simp only [Option.some.injEq, forall_eq']
    cases seen : o.stat with
    | true =>
      rw [kept_seen_iff here seen]
      exact ⟨fun h => ⟨fun unseen => (by cases seen.symm.trans unseen), h⟩, fun h => h.renamed⟩
    | false =>
      rw [kept_unseen_iff here seen]
      refine ⟨fun h => ⟨fun _ => h, fun r => ?_⟩, fun h => h.unseen seen⟩
      cases seen.symm.trans r.stat

def allSucceed : Outcomes := ⟨true, .written, true, true, none, true, true, true⟩

def oneProfile (fname : Path) (data : Bytes) : Files :=
  Function.update (fun _ => none) (place fname) (some data)

/-- No operation is made to fail, but the temporary file is looked for in `data/data`: an error
is returned and the profile is gone. -/
theorem profile_in_directory_lost : ∃ e fs,
    oneProfile "data/tox.save".toList [1] (place "data/tox.save".toList) = some [1] ∧
    writeSavedata (oneProfile "data/tox.save".toList [1]) [2] "data/tox.save".toList 7
      allSucceed = (some e, fs) ∧
    fs (place "data/tox.save".toList) = none := by
  refine ⟨.rename, _, by decide +kernel, Prod.ext (by decide +kernel) rfl, by decide +kernel⟩

end Xtox
