import Patchwork.Command.Folder
import Patchwork.Proofs.Outcome

/-!
# Written files

A file that is put in a folder is found at its place, and at every other place the folder is what it
was. The directories on the way are still there, so the path that led to the place still does.
-/

namespace Patchwork

namespace Command

/-- All entries of one key get a new value. -/
theorem lookup_map_entry {A B : Type} [DecidableEq A] (key k : A) (value : B)
    (entries : List (A × B)) :
    (entries.map fun entry => if entry.1 = key then (key, value) else entry).lookup k =
      if k = key then (entries.lookup k).map fun _ => value else entries.lookup k := by
  induction entries with
  | nil => simp
  | cons entry entries ih =>
    obtain ⟨name, old⟩ := entry
    rw [List.map_cons]
    by_cases here : k = name
    · subst here
      by_cases same : k = key <;> simp [same]
    · have other : (k == name) = false := beq_eq_false_iff_ne.2 here
      by_cases same : name = key
      · subst same
        simp [other, here, List.lookup_cons, ih]
      · simp [same, other, List.lookup_cons, ih]

namespace Folder

variable {folder : Folder} {place other : Place}

theorem put_of_found {old : ByteArray} (found : folder.find? place = some old) (bytes : ByteArray) :
    folder.put place bytes = { folder with
      files := folder.files.map fun file => if file.1 = place then (place, bytes) else file } := by
  rw [put, found]

theorem put_of_not_found (absent : folder.find? place = none) (bytes : ByteArray) :
    folder.put place bytes = { folder with files := folder.files ++ [(place, bytes)] } := by
  rw [put, absent]

theorem find?_put_self (folder : Folder) (place : Place) (bytes : ByteArray) :
    (folder.put place bytes).find? place = some bytes := by
  cases found : folder.find? place with
  | none =>
    rw [put_of_not_found found, find?, List.lookup_append]
    change (folder.find? place).or _ = _
    rw [found]
    simp
  | some old =>
    rw [put_of_found found, find?, lookup_map_entry, if_pos rfl]
    exact congrArg _ found

theorem find?_put_of_ne (folder : Folder) (bytes : ByteArray) (apart : other ≠ place) :
    (folder.put place bytes).find? other = folder.find? other := by
  cases found : folder.find? place with
  | none =>
    have absent : [(place, bytes)].lookup other = none := by
      rw [List.lookup_cons, beq_eq_false_iff_ne.2 apart]
      rfl
    rw [put_of_not_found found, find?, List.lookup_append, absent, Option.or_none]
    rfl
  | some old =>
    rw [put_of_found found, find?, lookup_map_entry, if_neg apart]
    rfl

theorem exists_put_of_mem {file : Place × ByteArray} (member : file ∈ folder.files)
    (place : Place) (bytes : ByteArray) :
    ∃ kept ∈ (folder.put place bytes).files, kept.1 = file.1 := by
  cases found : folder.find? place with
  | none =>
    rw [put_of_not_found found]
    exact ⟨file, List.mem_append_left _ member, rfl⟩
  | some old =>
    rw [put_of_found found]
    refine ⟨_, List.mem_map_of_mem member, ?_⟩
    split
    · next same => exact same.symm
    · rfl

theorem isDirectory_put (kept : folder.isDirectory other = true) (place : Place)
    (bytes : ByteArray) : (folder.put place bytes).isDirectory other = true := by
  rw [isDirectory, Bool.or_eq_true, List.any_eq_true] at kept ⊢
  refine kept.imp_right ?_
  rintro ⟨file, member, leads⟩
  obtain ⟨file', member', same⟩ := exists_put_of_mem member place bytes
  rw [← same] at leads
  exact ⟨file', member', leads⟩

theorem directory_iff :
    folder.entry? other = some .directory ↔
      folder.find? other = none ∧ folder.isDirectory other = true := by
  unfold entry?
  cases folder.find? other <;> simp

/-- A directory is not overwritten, so it is there after the writing as it was before. -/
theorem directory_put (free : folder.entry? place ≠ some .directory)
    (directory : folder.entry? other = some .directory) (bytes : ByteArray) :
    Folder.entry? (folder.put place bytes) other = some .directory := by
  have apart : other ≠ place := by
    rintro rfl
    exact free directory
  obtain ⟨absent, kept⟩ := directory_iff.1 directory
  refine directory_iff.2 ⟨?_, isDirectory_put kept place bytes⟩
  rw [find?_put_of_ne folder bytes apart, absent]

theorem step_eq_ok {name : String} {next : Place} :
    folder.step place name = .ok next ↔ folder.entry? place = some .directory ∧
      (if name = "." then .ok place
        else if name = ".." then .ok place.parent
        else if Path.longestName < name.utf8ByteSize then .error .nameTooLong
        else .ok (place.child name)) = (.ok next : Except Trouble Place) := by
  rw [step]
  cases folder.entry? place with
  | none => simp
  | some entry => cases entry <;> simp

theorem walk_put {path : String} {names : List String} {next : Place}
    (free : folder.entry? place ≠ some .directory) (walked : folder.walk path names = .ok next)
    (bytes : ByteArray) : (folder.put place bytes).walk path names = .ok next := by
  have steps (names : List String) (start : Place) :
      names.foldlM folder.step start = .ok next →
        names.foldlM (folder.put place bytes).step start = .ok next := by
    induction names generalizing start with
    | nil => exact id
    | cons name names ih =>
      rw [foldlM_cons_eq_ok, foldlM_cons_eq_ok]
      rintro ⟨middle, now, later⟩
      obtain ⟨directory, done⟩ := step_eq_ok.1 now
      exact ⟨middle, step_eq_ok.2 ⟨directory_put free directory bytes, done⟩, ih middle later⟩
  rw [walk] at walked ⊢
  split at walked
  · cases walked
  · next nonempty =>
    split at walked
    · cases walked
    · next short =>
      rw [if_neg nonempty, if_neg short]
      exact steps names _ walked

theorem target_eq_ok {path : String} : folder.target path = .ok place ↔
    Path.endsInSlash path = false ∧ folder.walk path (Path.names path) = .ok place ∧
      folder.entry? place ≠ some .directory ∧ folder.refusal place = none := by
  cases slash : Path.endsInSlash path with
  | true =>
    rw [target, slash, if_pos rfl, bind_eq_ok]
    simp
  | false =>
    rw [target, slash]
    change (folder.walk path (Path.names path) >>= _) = _ ↔ _
    rw [bind_eq_ok]
    constructor
    · rintro ⟨found, walked, allowed⟩
      split at allowed
      · cases allowed
      · cases allowed
      · next accepted free =>
        cases allowed
        exact ⟨rfl, walked, free, accepted⟩
    · rintro ⟨-, walked, free, accepted⟩
      refine ⟨place, walked, ?_⟩
      rw [accepted]
      split
      · contradiction
      · contradiction
      · rfl

end Folder

end Command

end Patchwork
