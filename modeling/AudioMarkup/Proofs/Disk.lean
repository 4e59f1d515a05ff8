import AudioMarkup.Disk
import Mathlib.Data.List.Infix

/-!
Disks that differ in one place. A path is followed from folder to folder, so disks with the same
folders let the same paths through. `Disk.writeText` puts a file in one place and leaves the others
as they are; in particular, no folder comes or goes with it.
-/

namespace AudioMarkup.Disk

/-! ### Results without their faults -/

section Results

variable {ε α β : Type}

theorem toOption_bind (first : Except ε α) (next : α → Except ε β) :
    (first >>= next).toOption = first.toOption.bind fun value => (next value).toOption := by
  cases first with
  | error _ => rfl
  | ok _ => rfl

theorem toOption_eq_some_iff {result : Except ε α} {value : α} :
    result.toOption = some value ↔ result = .ok value := by
  cases result with
  | error _ => simp [Except.toOption]
  | ok _ => simp [Except.toOption]

end Results

/-! ### Following paths -/

variable {disk first second : Disk}

theorem enter_eq_ok_iff {names after : List String} {part : String} :
    disk.enter names part = .ok after ↔
      disk.entryAt? names = some .folder ∧ part.utf8ByteSize ≤ 255 ∧ after = follow names part := by
  unfold enter
  cases disk.entryAt? names with
  | none => simp [throw, throwThe, MonadExceptOf.throw]
  | some entry =>
      cases entry with
      | file content => simp [throw, throwThe, MonadExceptOf.throw]
      | folder =>
          by_cases long : 255 < part.utf8ByteSize
          · simp [long, Nat.not_le.mpr long, throw, throwThe, MonadExceptOf.throw]
          · simp [long, pure, Except.pure, Nat.not_lt.mp long, eq_comm]

theorem foldlM_enter_eq_ok {names after : List String} {way : List String}
    (followed : way.foldlM disk.enter names = .ok after) : after = way.foldl follow names := by
  induction way generalizing names with
  | nil =>
      cases followed
      rfl
  | cons part way ih =>
      rw [List.foldlM_cons] at followed
      cases entered : disk.enter names part with
      | error fault =>
          rw [entered] at followed
          cases followed
      | ok between =>
          rw [entered] at followed
          rw [List.foldl_cons, ← (enter_eq_ok_iff.mp entered).2.2]
          exact ih followed

def SameFolders (first second : Disk) : Prop :=
  ∀ names, first.entryAt? names = some .folder ↔ second.entryAt? names = some .folder

theorem SameFolders.enter (same : SameFolders first second) (names : List String) (part : String) :
    (first.enter names part).toOption = (second.enter names part).toOption := by
  ext after
  rw [toOption_eq_some_iff, toOption_eq_some_iff, enter_eq_ok_iff,
    enter_eq_ok_iff, same names]

theorem SameFolders.foldlM (same : SameFolders first second) (way names : List String) :
    (way.foldlM first.enter names).toOption = (way.foldlM second.enter names).toOption := by
  induction way generalizing names with
  | nil => rfl
  | cons part way ih =>
      rw [List.foldlM_cons, List.foldlM_cons, toOption_bind, toOption_bind, same.enter]
      simp only [ih]

def allows (path : String) : Entry → Bool
  | .file _ => !endsInSlash path
  | .folder => true

theorem toOption_find (disk : Disk) (path : String) :
    (disk.find path).toOption =
      (checkPath path).toOption.bind fun _ =>
        ((parts path).foldlM disk.enter (origin path)).toOption.bind fun names =>
          (disk.entryAt? names).filter (allows path) := by
  rw [find, toOption_bind]
  congr 1
  funext _
  rw [toOption_bind]
  congr 1
  funext names
  cases disk.entryAt? names with
  | none => rfl
  | some entry =>
      cases entry with
      | folder => rfl
      | file content =>
          by_cases slash : endsInSlash path = true
          · simp [slash, allows, Option.filter, throw, throwThe, MonadExceptOf.throw,
              Except.toOption]
          · simp [slash, allows, Option.filter, pure, Except.pure, Except.toOption]

theorem contains_of_absent {path : String} (absent : disk.entryAt? (names path) = none) :
    disk.contains path = false := by
  have nothing : (disk.find path).toOption = none := by
    rw [toOption_find, Option.bind_eq_none_iff]
    intro _ _
    rw [Option.bind_eq_none_iff]
    intro after followed
    have ended : after = names path := foldlM_enter_eq_ok (toOption_eq_some_iff.mp followed)
    rw [ended, absent]
    rfl
  rw [contains]
  cases found : disk.find path with
  | error _ => rfl
  | ok entry =>
      rw [found] at nothing
      cases nothing

theorem toOption_target (disk : Disk) (path : String) :
    (disk.target path).toOption =
      (checkPath path).toOption.bind fun _ =>
        ((parts path).dropLast.foldlM disk.enter (origin path)).toOption.bind fun folder =>
          if endsInFolder path then none
          else
            (disk.enter folder ((parts path).getLast?.getD ".")).toOption.filter fun names =>
              disk.entryAt? names != some .folder := by
  rw [target, toOption_bind]
  congr 1
  funext _
  rw [toOption_bind]
  congr 1
  funext folder
  by_cases ends : endsInFolder path = true
  · rw [if_pos ends, if_pos ends]
    cases disk.enter folder "." with
    | error _ => rfl
    | ok _ => rfl
  · rw [if_neg ends, if_neg ends, toOption_bind]
    cases (disk.enter folder ((parts path).getLast?.getD ".")).toOption with
    | none => rfl
    | some names =>
        by_cases isFolder : disk.entryAt? names = some .folder
        · simp [isFolder, Option.filter, throw, throwThe, MonadExceptOf.throw, bind, Except.bind,
            Except.toOption]
        · simp [isFolder, Option.filter, pure, Except.pure, Except.toOption]

theorem SameFolders.find (same : SameFolders first second) {path : String}
    (entry : first.entryAt? (names path) = second.entryAt? (names path)) :
    (first.find path).toOption = (second.find path).toOption := by
  rw [toOption_find, toOption_find, same.foldlM]
  congr 1
  funext _
  cases followed : (parts path).foldlM second.enter (origin path) with
  | error _ => rfl
  | ok after =>
      have ended : after = names path := foldlM_enter_eq_ok followed
      simp only [Except.toOption, Option.bind_some, ended, entry]

theorem SameFolders.target (same : SameFolders first second) (path : String) :
    (first.target path).toOption = (second.target path).toOption := by
  have isFolder (names : List String) : (first.entryAt? names != some .folder) =
      (second.entryAt? names != some .folder) := by
    rw [Bool.eq_iff_iff, bne_iff_ne, bne_iff_ne]
    exact not_congr (same names)
  simp only [toOption_target, same.foldlM, same.enter, isFolder]

/-! ### Writing -/

def AgreeBut (place : List String) (first second : Disk) : Prop :=
  ∀ names, names ≠ place → first.entryAt? names = second.entryAt? names

theorem AgreeBut.sameFolders {place : List String} (agree : AgreeBut place first second)
    (noFolder : first.entryAt? place ≠ some .folder)
    (stillNone : second.entryAt? place ≠ some .folder) : SameFolders first second := by
  intro names
  by_cases here : names = place
  · rw [here]
    exact iff_of_false noFolder stillNone
  · rw [agree names here]

private theorem exists_last_of_not_endsInFolder {path : String} (ends : endsInFolder path = false) :
    endsInSlash path = false ∧
      ∃ last, (parts path).getLast? = some last ∧ last ≠ "." ∧ last ≠ ".." := by
  rw [endsInFolder, Bool.or_eq_false_iff] at ends
  refine ⟨ends.1, ?_⟩
  obtain ⟨_, noFolder⟩ := ends
  split at noFolder
  · cases noFolder
  · cases noFolder
  · cases noFolder
  · rename_i last notDot notDots found
    refine ⟨last, found, ?_, ?_⟩
    · rintro rfl
      exact notDot rfl
    · rintro rfl
      exact notDots rfl

/-- What is known of a place in which a file may be written. -/
theorem target_eq_ok {path : String} {place : List String} (found : disk.target path = .ok place) :
    checkPath path = .ok () ∧ (parts path).foldlM disk.enter (origin path) = .ok place ∧
      disk.entryAt? place ≠ some .folder ∧ endsInSlash path = false ∧
      ∃ folder name, place = folder ++ [name] ∧ disk.entryAt? folder = some .folder := by
  rw [← toOption_eq_some_iff, toOption_target] at found
  obtain ⟨_, checked, found⟩ := Option.bind_eq_some_iff.mp found
  obtain ⟨folder, followed, found⟩ := Option.bind_eq_some_iff.mp found
  by_cases ends : endsInFolder path = true
  · rw [if_pos ends] at found
    cases found
  · rw [if_neg ends, Option.filter_eq_some_iff, toOption_eq_some_iff] at found
    rw [toOption_eq_some_iff] at checked followed
    obtain ⟨entered, noFolder⟩ := found
    obtain ⟨noSlash, last, atLast, notDot, notDots⟩ :=
      exists_last_of_not_endsInFolder (Bool.not_eq_true _ ▸ ends)
    rw [atLast, Option.getD_some] at entered
    obtain ⟨inFolder, _, ended⟩ := enter_eq_ok_iff.mp entered
    have whole : (parts path).foldlM disk.enter (origin path) = .ok place := by
      rw [← List.dropLast_append_getLast? last atLast, List.foldlM_append, followed]
      show List.foldlM disk.enter folder [last] = _
      rw [List.foldlM_cons, entered]
      rfl
    have here : place = folder ++ [last] := by
      rw [ended, follow, if_neg (by simpa using notDot), if_pos (by simpa using notDots)]
    exact ⟨checked, whole, by simpa using noFolder, noSlash, folder, last, here, inFolder⟩

/-- The names lead to a folder without an entry of its own. -/
def isImplied (disk : Disk) (names : List String) : Bool :=
  names.all (· == "..") || names == ["/"] ||
    disk.entries.any fun (key, _) => names.isPrefixOf key

theorem entryAt?_eq (disk : Disk) (names : List String) :
    disk.entryAt? names = (disk.entries.lookup names).or
      (if disk.isImplied names then some .folder else none) := by
  unfold entryAt? isImplied
  cases disk.entries.lookup names with
  | none => rfl
  | some entry => rfl

theorem isImplied_iff {names : List String} :
    disk.isImplied names = true ↔
      ((∀ name ∈ names, name = "..") ∨ names = ["/"]) ∨
        ∃ entry ∈ disk.entries, names <+: entry.1 := by
  simp only [isImplied, Bool.or_eq_true, List.all_eq_true, List.any_eq_true, beq_iff_eq,
    List.isPrefixOf_iff_prefix]

/-- What is on the way to a folder exists. -/
theorem isImplied_above_folder {names folder : List String}
    (isFolder : disk.entryAt? folder = some .folder) (onTheWay : names <+: folder) :
    disk.isImplied names = true := by
  rw [isImplied_iff]
  rw [entryAt?_eq] at isFolder
  cases found : disk.entries.lookup folder with
  | some entry =>
      obtain ⟨before, behind, split, _⟩ := List.lookup_eq_some_iff.mp found
      exact .inr ⟨(folder, entry), by simp [split], onTheWay⟩
  | none =>
      have implied : disk.isImplied folder = true := by
        rw [found, Option.none_or] at isFolder
        by_cases implied : disk.isImplied folder = true
        · exact implied
        · rw [if_neg implied] at isFolder
          cases isFolder
      rcases isImplied_iff.mp implied with (upwards | root) | ⟨entry, member, leads⟩
      · exact .inl (.inl fun name member => upwards name (onTheWay.subset member))
      · rw [root, List.prefix_cons_iff] at onTheWay
        rcases onTheWay with rfl | ⟨rest, rfl, ends⟩
        · exact .inl (.inl (by simp))
        · exact .inl (.inr (by rw [List.prefix_nil.mp ends]))
      · exact .inr ⟨entry, member, onTheWay.trans leads⟩

private theorem lookup_filter_ne {place names : List String} (elsewhere : names ≠ place)
    (entries : List (List String × Entry)) :
    (entries.filter (·.1 != place)).lookup names = entries.lookup names := by
  induction entries with
  | nil => rfl
  | cons entry entries ih =>
      by_cases here : entry.1 = place
      · have other : (names == entry.1) = false := by
          rw [beq_eq_false_iff_ne, here]
          exact elsewhere
        rw [List.filter_cons_of_neg (by simp [here]), ih, List.lookup_cons, other]
      · rw [List.filter_cons_of_pos (by simp [here]), List.lookup_cons, List.lookup_cons, ih]

/-- A file in a place that a folder can hold leaves all other places as they are. -/
theorem agreeBut_of_folder {folder : List String} {name : String} (entry : Entry)
    (isFolder : disk.entryAt? folder = some .folder) :
    AgreeBut (folder ++ [name]) disk
      { entries := (folder ++ [name], entry) ::
          disk.entries.filter (·.1 != folder ++ [name]) } := by
  intro names elsewhere
  have other : (names == folder ++ [name]) = false := beq_eq_false_iff_ne.mpr elsewhere
  have implied : disk.isImplied names = isImplied
      { entries := (folder ++ [name], entry) ::
          disk.entries.filter (·.1 != folder ++ [name]) } names := by
    rw [Bool.eq_iff_iff, isImplied_iff, isImplied_iff]
    constructor
    · rintro (always | ⟨key, member, leads⟩)
      · exact .inl always
      · by_cases here : key.1 = folder ++ [name]
        · exact .inr ⟨(folder ++ [name], entry), by simp, here ▸ leads⟩
        · exact .inr ⟨key, by simp [member, here], leads⟩
    · rintro (always | ⟨key, member, leads⟩)
      · exact .inl always
      · rcases List.mem_cons.mp member with rfl | kept
        · rcases List.prefix_concat_iff.mp leads with same | onTheWay
          · exact absurd same elsewhere
          · exact isImplied_iff.mp (isImplied_above_folder isFolder onTheWay)
        · exact .inr ⟨key, (List.mem_filter.mp kept).1, leads⟩
  rw [entryAt?_eq, entryAt?_eq, List.lookup_cons, other, lookup_filter_ne elsewhere, implied]

structure Writes (disk : Disk) (path text : String) (after : Disk) : Prop where
  agree : AgreeBut (names path) disk after
  noFolder : disk.entryAt? (names path) ≠ some .folder
  entry : after.entryAt? (names path) = some (.file text.toUTF8)
  found : after.find path = .ok (.file text.toUTF8)

theorem writes_of_writeText {path text : String} {after : Disk}
    (written : disk.writeText path text = .ok after) : Writes disk path text after := by
  unfold writeText at written
  cases found : disk.target path with
  | error fault =>
      rw [found] at written
      cases written
  | ok place =>
      have made : after = { entries := (place, .file text.toUTF8) ::
          disk.entries.filter (·.1 != place) } := by
        rw [found] at written
        exact (Except.ok.inj written).symm
      obtain ⟨checked, followed, noFolder, noSlash, folder, name, split, isFolder⟩ :=
        target_eq_ok found
      have agree : AgreeBut place disk after := by
        rw [made, split]
        exact agreeBut_of_folder _ isFolder
      have entry : after.entryAt? place = some (.file text.toUTF8) := by
        rw [made, entryAt?_eq, List.lookup_cons_self]
        rfl
      have same : SameFolders disk after := agree.sameFolders noFolder (by rw [entry]; simp)
      have reached : after.find path = .ok (.file text.toUTF8) := by
        rw [← toOption_eq_some_iff, toOption_find, ← same.foldlM, followed, checked]
        simp [Except.toOption, entry, allows, noSlash]
      rw [foldlM_enter_eq_ok followed] at agree noFolder entry
      exact ⟨agree, noFolder, entry, reached⟩

theorem isSome_writeText (disk : Disk) (path text : String) :
    (disk.writeText path text).toOption.isSome = (disk.target path).toOption.isSome := by
  unfold writeText
  cases disk.target path with
  | error _ => rfl
  | ok _ => rfl

theorem Writes.readText {path text : String} {after : Disk}
    (writes : Writes disk path text after) : after.readText path = .ok text := by
  rw [Disk.readText, writes.found]
  have decoded : String.fromUTF8? text.toUTF8 = some text := dif_pos text.isValidUTF8
  show decodeText text.toUTF8 = _
  rw [decodeText, decoded]
  rfl

end AudioMarkup.Disk
