import Cartridge.FileTree.Disk

/-!
# Files that were written

A file that was written is found again at the path under which it was written: the folders that the
path leads through stay folders, and what may be entered stays so.

* `at?_put_folder`: a folder stays a folder where something that is none is put.
* `follow_put`: a path leads to the same place after that.
* `readText_writeText`: a text that was written is read again.
-/

namespace Cartridge

namespace FileTree

theorem at?_folder_cons (es : List (String × FileTree)) (mode : Nat) (name : String)
    (rest : List String) : (FileTree.folder es mode).at? (name :: rest) =
      (Entries.get? es name).bind fun next => next.at? rest := by
  rw [at?, child?, entries]
  cases Entries.get? es name <;> rfl

/-- A folder stays a folder with its permission bits if something is put where no folder is. -/
theorem at?_put_folder {t new : FileTree} {names place : List String}
    {es : List (String × FileTree)} {mode : Nat} (hplace : t.at? place = some (.folder es mode))
    (hnames : ∀ es mode, t.at? names ≠ some (.folder es mode)) :
    ∃ es, (t.put names new).at? place = some (.folder es mode) := by
  induction names generalizing t place with
  | nil =>
    cases t with
    | folder es mode => exact absurd rfl (hnames es mode)
    | file bytes mode =>
      cases place with
      | nil => cases hplace
      | cons name rest => cases hplace
  | cons name rest ih =>
    cases t with
    | file bytes mode => exact ⟨es, hplace⟩
    | folder all mode' =>
      cases place with
      | nil =>
        cases hplace
        exact ⟨_, rfl⟩
      | cons first others =>
        rw [at?_folder_cons] at hplace
        obtain ⟨next, hnext, hplace⟩ := Option.bind_eq_some_iff.mp hplace
        rw [put, at?_folder_cons]
        by_cases hfirst : first = name
        · subst hfirst
          rw [Entries.get?_put_self, hnext]
          refine ih hplace fun es mode hrest => hnames es mode ?_
          rw [at?_folder_cons, hnext]
          exact hrest
        · rw [Entries.get?_put_of_ne _ _ hfirst, hnext]
          exact ⟨es, hplace⟩

end FileTree

namespace Disk

variable {t new : FileTree} {names place : List String}

/-! ## Paths -/

theorem step_ok {part : String} {next : List String} (h : step t place part = .ok next) :
    ∃ es mode, t.at? place = some (.folder es mode) ∧
      (FileTree.folder es mode).allows .enter = true ∧ part.utf8ByteSize ≤ longestName ∧
      next = if part = ".." then place.dropLast else place ++ [part] := by
  unfold step at h
  split at h
  · cases h
  rename_i f hf
  split at h
  · cases h
  rename_i hfolder
  split at h
  · cases h
  rename_i henter
  split at h
  · cases h
  rename_i hname
  cases f with
  | file bytes mode => exact absurd rfl hfolder
  | folder es mode =>
    refine ⟨es, mode, hf, by simpa using henter, by omega, ?_⟩
    cases h
    rfl

theorem step_of_folder {part : String} {es : List (String × FileTree)} {mode : Nat}
    (hplace : t.at? place = some (.folder es mode))
    (henter : (FileTree.folder es mode).allows .enter = true)
    (hname : part.utf8ByteSize ≤ longestName) :
    step t place part = .ok (if part = ".." then place.dropLast else place ++ [part]) := by
  rw [step, hplace]
  dsimp only
  rw [if_neg (by simp [FileTree.isFolder]), if_neg (by simp [henter]), if_neg (by omega)]

/-- A path leads to the same place after something is put where no folder is. -/
theorem follow_put (hnames : ∀ es mode, t.at? names ≠ some (.folder es mode)) (new : FileTree)
    {parts found : List String} (h : follow t place parts = .ok found) :
    follow (t.put names new) place parts = .ok found := by
  induction parts generalizing place with
  | nil => exact h
  | cons part rest ih =>
    rw [follow] at h ⊢
    cases hstep : step t place part with
    | error e =>
      rw [hstep] at h
      cases h
    | ok next =>
      rw [hstep] at h
      obtain ⟨es, mode, hplace, henter, hname, rfl⟩ := step_ok hstep
      obtain ⟨es', hplace'⟩ : ∃ es', (t.put names new).at? place = some (.folder es' mode) :=
        FileTree.at?_put_folder hplace hnames
      rw [step_of_folder hplace' henter hname]
      exact ih h

/-- Every place above a place is a folder. -/
def Open (t : FileTree) (place : List String) : Prop :=
  ∀ n < place.length, ∃ es mode, t.at? (place.take n) = some (.folder es mode)

theorem open_of_follow (hopen : Open t place) {parts found : List String}
    (h : follow t place parts = .ok found) : Open t found := by
  induction parts generalizing place with
  | nil =>
    cases h
    exact hopen
  | cons part rest ih =>
    rw [follow] at h
    cases hstep : step t place part with
    | error e =>
      rw [hstep] at h
      cases h
    | ok next =>
      rw [hstep] at h
      obtain ⟨es, mode, hplace, -, -, rfl⟩ := step_ok hstep
      refine ih ?_ h
      split
      · intro n hn
        rw [List.length_dropLast] at hn
        rw [List.dropLast_eq_take, List.take_take, Nat.min_eq_left (by omega)]
        exact hopen n (by omega)
      · intro n hn
        rw [List.length_append, List.length_singleton] at hn
        by_cases hlast : n = place.length
        · rw [hlast, List.take_left]
          exact ⟨es, mode, hplace⟩
        · rw [List.take_append_of_le_length (by omega)]
          exact hopen n (by omega)

/-! ## Writing and reading -/

variable {d d' : Disk} {p : Path} {bytes : ByteArray}

/-- What is written stands where its path leads, with the permission bits of the file that was there
or of a new one. -/
theorem write_ok (h : write p bytes d = (.ok (), d')) :
    ∃ names mode, d.locate p = .ok names ∧
      (∀ es mode, d.root.at? names ≠ some (.folder es mode)) ∧
      (mode = FileTree.fileMode ∨ ∃ old, d.root.at? names = some (.file old mode)) ∧
      d' = d.putAt names (.file bytes mode) := by
  unfold write at h
  cases hlocate : d.locate p with
  | error e => simp [bind, Run.andThen, Run.get, Run.ofExcept, hlocate] at h
  | ok names =>
    simp only [bind, Run.andThen, Run.get, Run.ofExcept, hlocate] at h
    cases hthere : d.root.at? names with
    | none =>
      simp only [hthere] at h
      split at h
      · refine ⟨names, FileTree.fileMode, rfl, fun es mode hfolder => ?_, .inl rfl,
          (congrArg Prod.snd h).symm⟩
        rw [hthere] at hfolder
        cases hfolder
      · cases h
    | some t =>
      cases t with
      | folder es mode => simp [hthere, Run.stop] at h
      | file old mode =>
        simp only [hthere] at h
        split at h
        · refine ⟨names, mode, rfl, fun es mode hfolder => ?_, .inr ⟨old, hthere⟩,
            (congrArg Prod.snd h).symm⟩
          rw [hthere] at hfolder
          cases hfolder
        · cases h

/-- A file that was written is found at its path. -/
theorem entry_of_write (h : write p bytes d = (.ok (), d')) :
    ∃ mode, d'.entry p = .ok (.file bytes mode) ∧
      (mode = FileTree.fileMode ∨ ∃ old, d.entry p = .ok (.file old mode)) := by
  obtain ⟨names, mode, hlocate, hnames, hmode, rfl⟩ := write_ok h
  have hmode : mode = FileTree.fileMode ∨ ∃ old, d.entry p = .ok (.file old mode) := by
    refine hmode.imp id fun ⟨old, hold⟩ => ⟨old, ?_⟩
    rw [entry, hlocate]
    dsimp only [bind, Except.bind]
    rw [hold]
    rfl
  refine ⟨mode, ?_, hmode⟩
  unfold locate at hlocate
  have hlocate' : (d.putAt names (.file bytes mode)).locate p = .ok names := by
    unfold locate
    cases hfit : unfit? p with
    | some e =>
      rw [hfit] at hlocate
      cases hlocate
    | none =>
      rw [hfit] at hlocate
      exact follow_put hnames _ hlocate
  have hopen : Open d.root names := by
    cases hfit : unfit? p with
    | some e =>
      rw [hfit] at hlocate
      cases hlocate
    | none =>
      rw [hfit] at hlocate
      exact open_of_follow (fun n hn => by cases hn) hlocate
  have hthere : (d.putAt names (.file bytes mode)).root.at? names = some (.file bytes mode) := by
    refine FileTree.at?_put_self _ _ _ fun n hn old mode' hfile => ?_
    obtain ⟨es, mode'', hfolder⟩ := hopen n hn
    rw [hfolder] at hfile
    cases hfile
  rw [entry, hlocate']
  dsimp only [bind, Except.bind]
  rw [hthere]
  rfl

theorem unifyLineEnds_eq {cs : List Char} (h : '\r' ∉ cs) : unifyLineEnds cs = cs := by
  induction cs with
  | nil => rfl
  | cons c rest ih =>
    rw [List.mem_cons, not_or] at h
    have hc : c ≠ '\r' := Ne.symm h.1
    rw [unifyLineEnds, if_neg hc, ih h.2]
    rintro _ rfl
    exact absurd rfl hc

theorem fromUTF8?_toUTF8 (s : String) : String.fromUTF8? s.toUTF8 = some s := by
  rw [String.fromUTF8?]
  exact dif_pos s.isValidUTF8

theorem textOf_toUTF8 {text : String} {mode : Nat}
    (hread : (FileTree.file text.toUTF8 mode).allows .read = true) :
    textOf (.file text.toUTF8 mode) = .ok (.ofList (unifyLineEnds text.toList)) := by
  rw [textOf, hread, fromUTF8?_toUTF8]
  rfl

theorem textOf_plain {text : String} {mode : Nat}
    (hread : (FileTree.file text.toUTF8 mode).allows .read = true) (h : '\r' ∉ text.toList) :
    textOf (.file text.toUTF8 mode) = .ok text := by
  rw [textOf_toUTF8 hread, unifyLineEnds_eq h, String.ofList_toList]

variable (d p) in
/-- What stands at a path, if anything, may be read. -/
def Unlocked : Prop := ∀ t, d.entry p = .ok t → t.allows .read = true

theorem unlocked_of_error {e : Fault} (h : d.entry p = .error e) : d.Unlocked p := by
  intro t ht
  rw [h] at ht
  cases ht

/-- Nothing is locked on a disk that holds nothing. -/
theorem unlocked_newFolder (here : List String) (p : Path) :
    Unlocked ⟨.newFolder, here⟩ p := by
  intro t ht
  unfold entry at ht
  cases hlocate : locate ⟨.newFolder, here⟩ p with
  | error e =>
    rw [hlocate] at ht
    cases ht
  | ok names =>
    rw [hlocate] at ht
    cases names with
    | nil =>
      cases ht
      exact FileTree.allows_read_folderMode []
    | cons name rest => cases ht

/-- A text without carriage returns that was written is read again, unless the file was there before
and may not be read. -/
theorem readText_writeText {text : String} (hread : d.Unlocked p)
    (h : writeText p text d = (.ok (), d')) (hreturn : '\r' ∉ text.toList) :
    d'.readText p = .ok text ∧ d'.has p = .ok true := by
  obtain ⟨mode, hentry, hmode⟩ := entry_of_write h
  have hallows : (FileTree.file text.toUTF8 mode).allows .read = true := by
    rcases hmode with rfl | ⟨old, hold⟩
    · exact FileTree.allows_read_fileMode _
    · exact hread (.file old mode) hold
  constructor
  · rw [readText, hentry]
    exact textOf_plain hallows hreturn
  · rw [has, holds, hentry]

end Disk

end Cartridge
