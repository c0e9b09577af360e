import Cartridge.FileTree.Disk
import Cartridge.Proofs.Entries
import Cartridge.Proofs.Run

/-!
# Disks without what files hold

A disk may be looked at without what its files hold: names, folders and permission bits stay. Paths
lead to the same places, and what is written, made or looked for comes to the same, so that two
disks that differ in what files hold alone still do so after the same changes.

* `FileTree.hollow`, `Disk.hollow`: a tree and a disk without what files hold.
* `Disk.holds_hollow`, `Disk.endingWith_hollow`: what can be seen without reading.
* `Disk.write_hollow`, `Disk.makeFolders_hollow`: changes.
* `Disk.Blind`: a task that does not depend on what files hold.
-/

namespace Cartridge

namespace FileTree

mutual

/-- A tree without what its files hold. -/
def hollow : FileTree → FileTree
  | .file _ mode => .file .empty mode
  | .folder entries mode => .folder (hollowEntries entries) mode

/-- The entries of a folder without what files hold. -/
def hollowEntries : List (String × FileTree) → List (String × FileTree)
  | [] => []
  | (name, t) :: rest => (name, t.hollow) :: hollowEntries rest

end

theorem hollowEntries_eq (entries : Entries FileTree) :
    hollowEntries entries = entries.mapped hollow := by
  induction entries with
  | nil => rfl
  | cons entry rest ih => exact congrArg ((entry.1, entry.2.hollow) :: ·) ih

@[simp] theorem hollow_folder (entries : Entries FileTree) (mode : Nat) :
    (folder entries mode).hollow = folder (entries.mapped hollow) mode := by
  rw [hollow, hollowEntries_eq]

@[simp] theorem isFolder_hollow (t : FileTree) : t.hollow.isFolder = t.isFolder := by
  cases t <;> rfl

@[simp] theorem allows_hollow (t : FileTree) (r : Right) : t.hollow.allows r = t.allows r := by
  cases t <;> rfl

@[simp] theorem entries_hollow (t : FileTree) :
    t.hollow.entries = Entries.mapped hollow t.entries := by
  cases t with
  | file => rfl
  | folder => rw [hollow_folder]; rfl

theorem at?_hollow (t : FileTree) (names : List String) :
    t.hollow.at? names = (t.at? names).map hollow := by
  induction names generalizing t with
  | nil => rfl
  | cons name rest ih =>
    rw [at?, at?, child?, child?, entries_hollow, Entries.get?_mapped]
    cases Entries.get? t.entries name with
    | none => rfl
    | some next => exact ih next

/-- What is put in a place is put there without what files hold. -/
theorem hollow_put (t : FileTree) (names : List String) (new : FileTree) :
    (t.put names new).hollow = t.hollow.put names new.hollow := by
  induction names generalizing t with
  | nil => rfl
  | cons name rest ih =>
    cases t with
    | file => rfl
    | folder entries mode =>
      rw [put, hollow_folder, hollow_folder, put, Entries.mapped_put, ih, Entries.get?_mapped]
      cases Entries.get? entries name with
      | none => rfl
      | some next => rfl

/-- What does not stand in a place any more does not stand there without what files hold. -/
theorem hollow_erase (t : FileTree) (names : List String) :
    (t.erase names).hollow = t.hollow.erase names := by
  induction names generalizing t with
  | nil => rfl
  | cons name rest ih =>
    cases t with
    | file => cases rest <;> rfl
    | folder entries mode =>
      rw [hollow_folder]
      cases rest with
      | nil => rw [erase, erase, hollow_folder, Entries.mapped_erase]
      | cons next others =>
        rw [erase, erase, Entries.get?_mapped]
        · cases Entries.get? entries name with
          | none => exact hollow_folder entries mode
          | some below =>
            rw [Option.map_some]
            dsimp only
            rw [hollow_folder, Entries.mapped_put, ih]
        · exact nofun
        · exact nofun

end FileTree

namespace Disk

/-- A disk without what its files hold. -/
def hollow (d : Disk) : Disk := { d with root := d.root.hollow }

variable {t : FileTree} {α : Type}

theorem step_hollow (t : FileTree) (place : List String) (part : String) :
    step t.hollow place part = step t place part := by
  unfold step
  rw [FileTree.at?_hollow]
  cases t.at? place with
  | none => rfl
  | some f => simp only [Option.map_some, FileTree.isFolder_hollow, FileTree.allows_hollow]

theorem follow_hollow (t : FileTree) (place parts : List String) :
    follow t.hollow place parts = follow t place parts := by
  induction parts generalizing place with
  | nil => rfl
  | cons part rest ih =>
    rw [follow, follow, step_hollow]
    exact congrArg (step t place part >>= ·) (funext ih)

theorem locate_hollow (d : Disk) (p : Path) : d.hollow.locate p = d.locate p := by
  unfold locate
  cases unfit? p with
  | some e => rfl
  | none => exact follow_hollow _ _ _

theorem entry_hollow (d : Disk) (p : Path) :
    d.hollow.entry p = (d.entry p).map FileTree.hollow := by
  unfold entry
  rw [locate_hollow]
  cases d.locate p with
  | error e => rfl
  | ok names =>
    have hat : d.hollow.root.at? names = (d.root.at? names).map FileTree.hollow :=
      d.root.at?_hollow names
    simp only [bind, Except.bind, hat]
    cases d.root.at? names <;> rfl

/-- What stands at a path can be seen without reading it. -/
theorem holds_hollow (d : Disk) {test : FileTree → Bool} (htest : ∀ t, test t.hollow = test t)
    (p : Path) : d.hollow.holds test p = d.holds test p := by
  rw [holds, holds, entry_hollow]
  cases d.entry p with
  | error e => rfl
  | ok t => exact congrArg Except.ok (htest t)

theorem has_hollow (d : Disk) (p : Path) : d.hollow.has p = d.has p :=
  d.holds_hollow (fun _ => rfl) p

theorem hasFolder_hollow (d : Disk) (p : Path) : d.hollow.hasFolder p = d.hasFolder p :=
  d.holds_hollow FileTree.isFolder_hollow p

theorem endingWith_hollow (d : Disk) (p : Path) (ending : String) :
    d.hollow.endingWith p ending = d.endingWith p ending := by
  rw [endingWith, endingWith, found?, found?, entry_hollow]
  cases d.entry p with
  | error e => rfl
  | ok t =>
    simp only [Except.map, Except.toOption, Option.filter_some, FileTree.allows_hollow]
    cases t.allows .read with
    | false => rfl
    | true => simp

/-! ## Changes -/

theorem hollow_putAt (d : Disk) (names : List String) (new : FileTree) :
    (d.putAt names new).hollow = d.hollow.putAt names new.hollow := by
  unfold putAt hollow
  rw [FileTree.hollow_put]

theorem hollow_eraseAt (d : Disk) (names : List String) :
    ({ d with root := d.root.erase names } : Disk).hollow =
      { d.hollow with root := d.hollow.root.erase names } := by
  unfold hollow
  rw [FileTree.hollow_erase]

theorem mayChange_hollow (t : FileTree) (names : List String) :
    mayChange t.hollow names = mayChange t names := by
  rw [mayChange, mayChange, FileTree.at?_hollow]
  cases t.at? names.dropLast with
  | none => rfl
  | some f => exact FileTree.allows_hollow f .write

/-- What comes of writing a file in a place. -/
def writeAt (names : List String) (bytes : ByteArray) (d : Disk) : Except Fault Unit × Disk :=
  match d.root.at? names with
  | some (.folder ..) => (.error .isDirectory, d)
  | some (.file old mode) =>
    if (FileTree.file old mode).allows .write then (.ok (), d.putAt names (.file bytes mode))
    else (.error .notAllowed, d)
  | none =>
    if mayChange d.root names then (.ok (), d.putAt names (.file bytes FileTree.fileMode))
    else (.error .notAllowed, d)

theorem write_eq (p : Path) (bytes : ByteArray) (d : Disk) :
    write p bytes d = match d.locate p with
      | .error e => (.error e, d)
      | .ok names => writeAt names bytes d := by
  refine (Run.ofExcept_bind (d.locate p) _ d).trans ?_
  cases d.locate p with
  | error e => rfl
  | ok names =>
    dsimp only
    unfold writeAt
    cases d.root.at? names with
    | none =>
      dsimp only
      split <;> rfl
    | some t =>
      cases t with
      | folder => rfl
      | file =>
        dsimp only
        split <;> rfl

/-- What is written does not depend on what files hold. -/
theorem writeAt_hollow (names : List String) (bytes : ByteArray) (d : Disk) :
    writeAt names .empty d.hollow =
      ((writeAt names bytes d).1, (writeAt names bytes d).2.hollow) := by
  have hput (mode : Nat) : d.hollow.putAt names (.file .empty mode) =
      (d.putAt names (.file bytes mode)).hollow := (d.hollow_putAt names (.file bytes mode)).symm
  unfold writeAt
  rw [show d.hollow.root.at? names = _ from d.root.at?_hollow names]
  cases d.root.at? names with
  | none =>
    simp only [Option.map_none, hput, show mayChange d.hollow.root names = _ from
      mayChange_hollow d.root names]
    split <;> rfl
  | some t =>
    cases t with
    | folder entries mode =>
      rw [Option.map_some, FileTree.hollow_folder]
    | file old mode =>
      have hallows :
          (FileTree.file .empty mode).allows .write = (FileTree.file old mode).allows .write := rfl
      simp only [Option.map_some, FileTree.hollow, hput, hallows]
      split <;> rfl

theorem write_hollow (p : Path) (bytes : ByteArray) (d : Disk) :
    write p .empty d.hollow = ((write p bytes d).1, (write p bytes d).2.hollow) := by
  rw [write_eq, write_eq, locate_hollow]
  cases d.locate p with
  | error e => rfl
  | ok names => exact writeAt_hollow names bytes d

theorem makeFrom_hollow (t : FileTree) (made : Bool) (place parts : List String) :
    makeFrom t.hollow made place parts =
      ((makeFrom t made place parts).1, (makeFrom t made place parts).2.hollow) := by
  induction parts generalizing t made place with
  | nil => rfl
  | cons part rest ih =>
    rw [makeFrom, makeFrom, step_hollow]
    cases step t place part with
    | error e => rfl
    | ok next =>
      dsimp only
      rw [FileTree.at?_hollow]
      cases ht : t.at? next with
      | none =>
        simp only [Option.map_none, mayChange_hollow]
        split
        · have hput : t.hollow.put next .newFolder = (t.put next .newFolder).hollow :=
            (FileTree.hollow_put t next .newFolder).symm
          rw [hput]
          exact ih _ _ _
        · rfl
      | some f =>
        cases f with
        | folder entries mode =>
          simp only [Option.map_some, FileTree.hollow_folder]
          exact ih _ _ _
        | file => rfl

/-- What is made does not depend on what files hold. -/
theorem makeFolders_hollow (p : Path) (d : Disk) :
    makeFolders p d.hollow = ((makeFolders p d).1, (makeFolders p d).2.hollow) := by
  unfold makeFolders
  cases unfit? p with
  | some e => rfl
  | none =>
    show ((makeFrom d.root.hollow false [] (d.whole p)).1,
      ({ d with root := (makeFrom d.root.hollow false [] (d.whole p)).2 } : Disk)) = _
    rw [makeFrom_hollow]
    rfl

/-! ## Disks that differ in what files hold alone -/

/-- A task on disks that differ in what files hold alone comes to the same, and they still do. -/
def Blind (task : Task α) : Prop := Run.Alike hollow task task

theorem Blind.of_hollow {task task' : Task α}
    (h : ∀ d, task' d.hollow = ((task d).1, (task d).2.hollow)) : Blind task := by
  intro d d' hsame
  exact Prod.mk.inj ((h d).symm.trans ((congrArg task' hsame).trans (h d')))

theorem blind_write (p : Path) (bytes : ByteArray) : Blind (write p bytes) :=
  .of_hollow (write_hollow p bytes)

theorem blind_writeText (p : Path) (text : String) : Blind (writeText p text) := blind_write p _

theorem blind_makeFolders (p : Path) : Blind (makeFolders p) := .of_hollow (makeFolders_hollow p)

/-- What is asked of a disk and comes to the same without what files hold. -/
theorem congr_of_hollow {read : Disk → α} (h : ∀ d, read d.hollow = read d) {d d' : Disk}
    (hsame : d.hollow = d'.hollow) : read d = read d' := by
  rw [← h d, hsame, h d']

end Disk

end Cartridge
