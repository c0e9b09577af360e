import Cartridge.Failure
import Cartridge.FileTree.Basic
import Cartridge.Path
import Cartridge.Run
import Cartridge.Text.Quoted

/-!
# Disks

A file tree with a current directory. Paths are followed part by part: a place that is left for
another must be a folder that may be entered, and a double dot leads from a folder to the one that
holds it.

Text files are in UTF-8. Reading takes all three ways to end a line for one; writing changes
nothing.

* `write_stopped`: a write that is stopped changes nothing.
-/

namespace Cartridge

/-- How the system words that something is wrong with a path. -/
def Fault.about (path : String) : Fault → String
  | .notFound => "[Errno 2] No such file or directory: " ++ Text.quoted path
  | .notAllowed => "[Errno 13] Permission denied: " ++ Text.quoted path
  | .exists_ => "[Errno 17] File exists: " ++ Text.quoted path
  | .notDirectory => "[Errno 20] Not a directory: " ++ Text.quoted path
  | .isDirectory => "[Errno 21] Is a directory: " ++ Text.quoted path
  | .nameTooLong => "[Errno 36] File name too long: " ++ Text.quoted path
  | _ => ""

/-- Whether a fault says that nothing can stand at a path. -/
def Fault.meansAbsence : Fault → Bool
  | .notFound | .notDirectory | .unfitText => true
  | _ => false

/-- A file tree and the names that lead to the current directory. -/
structure Disk where
  root : FileTree
  here : List String

namespace Disk

/-- Runs that look at a disk and change it. -/
abbrev Task (α : Type) := Run Disk Fault α

/-- The most bytes that a name may have. -/
def longestName : Nat := 255

/-- The most bytes that a path may have. -/
def longestPath : Nat := 4095

/-- A path as its parts from the root, double dots included. -/
def whole (d : Disk) (p : Path) : List String := if p.isAbsolute then p.parts else d.here ++ p.parts

def current (d : Disk) : Path := ⟨"/", d.here⟩

/-- The place to which a part leads from another place. Nothing need be there. -/
def step (t : FileTree) (place : List String) (part : String) : Except Fault (List String) :=
  match t.at? place with
  | none => .error .notFound
  | some f =>
    if !f.isFolder then .error .notDirectory
    else if !f.allows .enter then .error .notAllowed
    else if longestName < part.utf8ByteSize then .error .nameTooLong
    else .ok (if part = ".." then place.dropLast else place ++ [part])

/-- Follows parts from a place. The last one may lead to nothing. -/
def follow (t : FileTree) : List String → List String → Except Fault (List String)
  | place, [] => .ok place
  | place, part :: rest => do follow t (← step t place part) rest

/-- Why the system takes no path like this one, if it takes none. -/
def unfit? (p : Path) : Option Fault :=
  if p.hasNull then some .unfitText
  else if longestPath < p.toString.utf8ByteSize then some .nameTooLong
  else none

/-- The names from the root to the place that a path means. -/
def locate (d : Disk) (p : Path) : Except Fault (List String) :=
  match unfit? p with
  | some e => .error e
  | none => follow d.root [] (d.whole p)

def entry (d : Disk) (p : Path) : Except Fault FileTree := do
  match d.root.at? (← d.locate p) with
  | some t => return t
  | none => .error .notFound

/-- What stands at a path, if anything can be seen there. -/
def found? (d : Disk) (p : Path) : Option FileTree := (d.entry p).toOption

/-- Whether something that a test holds of stands at a path. -/
def holds (d : Disk) (test : FileTree → Bool) (p : Path) : Except Fault Bool :=
  match d.entry p with
  | .ok t => .ok (test t)
  | .error e => if e.meansAbsence then .ok false else .error e

/-- Whether anything stands at a path. -/
def has (d : Disk) (p : Path) : Except Fault Bool := d.holds (fun _ => true) p

def hasFolder (d : Disk) (p : Path) : Except Fault Bool := d.holds FileTree.isFolder p

/-! ## Reading -/

/-- A text with every line ended in one way. -/
def unifyLineEnds : List Char → List Char
  | [] => []
  | '\r' :: '\n' :: rest => '\n' :: unifyLineEnds rest
  | c :: rest => (if c = '\r' then '\n' else c) :: unifyLineEnds rest

/-- The text of a file that may be read. -/
def textOf (t : FileTree) : Except Fault String :=
  if !t.allows .read then .error .notAllowed
  else match t with
    | .folder .. => .error .isDirectory
    | .file bytes _ =>
      match String.fromUTF8? bytes with
      | some s => .ok (.ofList (unifyLineEnds s.toList))
      | none => .error .notText

def readText (d : Disk) (p : Path) : Except Fault String := do textOf (← d.entry p)

/-- Whether what a folder holds can be listed. -/
def lists (d : Disk) (p : Path) : Bool := (d.found? p).any (·.allows .read)

/-- The paths of what a folder holds under names with an ending, in the order of the names; none
where the folder cannot be listed. -/
def endingWith (d : Disk) (p : Path) (ending : String) : List Path :=
  let readable := (d.found? p).filter (·.allows .read)
  let names := (readable.map fun t => Entries.names t.entries).getD []
  ((names.filter (Text.endsWith · ending)).mergeSort (· ≤ ·)).map p.child

/-! ## Changing -/

/-- The disk with something new at a place. -/
def putAt (d : Disk) (names : List String) (new : FileTree) : Disk :=
  { d with root := d.root.put names new }

/-- Whether the folder that holds a place allows a change of what it holds. -/
def mayChange (t : FileTree) (names : List String) : Bool :=
  (t.at? names.dropLast).any (·.allows .write)

/-- Writes a file; one that was there before keeps its permission bits. -/
def write (p : Path) (bytes : ByteArray) : Task Unit := do
  let d ← Run.get
  let names ← Run.ofExcept (d.locate p)
  match d.root.at? names with
  | some (.folder ..) => Run.stop .isDirectory
  | some (.file old mode) =>
    if (FileTree.file old mode).allows .write then Run.update (·.putAt names (.file bytes mode))
    else Run.stop .notAllowed
  | none =>
    if mayChange d.root names then Run.update (·.putAt names (.file bytes FileTree.fileMode))
    else Run.stop .notAllowed

theorem write_stopped {p : Path} {bytes : ByteArray} {d d' : Disk} {e : Fault}
    (h : write p bytes d = (.error e, d')) : d' = d := by
  unfold write at h
  cases hl : d.locate p with
  | error e' =>
    simp [bind, Run.andThen, Run.get, Run.ofExcept, hl] at h
    exact h.2.symm
  | ok names =>
    simp only [bind, Run.andThen, Run.get, Run.ofExcept, hl] at h
    cases ht : d.root.at? names with
    | none =>
      simp only [ht] at h
      by_cases hm : mayChange d.root names
      · simp [hm, Run.update] at h
      · simp [hm, Run.stop] at h
        exact h.2.symm
    | some t =>
      cases t with
      | folder es m =>
        simp [ht, Run.stop] at h
        exact h.2.symm
      | file old mode =>
        simp only [ht] at h
        by_cases hm : (FileTree.file old mode).allows .write
        · simp [hm, Run.update] at h
        · simp [hm, Run.stop] at h
          exact h.2.symm

def writeText (p : Path) (text : String) : Task Unit := write p text.toUTF8

/-- Makes the folders that parts lead through from a place, as far as they are missing; `made` tells
whether one was made already. What was made before a fault stays. -/
def makeFrom (t : FileTree) (made : Bool) : List String → List String → Except Fault Unit × FileTree
  | _, [] => (.ok (), t)
  | place, part :: rest =>
    match step t place part with
    | .error e => (.error e, t)
    | .ok next =>
      match t.at? next with
      | some (.folder ..) => makeFrom t made next rest
      | some (.file ..) => (.error (if made || rest.isEmpty then .exists_ else .notDirectory), t)
      | none =>
        if mayChange t next then makeFrom (t.put next .newFolder) true next rest
        else (.error .notAllowed, t)

/-- Makes a folder and those above it, as far as they are missing. -/
def makeFolders (p : Path) : Task Unit := fun d =>
  match unfit? p with
  | some e => (.error e, d)
  | none =>
    let (r, root) := makeFrom d.root false [] (d.whole p)
    (r, { d with root })

/-- Removes a file, if there is one. -/
def remove (p : Path) : Task Unit := do
  let d ← Run.get
  match d.locate p with
  | .error .notFound => Run.done ()
  | .error e => Run.stop e
  | .ok names =>
    match d.root.at? names with
    | none => Run.done ()
    | some t =>
      if !mayChange d.root names then Run.stop .notAllowed
      else if t.isFolder then Run.stop .isDirectory
      else Run.update fun d => { d with root := d.root.erase names }

/-- Moves a file or folder to a path where nothing stands. -/
def move (p new : Path) : Task Unit := do
  let d ← Run.get
  let names ← Run.ofExcept (d.locate p)
  let target ← Run.ofExcept (d.locate new)
  match d.root.at? names with
  | none => Run.stop .notFound
  | some t =>
    if mayChange d.root names && mayChange d.root target then
      Run.update fun d => { d with root := (d.root.erase names).put target t }
    else Run.stop .notAllowed

/-- Sets the permission bits of a file or folder. -/
def setMode (p : Path) (mode : Nat) : Task Unit := do
  let d ← Run.get
  let names ← Run.ofExcept (d.locate p)
  match d.root.at? names with
  | none => Run.stop .notFound
  | some t => Run.update (·.putAt names (t.withMode mode))

end Disk

end Cartridge
