import Cartridge.Json.Writer
import Cartridge.Project.Conversion
import Cartridge.Project.Scan
import Cartridge.Workshop

/-!
# Output of projects

Which files the code of a project gives: one for each source file, or a single one, and in both
cases one with the figures of the project. Source files whose names differ only in their folder or
their suffix give the same file; the last one wins, and each that meets an earlier one is reported.
-/

namespace Cartridge.Project

variable {R : Type} [Quantity R] [Inhabited R]

/-- Code for a file, and the source file that it comes from if it is only one. -/
structure Output where
  source? : Option String
  name : String
  code : String
  deriving DecidableEq, Repr

/-- The name of the file with the code of a whole project. -/
def singleName : String := "project.c"

/-- The name of the file with the figures of a project. -/
def notesName : String := "project-info.json"

/-- The code files of a project, one for each source file or a single one. -/
def outputs (modular : Bool) (r : ProjectResult R) : List Output :=
  if modular then r.files.map fun f => ⟨some f.path, codeName f.path, f.code⟩
  else [⟨none, singleName, r.code⟩]

/-- The warning that a source file gives the same file as one before it. -/
def clashWarning (path earlier name : String) : String :=
  path ++ " and " ++ earlier ++ " both write " ++ name

/-- The warning for an output, given which source file gave each name before it. -/
def clash? (given : Entries String) (o : Output) : Option String :=
  match o.source?, given.get? o.name with
  | some path, some earlier => some (clashWarning path earlier o.name)
  | _, _ => none

/-- Which source file gave each name, once an output is written. -/
def noteName (given : Entries String) (o : Output) : Entries String :=
  match o.source? with
  | some path => given.put o.name path
  | none => given

/-- Writes an output into a folder and gives its path. -/
def writeOutput (folder : Path) (given : Entries String) (o : Output) : Workshop.Task R Path := do
  Workshop.say (·.warnAll (clash? given o).toList)
  let path := folder.child o.name
  Workshop.change (Disk.writeText path o.code)
  Workshop.say (·.info ("Written " ++ path.toString))
  return path

/-- Writes outputs into a folder one after another and gives their paths. -/
def writeOutputs (folder : Path) : Entries String → List Output → Workshop.Task R (List Path)
  | _, [] => Run.done []
  | given, o :: rest => do
    let path ← writeOutput folder given o
    let paths ← writeOutputs folder (noteName given o) rest
    return path :: paths

/-- Writes the files of a project into a folder, which is made if it is missing, and gives the
paths of the code files. -/
def writeResult (r : ProjectResult R) (folder : Path) : Workshop.Task R (List Path) := do
  Workshop.change (Disk.makeFolders folder)
  let modular := (← Run.get).studio.config.project.modular
  let paths ← writeOutputs folder [] (outputs modular r)
  Workshop.change (Disk.writeText (folder.child notesName) r.notes.toJson.document)
  return paths

def convertAt (path : String) (o : Settings) : Workshop.Task R (ProjectResult R) := do
  let w ← Run.get
  let found := scan w.studio.config.project w.disk (Path.ofString path)
  Workshop.inStudio (convert Workbench.transpile path found o)

end Cartridge.Project
