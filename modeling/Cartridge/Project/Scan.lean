import Cartridge.Config.Basic
import Cartridge.FileTree.Disk
import Cartridge.Project.Resolve

/-!
# Scanning

How a project is found on a disk. A folder's own source files come first, then those of the folders
in it, each in the order of the names; some folders are passed over, and so is what a folder holds
that cannot be listed. A path that is no folder is a project of one file.
-/

namespace Cartridge.Project

/-- The names of the folders that hold no sources of their own. -/
def skippedFolders : List String := ["node_modules", "dist", ".git", "__tests__"]

/-- Named things in the order of their names. -/
def byName {α : Type} (named : Entries α) : Entries α := named.mergeSort (·.1 ≤ ·.1)

/-- The names of the source files that a folder itself holds. -/
def ownSources (entries : Entries FileTree) : List String :=
  Entries.names (byName (entries.filter fun (name, t) =>
    !t.isFolder && Source.isSourceName name))

mutual

/-- The names that lead to each source file of a folder, at any depth. A test of the names that lead
to a folder tells whether it can be listed; if it cannot, what it holds is passed over. -/
def sourcesOf : FileTree → (List String → Bool) → List (List String)
  | .file .., _ => []
  | .folder es _, lists =>
    if lists [] then
      (ownSources es).map ([·]) ++
        (byName (sourcesBelow es lists)).flatMap fun (name, places) => places.map (name :: ·)
    else []

/-- The source files of each folder among some entries that has not one of the names to skip. -/
def sourcesBelow : List (String × FileTree) → (List String → Bool) → Entries (List (List String))
  | [], _ => []
  | (name, t) :: rest, lists =>
    if t.isFolder && !skippedFolders.contains name then
      (name, sourcesOf t fun names => lists (name :: names)) :: sourcesBelow rest lists
    else sourcesBelow rest lists

end

/-- A source file with what can be seen from its text. -/
def analyzed (rules : Config.ProjectRules) (location path content : String) : SourceFile where
  location
  path
  content
  imports := Source.imports content
  exports := Source.exports content
  size := content.length
  chunks :=
    if rules.maxFileSize < content.length then
      some (Source.chunks rules.chunkSize path content)
    else none

/-- Whether the folder below another one that some names lead to can be listed. -/
def listsBelow (d : Disk) (folder : Path) (names : List String) : Bool :=
  d.lists (folder.append ⟨"", names⟩)

/-- The source file that stands below a folder under some names. -/
def readSource (rules : Config.ProjectRules) (d : Disk) (folder : Path) (names : List String) :
    Except Fault SourceFile := do
  let path : Path := ⟨"", names⟩
  let place := folder.append path
  return analyzed rules place.toString path.toString (← d.readText place)

def ofFiles (files : List SourceFile) : Project := ⟨files, dependencyMap files⟩

def scan (rules : Config.ProjectRules) (d : Disk) (p : Path) : Except Fault Project := do
  let place := d.current.resolve p
  let t ← if p.hasNull then .error .unfitText else d.entry place
  if t.isFolder then
    return ofFiles (← (sourcesOf t (listsBelow d place)).mapM (readSource rules d place))
  else
    return ofFiles [← readSource rules d place.parent [place.name]]

end Cartridge.Project
