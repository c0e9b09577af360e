import Cartridge.Path
import Cartridge.Project.Basic

/-!
# Resolving imports

Which file of a project a relative import means. The module's path is tried as it is, with each
source suffix, and as a directory with an index file; the first of these files that the importing
file does not need already is taken.
-/

namespace Cartridge.Project

def sourceSuffixes : List String := [".ts", ".js"]

/-- The locations that an import may mean, in order, for a file in a directory. -/
def candidates (directory module : String) : List String :=
  let base := Path.normalName (Path.joinNames directory module)
  base :: sourceSuffixes.map (base ++ ·) ++
    sourceSuffixes.map fun suffix => Path.joinNames base ("index" ++ suffix)

/-- The paths of the files under their locations. -/
def byLocation (files : List SourceFile) : Entries String :=
  files.foldl (fun known f => known.put (Path.normalName f.location) f.path) []

/-- What a file needs once one more of its imports is resolved. -/
def resolveImport (known : Entries String) (directory : String) (found : List String)
    (i : Source.Import) : List String :=
  if i.isRelative then
    let new? := (candidates directory i.module).findSome? fun candidate =>
      match known.get? candidate with
      | some path => if path ≠ "" && !found.contains path then some path else none
      | none => none
    match new? with
    | some path => found ++ [path]
    | none => found
  else found

/-- The paths that a file needs, in the order of its imports. -/
def resolved (known : Entries String) (f : SourceFile) : List String :=
  f.imports.foldl (resolveImport known (Path.directoryName f.location)) []

/-- For each file the paths that it needs. -/
def dependencyMap (files : List SourceFile) : Entries (List String) :=
  let known := byLocation files
  files.foldl (fun all f => all.put f.path (resolved known f)) []

end Cartridge.Project
