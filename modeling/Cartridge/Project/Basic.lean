import Cartridge.Entries
import Cartridge.Source.Chunk

/-!
# Projects

The source files of a game, which of them need which others, and what each of them offers and
imports.
-/

namespace Cartridge

/-- A source file. -/
structure SourceFile where
  /-- Where the file is. -/
  location : String
  /-- The path of the file within its project. -/
  path : String
  content : String
  imports : List Source.Import := []
  exports : List String := []
  /-- The number of characters. -/
  size : Nat := 0
  /-- The parts of a file that is too large to be handled at once. -/
  chunks : Option (List Source.Chunk) := none
  deriving DecidableEq, Repr

/-- Source files, and for each path the paths of the files that it needs. -/
structure Project where
  files : List SourceFile := []
  dependencies : Entries (List String) := []
  deriving DecidableEq, Repr

namespace Project

def needs (p : Project) (path : String) : List String := (p.dependencies.get? path).getD []

def file? (p : Project) (path : String) : Option SourceFile := p.files.find? (·.path = path)

/-- Something that is known of each file, under the path of the file. -/
def byPath {α : Type} (known : SourceFile → α) (files : List SourceFile) : Entries α :=
  files.foldl (fun all f => all.put f.path (known f)) []

/-- For each path the names that the file offers. -/
def exports (p : Project) : Entries (List String) := byPath (·.exports) p.files

/-- For each path the imports of the file. -/
def imports (p : Project) : Entries (List Source.Import) := byPath (·.imports) p.files

end Project

end Cartridge
