import Cartridge.Project.Basic

/-!
# Order of files

The files of a project in an order in which each comes after the files that it needs. The paths are
visited depth first. A path that is needed by itself, directly or through others, is met again
while its own visit is under way; it is then passed over, and reported.
-/

namespace Cartridge.Project

/-- Where a traversal stands. -/
structure Traversal where
  /-- The files whose visit is over, latest first. -/
  ordered : List SourceFile := []
  visited : List String := []
  visiting : List String := []
  /-- The paths that were met while their visit was under way, latest first. -/
  cycles : List String := []

/-- Visits a path and, before it, what it needs. Visits nest at most `depth` deep. -/
def visit (p : Project) : Nat → Traversal → String → Traversal
  | 0, t, _ => t
  | depth + 1, t, path =>
    if t.visited.contains path then t
    else if t.visiting.contains path then { t with cycles := path :: t.cycles }
    else
      let entered := { t with visiting := path :: t.visiting }
      let t := (p.needs path).foldl (visit p depth) entered
      { t with
        ordered := (p.file? path).toList ++ t.ordered
        visited := path :: t.visited
        visiting := t.visiting.erase path }

def mentioned (p : Project) : List String :=
  p.files.map (·.path) ++ p.dependencies.flatMap fun (path, needs) => path :: needs

/-- Visits all files. A visit that is no repetition enters a mentioned path that is not under way,
so visits never nest deeper than there are mentioned paths, and one more for the repetition. -/
def traverse (p : Project) : Traversal :=
  (p.files.map (·.path)).foldl (visit p (p.mentioned.length + 1)) {}

/-- The files, each after those that it needs, as far as there are no cycles. -/
def ordered (p : Project) : List SourceFile := p.traverse.ordered.reverse

/-- The paths at which a cycle was noticed. -/
def cycles (p : Project) : List String := p.traverse.cycles.reverse

/-- The warning for a path at which a cycle was noticed. -/
def cycleWarning (path : String) : String := "Circular dependency detected involving " ++ path

end Cartridge.Project
