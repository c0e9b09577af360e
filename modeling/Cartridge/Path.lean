import Cartridge.Text.Search

/-!
# Paths

Paths of files and directories: their components, and the names derived from the last one. Empty
components and single dots carry no meaning and are dropped when a path is read; double dots stay
until the path is made absolute.
-/

namespace Cartridge

/-- A path: where it starts, and the components from there. -/
structure Path where
  /-- Empty for a path from the current directory, else one slash or two. -/
  root : String
  parts : List String
  deriving DecidableEq, Repr

namespace Path

/-- The part of a path that says where it starts: two slashes are kept, three or more are one. -/
def rootOf (s : String) : String :=
  match s.toList.takeWhile (· = '/') with
  | [] => ""
  | ['/', '/'] => "//"
  | _ => "/"

def ofString (s : String) : Path :=
  ⟨rootOf s, (Text.splitOn s '/').filter fun part => part ≠ "" && part ≠ "."⟩

/-- The written path; a single dot is the current directory. -/
def toString (p : Path) : String :=
  if p.root = "" && p.parts.isEmpty then "." else p.root ++ "/".intercalate p.parts

/-- Whether a written path can mean nothing but a folder: it ends with a slash or a single dot. -/
def meansFolder (s : String) : Bool := s = "." || Text.endsWith s "/" || Text.endsWith s "/."

/-- Whether the null character stands in the path. -/
def hasNull (p : Path) : Bool := p.parts.any (Text.contains · "\x00")

/-- Whether the path does not depend on the current directory. -/
def isAbsolute (p : Path) : Bool := p.root ≠ ""

/-- A path taken from another: an absolute one stays itself. -/
def append (p q : Path) : Path := if q.isAbsolute then q else ⟨p.root, p.parts ++ q.parts⟩

/-- A path one component further down. -/
def child (p : Path) (name : String) : Path := p.append (ofString name)

/-- The path without its last component. -/
def parent (p : Path) : Path := ⟨p.root, p.parts.dropLast⟩

/-- The last component, empty if there is none. -/
def name (p : Path) : String := p.parts.getLast?.getD ""

/-- Where the last dot of a name begins a suffix: neither at the start nor at the end. -/
def suffixStart? (name : String) : Option Nat :=
  let cs := name.toList
  let after := (cs.reverse.takeWhile (· ≠ '.')).length
  if after + 1 < cs.length && after ≠ 0 then some (cs.length - after - 1) else none

def stemOf (name : String) : String :=
  match suffixStart? name with
  | some i => .ofList (name.toList.take i)
  | none => name

/-- The last component without its suffix. -/
def stem (p : Path) : String := stemOf p.name

/-- The path with another suffix, dot included, on its last component. -/
def withSuffix (p : Path) (suffix : String) : Path :=
  ⟨p.root, p.parts.dropLast ++ [stemOf p.name ++ suffix]⟩

/-- Drops each double dot together with the component before it; at the root there is none. -/
def collapse (parts : List String) : List String :=
  (parts.foldl (fun (done : List String) part => if part = ".." then done.drop 1 else part :: done)
    []).reverse

/-- The path made absolute from a current directory, without double dots. -/
def resolve (cwd p : Path) : Path :=
  let whole := cwd.append p
  ⟨whole.root, collapse whole.parts⟩

/-! ## Written paths

Paths that stay strings, as they are found in import statements. -/

/-- The part of a written path before its last slash. -/
def directoryName (s : String) : String :=
  let head := (s.toList.reverse.dropWhile (· ≠ '/')).reverse
  let trimmed := (head.reverse.dropWhile (· = '/')).reverse
  .ofList (if trimmed.isEmpty then head else trimmed)

/-- A written path taken from another. -/
def joinNames (a b : String) : String :=
  if Text.startsWith b "/" then b
  else if a = "" || Text.endsWith a "/" then a ++ b
  else a ++ "/" ++ b

/-- One component of a written path put behind the others, last first; a double dot takes the one
before it back where there is one. -/
def normalStep (absolute : Bool) (done : List String) (part : String) : List String :=
  if part = "" || part = "." then done
  else if part ≠ ".." then part :: done
  else
    match done with
    | [] => if absolute then [] else [".."]
    | last :: rest => if last = ".." then ".." :: done else rest

/-- The shortest written path with the same components. -/
def normalName (s : String) : String :=
  if s = "" then "."
  else
    let root := rootOf s
    let parts := ((Text.splitOn s '/').foldl (normalStep (root ≠ "")) []).reverse
    let whole := root ++ "/".intercalate parts
    if whole = "" then "." else whole

end Path

end Cartridge
