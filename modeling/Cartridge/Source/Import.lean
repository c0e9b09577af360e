import Cartridge.Pattern.Search
import Cartridge.Text.Blank
import Cartridge.Text.Search

/-!
# Imports and exports

What a source file takes from other modules and what it offers to them, as far as its import and
export statements tell.
-/

namespace Cartridge.Source

open Pattern (exactly inOrder oneOf)

/-- An import statement. -/
structure Import where
  /-- The module as it is written. -/
  module : String
  /-- The imported names. -/
  names : List String
  deriving DecidableEq, Repr

/-- Whether the module is given by its place relative to the importing file. -/
def Import.isRelative (i : Import) : Bool :=
  Text.startsWith i.module "./" || Text.startsWith i.module "../"

/-- White space, at least one character of it. -/
def blanks : Pattern := .many Text.isBlank 1

/-- White space, if any. -/
def optionalBlanks : Pattern := .many Text.isBlank 0

def name : Pattern := .many Text.isWord 1

/-- A quotation mark of either kind. -/
def isQuote (c : Char) : Bool := c = '\'' || c = '"'

/-- Names in braces, with the text between the braces as the given group. -/
def braced (group : Nat) : Pattern :=
  inOrder [exactly "\x7b", .group group (.many (· ≠ '\x7d') 1), exactly "\x7d"]

/-- An import statement up to the module: names in braces are group 1, the name of a whole module
group 2, a default import group 3 and the module group 4. -/
def importStatement : Pattern :=
  inOrder
    [exactly "import", blanks,
     oneOf [braced 1, inOrder [exactly "*", blanks, exactly "as", blanks, .group 2 name],
       .group 3 name],
     blanks, exactly "from", blanks, .one isQuote, .group 4 (.many (fun c => !isQuote c) 1),
     .one isQuote]

/-- The items of a list with commas, without white space around them; empty items are dropped. -/
def listItems (cs : List Char) : List String :=
  ((Text.splitOn (.ofList cs) ',').map Text.stripped).filter (· ≠ "")

/-- The imports of a source text, in order. -/
def imports (content : String) : List Import :=
  (importStatement.findAll content.toList).map fun found =>
    { module := found.groupString 4
      names :=
        match found.group? 1, found.group? 2 with
        | some inBraces, _ => listItems inBraces
        | none, some whole => [.ofList whole]
        | none, none => [found.groupString 3] }

/-- An exported declaration; its name is group 1. -/
def exportedDeclaration : Pattern :=
  inOrder
    [exactly "export", blanks,
     oneOf (["function", "class", "interface", "type", "const", "let", "var"].map exactly),
     blanks, .group 1 name]

/-- A list of exported names in braces, as group 1. -/
def exportList : Pattern := inOrder [exactly "export", blanks, braced 1]

/-- The exports of a source text: the exported declarations, then the items of export lists. -/
def exports (content : String) : List String :=
  let cs := content.toList
  (exportedDeclaration.findAll cs).map (·.groupString 1) ++
    (exportList.findAll cs).flatMap fun found => listItems (found.group 1)

/-- Whether a file is a source by its name. Files that only declare types are not. -/
def isSourceName (name : String) : Bool :=
  (Text.endsWith name ".ts" || Text.endsWith name ".js") && !Text.endsWith name ".d.ts"

end Cartridge.Source
