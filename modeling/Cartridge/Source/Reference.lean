import Cartridge.Source.Import

/-!
# References

The names that a piece of source text refers to: first what it calls, then every other name of
more than one letter, each once and in the order of first use.
-/

namespace Cartridge.Source

open Pattern (exactly inOrder)

/-- Whether a character may begin an identifier. -/
def opensIdentifier (c : Char) : Bool := c.isAlpha || c = '_' || c = '$'

/-- Whether a character may stand in an identifier. -/
def inIdentifier (c : Char) : Bool := c.isAlphanum || c = '_' || c = '$'

def identifier : Pattern := .next (.one opensIdentifier) (.many inIdentifier 0)

/-- A call; the called name is group 1. -/
def call : Pattern :=
  inOrder [.wordEdge, .group 1 identifier, optionalBlanks, exactly "("]

/-- A whole identifier, as group 1. -/
def wholeIdentifier : Pattern := inOrder [.wordEdge, .group 1 identifier, .wordEdge]

/-- Called names that say nothing about the project. -/
def ignoredCalls : List String := ["console", "Math", "parseInt", "parseFloat"]

/-- Names that are words of the language. -/
def ignoredNames : List String := ["const", "let", "var", "function", "class"]

/-- The names that a text refers to. -/
def references (content : String) : List String :=
  let cs := content.toList
  let called := (call.findAll cs).map (·.groupString 1)
  let named := (wholeIdentifier.findAll cs).map (·.groupString 1)
  (called.filter (fun n => !ignoredCalls.contains n) ++
    named.filter fun n => 1 < n.length && !ignoredNames.contains n).eraseDups

end Cartridge.Source
