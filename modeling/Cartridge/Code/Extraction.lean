import Cartridge.Code.Recognition
import Cartridge.Pattern.Search
import Cartridge.Text.Blank

/-!
# Code in an answer

The C code in what a language model answers. A block fenced as C is taken as it is, then a plain
fenced block that looks like C. Without either the markup is removed; what is left is the code if
it looks like C, else the lines from the first one that begins to look like C.
-/

namespace Cartridge.Code

open Pattern (exactly inOrder)

/-- Any characters, as few as possible. -/
def anything : Pattern := .few (fun _ => true) 0

/-- Characters of one line, as few as possible. -/
def withinLine : Pattern := .few (· ≠ '\n') 0

/-- A block fenced as C; its text is group 1. -/
def cFence : Pattern := inOrder [exactly "```c\n", .group 1 anything, exactly "\n```"]

/-- A block fenced without a language; its text is group 1. -/
def plainFence : Pattern := inOrder [exactly "```\n", .group 1 anything, exactly "\n```"]

/-- Any text between fences. -/
def anyFence : Pattern := inOrder [exactly "```", anything, exactly "```"]

/-- Bold text; its words are group 1. -/
def bold : Pattern := inOrder [exactly "**", .group 1 withinLine, exactly "**"]

/-- Emphasised text; its words are group 1. -/
def emphasis : Pattern := inOrder [exactly "*", .group 1 withinLine, exactly "*"]

/-- Code within a line; its text is group 1. -/
def inlineCode : Pattern := inOrder [exactly "`", .group 1 withinLine, exactly "`"]

/-- The text without markup: fenced blocks are dropped, other marks only lose their signs. -/
def withoutMarkup (cs : List Char) : List Char :=
  let prose := anyFence.substitute (fun _ => []) cs
  [bold, emphasis, inlineCode].foldl (fun text mark => mark.substitute (·.group 1) text) prose

/-- Whether C code may begin with this line. -/
def opensCode (line : String) : Bool :=
  ["#include", "void main(", "int main(", "unsigned char", "signed char", "#define"].any
    (Text.contains line)

/-- The text from the first line that may begin C code; all of it if there is none. -/
def fromFirstCodeLine (text : String) : String :=
  match (Text.lines text).dropWhile fun line => !opensCode line with
  | [] => text
  | lines => Text.joined "\n" lines

/-- The text of the first block with the given fence, if there is one and it is not empty. -/
def fenced? (fence : Pattern) (answer : List Char) : Option (List Char) :=
  match fence.find? answer with
  | some found => if (found.group 1).isEmpty then none else some (found.group 1)
  | none => none

/-- The code in an answer that has no fenced code. -/
def unfenced (answer : List Char) : String :=
  let cleaned := String.ofList (Text.strip (withoutMarkup answer))
  if looksLikeC cleaned then cleaned else fromFirstCodeLine cleaned

def extract (answer : String) : String :=
  let cs := answer.toList
  match fenced? cFence cs with
  | some code => .ofList (Text.strip code)
  | none =>
    match fenced? plainFence cs with
    | some code => if looksLikeC (.ofList code) then .ofList (Text.strip code) else unfenced cs
    | none => unfenced cs

end Cartridge.Code
