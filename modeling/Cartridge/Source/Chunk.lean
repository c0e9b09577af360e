import Cartridge.Source.Reference

/-!
# Chunks

A source file that is too large to be handled at once is cut into chunks of whole lines. Blank
lines of no characters are left out of the chunks and still counted. Two cuts are tried: after the
bodies of functions and classes, found by counting braces, and at natural boundaries between
blocks. Either way a chunk that has grown past the limit ends with the line that made it so.
-/

namespace Cartridge.Source

open Pattern (exactly inOrder oneOf optional)

/-- What a chunk mainly holds. -/
inductive ChunkKind where
  | function
  | class_
  | interface
  | globals
  | other
  deriving DecidableEq, Repr

def ChunkKind.label : ChunkKind → String
  | .function => "function"
  | .class_ => "class"
  | .interface => "interface"
  | .globals => "global"
  | .other => "other"

/-- What a text mainly holds. -/
def kindOf (content : String) : ChunkKind :=
  let has := Text.contains content
  if has "function " || has "=> " then .function
  else if has "class " then .class_
  else if has "interface " || has "type " then .interface
  else if has "export " && !has "\x7b" then .globals
  else .other

/-- A run of lines of a file. -/
structure Piece where
  /-- The lines that are not empty. -/
  lines : List String
  /-- Where the run begins and ends; lines are counted from zero. -/
  first : Nat
  last : Nat
  kind : ChunkKind
  deriving DecidableEq, Repr

def joinLines (lines : List String) : String := Text.joined "\n" lines

/-- The lines collected since the last cut, latest first, and where they began. -/
structure Buffer where
  lines : List String := []
  start : Nat := 0
  deriving DecidableEq, Repr

namespace Buffer

/-- Adds line number `i`. -/
def push (b : Buffer) (i : Nat) (line : String) : Buffer :=
  { lines := line :: b.lines, start := if b.lines.isEmpty then i else b.start }

/-- The text collected. -/
def content (b : Buffer) : String := joinLines b.lines.reverse

/-- The number of characters of the text collected. -/
def size (b : Buffer) : Nat := (b.lines.map String.length).foldr (· + ·) 0 + (b.lines.length - 1)

/-- The piece that ends with line number `last`. -/
def piece (b : Buffer) (last : Nat) (kind : ChunkKind) : Piece :=
  ⟨b.lines.reverse, b.start, last, kind⟩

end Buffer

/-! ## Cutting after bodies -/

/-- The beginning of something that has a body. -/
def blockStart : Pattern :=
  oneOf
    [exactly "function", exactly "class", exactly "interface", exactly "type",
     inOrder
       [exactly "const", blanks, name, optionalBlanks, exactly "=", optionalBlanks,
        optional (.next (exactly "async") blanks), exactly "("],
     inOrder
       [exactly "export", blanks,
        oneOf (["function", "class", "interface", "type"].map exactly)]]

/-- Bodies of up to this many characters are kept together with what follows. -/
def smallBody : Nat := 100

/-- Where the cutting stands: the pieces cut off, latest first, the lines collected, the open
braces among them, and whether they are part of a body. -/
structure Cutting where
  done : List Piece := []
  buffer : Buffer := {}
  braces : Int := 0
  inBody : Bool := false
  deriving DecidableEq, Repr

namespace Cutting

/-- Cuts off the lines collected, up to line number `last`. -/
def cut (s : Cutting) (last : Nat) (kind : ChunkKind) : Cutting :=
  { done := s.buffer.piece last kind :: s.done }

/-- Cuts if the lines collected have more than `limit` characters. -/
def cutIfLarge (limit : Int) (i : Nat) (s : Cutting) : Cutting :=
  if limit < s.buffer.size then s.cut i .other else s

/-- Takes line number `i`. -/
def take (limit : Int) (s : Cutting) (i : Nat) (line : String) : Cutting :=
  if line.isEmpty then s
  else
    let buffer := s.buffer.push i line
    let inBody := s.inBody || blockStart.occursIn line
    let braces := s.braces + (Text.count line '\x7b' : Int) - Text.count line '\x7d'
    if inBody && braces ≤ 0 && Text.contains line "\x7d" then
      if smallBody < buffer.size then
        { s with buffer }.cut i (kindOf buffer.content)
      else cutIfLarge limit i { done := s.done, buffer }
    else cutIfLarge limit i { done := s.done, buffer, braces, inBody }

/-- The pieces once all lines are taken; what is left over reaches to the last line. -/
def finish (s : Cutting) (count : Nat) : List Piece :=
  (if s.buffer.lines.isEmpty then s.done else s.buffer.piece (count - 1) .other :: s.done).reverse

end Cutting

/-- Cuts lines after the bodies of functions and classes. -/
def cutByBodies (limit : Int) (lines : List String) : List Piece :=
  (lines.zipIdx.foldl (fun (s : Cutting) (line, i) => s.take limit i line) {}).finish lines.length

/-! ## Cutting at boundaries -/

/-- The beginning of a declaration at the outermost level. -/
def topLevelDeclaration : Pattern :=
  .next (optional (.next (exactly "export") blanks))
    (oneOf (["function", "class", "interface", "type"].map exactly))

/-- Whether a line begins with the pattern. -/
def beginsWith (p : Pattern) (line : String) : Bool :=
  (p.foundAt (.first line.toList)).isSome

/-- Whether a file may well be cut between two lines: after a closing brace, unless the statement
goes on, before a declaration, and after a blank line. -/
def isBoundary (line next : String) : Bool :=
  let current := Text.stripped line
  let following := Text.stripped next
  (Text.endsWith current "\x7d" && !Text.startsWith following "." &&
      !Text.startsWith following "else") ||
    beginsWith topLevelDeclaration next ||
    (current = "" && following ≠ "")

/-- Takes line number `i` and cuts if the lines collected are large enough or the next line lies
beyond a boundary. -/
def takeBlockLine (limit : Int) (s : List Piece × Buffer) (i : Nat) (line next : String) :
    List Piece × Buffer :=
  let buffer := if line.isEmpty then s.2 else s.2.push i line
  if !buffer.lines.isEmpty &&
      (limit ≤ buffer.size || (next ≠ "" && isBoundary line next)) then
    (buffer.piece i .other :: s.1, {})
  else (s.1, buffer)

/-- Cuts lines at boundaries between blocks; `i` is the number of the first of them. -/
def cutAtBoundaries (limit : Int) : Nat → List String → List Piece × Buffer → List Piece
  | count, [], (done, buffer) =>
    (if buffer.lines.isEmpty then done else buffer.piece (count - 1) .other :: done).reverse
  | i, line :: rest, s =>
    cutAtBoundaries limit (i + 1) rest (takeBlockLine limit s i line (rest.head?.getD ""))

/-- Cuts lines at natural boundaries. -/
def cutByBlocks (limit : Int) (lines : List String) : List Piece :=
  cutAtBoundaries limit 0 lines ([], {})

/-! ## Chunks of a file -/

/-- A part of a source file. -/
structure Chunk where
  /-- The path of the file and the number of the chunk in it. -/
  id : String
  content : String
  kind : ChunkKind
  /-- Lines are counted from one. -/
  firstLine : Nat
  lastLine : Nat
  references : List String
  deriving DecidableEq, Repr

/-- The chunks made of the pieces of a file. -/
def chunksOf (path : String) (pieces : List Piece) : List Chunk :=
  pieces.zipIdx.map fun (p, k) =>
    let content := joinLines p.lines
    { id := path ++ ":" ++ toString k
      content
      kind := p.kind
      firstLine := p.first + 1
      lastLine := p.last + 1
      references := references content }

/-- The pieces of a file: cut after bodies if that cuts at all, else at boundaries. -/
def cutFile (limit : Int) (lines : List String) : List Piece :=
  let byBodies := cutByBodies limit lines
  if 1 < byBodies.length then byBodies else cutByBlocks limit lines

def chunks (limit : Int) (path content : String) : List Chunk :=
  chunksOf path (cutFile limit (Text.lines content))

end Cartridge.Source
