import Cartridge.Decimal.Shortest
import Cartridge.Json.Basic
import Cartridge.Text.Hex

/-!
# Writing data documents

Two written forms of a value: on one line, and indented by two blanks a level with one item a line.
Both are plain ASCII: all other characters are written by their UTF-16 units in hexadecimal.
-/

namespace Cartridge.Json

/-- The escape of one UTF-16 unit. -/
def unitEscape (n : Nat) : List Char := '\\' :: 'u' :: Text.hexDigits 4 n

/-- A character as it stands in a written string. -/
def escaped (c : Char) : List Char :=
  match c with
  | '"' => ['\\', '"']
  | '\\' => ['\\', '\\']
  | '\n' => ['\\', 'n']
  | '\r' => ['\\', 'r']
  | '\t' => ['\\', 't']
  | '\x08' => ['\\', 'b']
  | '\x0c' => ['\\', 'f']
  | _ =>
    let n := c.toNat
    if 0x20 ≤ n && n < 0x7f then [c]
    else if n < 0x10000 then unitEscape n
    else unitEscape (0xd800 + (n - 0x10000) / 0x400) ++ unitEscape (0xdc00 + (n - 0x10000) % 0x400)

/-- A string in quotes. -/
def quoted (s : String) : String := .ofList ('"' :: s.toList.flatMap escaped ++ ['"'])

/-- A floating-point number; the values that are not finite have names. -/
def floatText (x : Float) : String :=
  match Decimal.reading x with
  | .finite .. => Decimal.plain x
  | .infinite negative => if negative then "-Infinity" else "Infinity"
  | .undefined => "NaN"

mutual

/-- The value on one line. -/
def line : Json → String
  | .null => "null"
  | .bool b => if b then "true" else "false"
  | .int n => toString n
  | .float x => floatText x
  | .str s => quoted s
  | .arr items => "[" ++ ", ".intercalate (lineItems items) ++ "]"
  | .obj entries => "\x7b" ++ ", ".intercalate (lineEntries entries) ++ "\x7d"

/-- The items, each on one line. -/
def lineItems : List Json → List String
  | [] => []
  | item :: rest => line item :: lineItems rest

/-- The entries, each on one line. -/
def lineEntries : List (String × Json) → List String
  | [] => []
  | (key, value) :: rest => (quoted key ++ ": " ++ line value) :: lineEntries rest

end

/-- A line break and the indentation of a level. -/
def lineBreak (level : Nat) : String := "\n" ++ .ofList (List.replicate (2 * level) ' ')

mutual

/-- The value over several lines; its own first line stands at a level of indentation. -/
def page (level : Nat) : Json → String
  | .arr [] => "[]"
  | .obj [] => "\x7b\x7d"
  | .arr (item :: rest) =>
    let items := pageItems (level + 1) (item :: rest)
    "[" ++ lineBreak (level + 1) ++ ("," ++ lineBreak (level + 1)).intercalate items ++
      lineBreak level ++ "]"
  | .obj (entry :: rest) =>
    let entries := pageEntries (level + 1) (entry :: rest)
    "\x7b" ++ lineBreak (level + 1) ++ ("," ++ lineBreak (level + 1)).intercalate entries ++
      lineBreak level ++ "\x7d"
  | value => line value

/-- The items, each over several lines. -/
def pageItems (level : Nat) : List Json → List String
  | [] => []
  | item :: rest => page level item :: pageItems level rest

/-- The entries, each over several lines. -/
def pageEntries (level : Nat) : List (String × Json) → List String
  | [] => []
  | (key, value) :: rest => (quoted key ++ ": " ++ page level value) :: pageEntries level rest

end

def document (j : Json) : String := page 0 j

end Cartridge.Json
