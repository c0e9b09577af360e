import Cartridge.Decimal.Shortest
import Cartridge.Json.Basic
import Cartridge.Text.Quoted

/-!
# Values in messages

The form in which a message shows a value that it complains about: strings in quotes, truth values
and the missing value capitalised, lists and objects on one line.
-/

namespace Cartridge.Json

mutual

/-- The value as a message shows it. -/
def shown : Json → String
  | .null => "None"
  | .bool b => if b then "True" else "False"
  | .int n => toString n
  | .float x => Decimal.plain x
  | .str s => Text.quoted s
  | .arr items => "[" ++ ", ".intercalate (shownItems items) ++ "]"
  | .obj entries => "\x7b" ++ ", ".intercalate (shownEntries entries) ++ "\x7d"

/-- The items, each as a message shows it. -/
def shownItems : List Json → List String
  | [] => []
  | item :: rest => shown item :: shownItems rest

/-- The entries, each as a message shows it. -/
def shownEntries : List (String × Json) → List String
  | [] => []
  | (key, value) :: rest => (Text.quoted key ++ ": " ++ shown value) :: shownEntries rest

end

/-- The text of a value that stands alone: a string is itself. -/
def asText : Json → String
  | .str s => s
  | value => shown value

def kindName : Json → String
  | .null => "NoneType"
  | .bool _ => "bool"
  | .int _ => "int"
  | .float _ => "float"
  | .str _ => "str"
  | .arr _ => "list"
  | .obj _ => "dict"

end Cartridge.Json
