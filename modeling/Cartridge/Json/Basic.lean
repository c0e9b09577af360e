import Cartridge.Entries

/-!
# Data documents

The values of a data document: whole numbers of any size apart from floating-point numbers, and
objects as lists of entries, so that the order of keys is kept.
-/

namespace Cartridge

/-- A value of a data document. -/
inductive Json where
  | null
  | bool (b : Bool)
  | int (n : Int)
  | float (x : Float)
  | str (s : String)
  | arr (items : List Json)
  | obj (entries : List (String × Json))

namespace Json

instance : Inhabited Json := ⟨.null⟩

/-- The value of a key, if the value is an object that has it. -/
def get? (key : String) : Json → Option Json
  | .obj entries => entries.lookup key
  | _ => none

/-- The value of a key, null where there is none. -/
def get (j : Json) (key : String) : Json := (j.get? key).getD .null

/-- Whether a condition on it would hold: everything but null, false, zero and the empty values. -/
def isTruthy : Json → Bool
  | .null => false
  | .bool b => b
  | .int n => n ≠ 0
  | .float x => !(x == 0.0)
  | .str s => s ≠ ""
  | .arr items => !items.isEmpty
  | .obj entries => !entries.isEmpty

end Json

end Cartridge
