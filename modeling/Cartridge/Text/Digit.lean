/-!
# Decimal digits

Every script that counts in tens has its ten digits in a row, so a digit is known by the zero that
opens its row.
-/

namespace Cartridge.Text

/-- The zeros of all scripts, in ascending order; the nine digits after each follow it directly. -/
def digitZeros : List Nat :=
  [48, 1632, 1776, 1984, 2406, 2534, 2662, 2790, 2918, 3046, 3174, 3302, 3430, 3558, 3664, 3792,
   3872, 4160, 4240, 6112, 6160, 6470, 6608, 6784, 6800, 6992, 7088, 7232, 7248, 42528, 43216,
   43264, 43472, 43504, 43600, 44016, 65296, 66720, 68912, 69734, 69872, 69942, 70096, 70384,
   70736, 70864, 71248, 71360, 71472, 71904, 72016, 72784, 73040, 73120, 92768, 92864, 93008,
   120782, 120792, 120802, 120812, 120822, 123200, 123632, 125264, 130032]

/-- The value of a decimal digit of any script. -/
def digitValue? (c : Char) : Option Nat :=
  (digitZeros.find? fun z => z ≤ c.toNat && c.toNat < z + 10).map (c.toNat - ·)

/-- Whether a character is a decimal digit of some script. -/
def isDigit (c : Char) : Bool := (digitValue? c).isSome

/-- The number written by a row of digits, most significant first. -/
def digitsValue (cs : List Char) : Nat :=
  cs.foldl (fun n c => 10 * n + (digitValue? c).getD 0) 0

/-- Most digits of a whole number that can be read or written. -/
def digitLimit : Nat := 4300

/-- A whole number has few enough digits to be read and written. -/
def Short (n : Int) : Prop := (Nat.toDigits 10 n.natAbs).length ≤ digitLimit

instance (n : Int) : Decidable (Short n) := inferInstanceAs (Decidable (_ ≤ _))

end Cartridge.Text
