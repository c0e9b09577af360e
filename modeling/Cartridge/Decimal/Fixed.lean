import Cartridge.Decimal.Binary

/-!
# Fixed places

Numbers with a fixed number of places after the point. The exact value is rounded, a half to the
even neighbour, and a negative number that rounds to zero keeps its sign.
-/

namespace Cartridge.Decimal

/-- Digits, with zeros in front up to a width. -/
def padded (width n : Nat) : String :=
  let digits := Nat.toDigits 10 n
  .ofList (List.replicate (width - digits.length) '0' ++ digits)

def signText (negative : Bool) : String := if negative then "-" else ""

/-- A number with `places` digits after the point. -/
def fixed (places : Nat) : Reading → String
  | .finite negative num den =>
    let units := roundDiv (num * Nat.pow 10 places) den
    let whole := toString (units / Nat.pow 10 places)
    let fraction := if places = 0 then "" else "." ++ padded places (units % Nat.pow 10 places)
    signText negative ++ whole ++ fraction
  | .infinite negative => signText negative ++ "inf"
  | .undefined => "nan"

end Cartridge.Decimal
