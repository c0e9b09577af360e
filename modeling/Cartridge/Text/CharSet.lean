/-!
# Sets of characters

A set of characters given by the code points at which membership changes. A code point belongs to
the set when an odd number of these boundaries lie at or below it, so a table of ranges costs two
numbers a range and is searched from the lowest end, where most text lies.
-/

namespace Cartridge.Text

/-- A set of characters, given by its boundaries in ascending order. -/
structure CharSet where
  bounds : List Nat

namespace CharSet

/-- Whether `n` lies at or above an odd number of the ascending boundaries. -/
def within : List Nat → Nat → Bool
  | [], _ => false
  | bound :: rest, n => if n < bound then false else !within rest n

/-- Whether a character belongs to the set. -/
def contains (s : CharSet) (c : Char) : Bool := within s.bounds c.toNat

end CharSet

end Cartridge.Text
