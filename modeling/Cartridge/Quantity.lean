import Cartridge.Decimal.Fixed

/-!
# Quantities

Money, seconds and scores. Everything that counts them is written once for every arithmetic that
offers sums, products, quotients and a comparison: the program runs in double precision, and laws
about budgets, clocks and costs can be stated over exact ratios.
-/

namespace Cartridge

/-- An arithmetic for money, seconds and scores. -/
class Quantity (R : Type) extends Add R, Sub R, Mul R, Div R where
  /-- The value nearest to `num / den`, unless it is too large for the arithmetic. -/
  ofRatio? (num : Int) (den : Nat) : Option R
  /-- Whether one value is below another. -/
  below : R → R → Bool
  /-- Whether one value is below or equal to another. -/
  upTo : R → R → Bool
  /-- What the value says when it is written down. -/
  reading : R → Decimal.Reading

namespace Quantity

variable {R : Type} [Quantity R]

/-- The quotient of an integer by a positive natural number. Only for quotients that are not too
large for the arithmetic. -/
def ofRatio [Inhabited R] (num : Int) (den : Nat) : R := (ofRatio? num den).getD default

/-- The value of a natural number. -/
def ofNat [Inhabited R] (n : Nat) : R := ofRatio n 1

/-- A value with `places` digits after the point. -/
def fixed (places : Nat) (x : R) : String := Decimal.fixed places (reading x)

/-- The larger of a bound and a value; the bound where they do not compare. -/
def atLeast (bound x : R) : R := if below bound x then x else bound

/-- The smaller of a bound and a value; the bound where they do not compare. -/
def atMost (bound x : R) : R := if below x bound then x else bound

/-- The values added up from the left, starting at zero. -/
def total [Inhabited R] (xs : List R) : R := xs.foldl (· + ·) (ofNat 0)

/-- The least integer that is no less than a value; zero where there is none. -/
def ceiling (x : R) : Int :=
  match reading x with
  | .finite true num den => -((num / den : Nat) : Int)
  | .finite false num den => ((num + den - 1) / den : Nat)
  | .infinite _ | .undefined => 0

end Quantity

/-- A number that was given as a whole number or as a value of the arithmetic. -/
inductive Number (R : Type) where
  | whole (n : Int)
  | real (x : R)

namespace Number

variable {R : Type} [Quantity R]

/-- Whether a value is above the number; exact also for whole numbers of any size. -/
def isBelow (limit : Number R) (x : R) : Bool :=
  match limit with
  | .real y => Quantity.below y x
  | .whole n =>
    match Quantity.reading x with
    | .finite negative num den => n * den < (if negative then -(num : Int) else num)
    | .infinite negative => !negative
    | .undefined => false

def isZero : Number R → Bool
  | .whole n => n = 0
  | .real x =>
    match Quantity.reading x with
    | .finite _ num _ => num = 0
    | .infinite _ | .undefined => false

end Number

instance : Quantity Float where
  ofRatio? num den :=
    let x := Decimal.nearest (num < 0) num.natAbs den
    if Decimal.isFinite x then some x else none
  below x y := x < y
  upTo x y := x ≤ y
  reading := Decimal.reading

instance : Quantity Rat where
  ofRatio? num den := some (mkRat num den)
  below x y := x < y
  upTo x y := x ≤ y
  reading x := .finite (x < 0) x.num.natAbs x.den

end Cartridge
