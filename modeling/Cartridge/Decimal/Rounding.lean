/-!
# Rounding quotients

A quotient of natural numbers rounded to the nearest natural number. A half goes to the even
neighbour, for sums of money, scores and floating-point numbers alike.
-/

namespace Cartridge.Decimal

/-- `num / den` rounded to the nearest natural number, a half to the even one. -/
def roundDiv (num den : Nat) : Nat :=
  let quotient := num / den
  let twice := 2 * (num % den)
  if twice < den then quotient
  else if den < twice then quotient + 1
  else if quotient % 2 = 0 then quotient else quotient + 1

/-- The numerator and denominator of `m · b ^ e`. -/
def scaled (m b : Nat) (e : Int) : Nat × Nat :=
  match e with
  | .ofNat n => (m * Nat.pow b n, 1)
  | .negSucc n => (m, Nat.pow b (n + 1))

end Cartridge.Decimal
