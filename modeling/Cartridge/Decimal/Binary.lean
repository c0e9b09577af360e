import Cartridge.Decimal.Rounding

/-!
# Double-precision numbers as ratios

A finite double is a ratio of natural numbers with a sign, and every ratio has a nearest double.
The nearest double of a ratio too large for the format is an infinity.
-/

namespace Cartridge.Decimal

/-- What a number says when it is written down. -/
inductive Reading where
  /-- The ratio `num / den`, with a sign that zero may carry too. -/
  | finite (negative : Bool) (num den : Nat)
  | infinite (negative : Bool)
  | undefined
  deriving DecidableEq, Repr

/-- The number of doubles from one power of two to the next. -/
def mantissaSpan : Nat := Nat.pow 2 52

/-- Word of the positive infinity. -/
def infinityWord : Nat := 2047 * mantissaSpan

/-- Word of the negative zero; set in the word of every negative number. -/
def signWord : Nat := Nat.pow 2 63

/-- The mantissa and the power of two of a finite word without a sign. -/
def mantissaOf (word : Nat) : Nat × Int :=
  let field := word / mantissaSpan
  if field = 0 then (word, -1074) else (word % mantissaSpan + mantissaSpan, (field : Int) - 1075)

/-- What a double says. -/
def reading (x : Float) : Reading :=
  let word := x.toBits.toNat
  let negative := signWord ≤ word
  let size := word % signWord
  if size < infinityWord then
    let (m, e) := mantissaOf size
    let (num, den) := scaled m 2 e
    .finite negative num den
  else if size = infinityWord then .infinite negative
  else .undefined

/-- The word of the double nearest to `num / den`. With `m · 2 ^ e` the nearest number of the
format, `e ≥ -1074` and `m ≤ 2 ^ 53`, the word is `(e + 1074) · 2 ^ 52 + m`: the leading bit of
`m` carries into the exponent field. -/
def nearestWord (num den : Nat) : Nat :=
  if num = 0 then 0 else
    let guess : Int := (num.log2 : Int) - den.log2 - 53
    let e₀ := max guess (-1074)
    let quotientAt (e : Int) : Nat × Nat :=
      match e with
      | .ofNat n => (num, den * Nat.pow 2 n)
      | .negSucc n => (num * Nat.pow 2 (n + 1), den)
    let first := quotientAt e₀
    let e := if first.1 / first.2 < Nat.pow 2 53 then e₀ else e₀ + 1
    let (a, b) := quotientAt e
    min infinityWord ((e + 1074).toNat * mantissaSpan + roundDiv a b)

/-- The double nearest to a ratio with a sign; an infinity if the ratio is too large. -/
def nearest (negative : Bool) (num den : Nat) : Float :=
  let word := nearestWord num den
  .ofBits (UInt64.ofNat (if negative then signWord + word else word))

/-- An infinity. -/
def infinity (negative : Bool) : Float :=
  .ofBits (UInt64.ofNat (if negative then signWord + infinityWord else infinityWord))

/-- The value that is not a number. -/
def notANumber : Float := .ofBits (UInt64.ofNat (infinityWord + Nat.pow 2 51))

/-- Whether a double is neither infinite nor undefined. -/
def isFinite (x : Float) : Bool := x.toBits.toNat % signWord < infinityWord

end Cartridge.Decimal
