import Cartridge.Decimal.Binary
import Cartridge.Text.Blank
import Cartridge.Text.Digit
import Cartridge.Text.Casing

/-!
# Reading decimals

The double that a decimal text stands for: the one nearest to the exact value of the digits. A text
given by a person may have blanks around it, digits of any script, single underscores between
digits, and words for the values that are not numbers.
-/

namespace Cartridge.Decimal

/-- The double nearest to `digits · 10 ^ power`. A power beyond all doubles is cut off first; the
digits then still decide that the value is zero or infinite. -/
def ofDigits (negative : Bool) (digits : Nat) (power : Int) : Float :=
  let size : Int := (digits.log2 : Int)
  if digits = 0 then nearest negative 0 1
  else if power > 400 then nearest negative (Nat.pow 10 400) 1
  else if power < -(400 + size) then nearest negative 0 1
  else
    let (num, den) := scaled digits 10 power
    nearest negative num den

/-- Digits with single underscores between them; `after` tells whether a digit stands before. Gives
the digits' values and the text after them. -/
def digitRun (after : Bool) : List Char → List Nat × List Char
  | [] => ([], [])
  | c :: rest =>
    match Text.digitValue? c with
    | some d =>
      let (more, left) := digitRun true rest
      (d :: more, left)
    | none =>
      if c = '_' && after && rest.head?.any Text.isDigit then digitRun false rest
      else ([], c :: rest)

/-- The number with the given digits, most significant first. -/
def ofDigitValues (ds : List Nat) : Nat := ds.foldl (fun n d => 10 * n + d) 0

/-- A sign and the text after it; true for a minus. -/
def sign : List Char → Bool × List Char
  | '-' :: rest => (true, rest)
  | '+' :: rest => (false, rest)
  | cs => (false, cs)

/-- The exponent that follows a mantissa, if the rest of the text is one. -/
def exponent? : List Char → Option Int
  | [] => some 0
  | mark :: rest =>
    if mark = 'e' || mark = 'E' then
      let (negative, digits) := sign rest
      match digitRun false digits with
      | ([], _) => none
      | (ds, []) => some (if negative then -(ofDigitValues ds : Int) else ofDigitValues ds)
      | (_, _ :: _) => none
    else none

/-- The size of a decimal without its sign. -/
def unsigned? (negative : Bool) (cs : List Char) : Option Float :=
  let word := Text.lower (.ofList cs)
  if word = "inf" || word = "infinity" then
    some (infinity negative)
  else if word = "nan" then some notANumber
  else
    let (whole, rest) := digitRun false cs
    let (fraction, rest) :=
      match rest with
      | '.' :: rest' => digitRun false rest'
      | _ => ([], rest)
    if whole.isEmpty && fraction.isEmpty then none
    else
      (exponent? rest).map fun e =>
        ofDigits negative (ofDigitValues (whole ++ fraction)) (e - fraction.length)

/-- Whether a character may stand around a number: all blanks but the four that separate units of
information. -/
def isPadding (c : Char) : Bool := Text.isBlank c && !(0x1C ≤ c.toNat && c.toNat ≤ 0x1F)

/-- A text without what may stand around a number. -/
def unpadded (cs : List Char) : List Char :=
  ((cs.dropWhile isPadding).reverse.dropWhile isPadding).reverse

/-- The double written by a text, if it writes one. -/
def ofText? (s : String) : Option Float :=
  let (negative, rest) := sign (unpadded s.toList)
  unsigned? negative rest

end Cartridge.Decimal
