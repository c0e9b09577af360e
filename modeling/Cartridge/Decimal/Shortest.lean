import Cartridge.Decimal.Fixed

/-!
# Shortest decimals

The text of a double with the fewest significant digits that read back as the same double, and of
those the nearest to it. Numbers from `0.0001` up to sixteen digits before the point are written
out; all others have an exponent of at least two digits. A point or an exponent is always there, so
the text of a double never looks like that of an integer.
-/

namespace Cartridge.Decimal

/-- Significant digits and the power of ten of their last place: `digits · 10 ^ place`. -/
structure Scientific where
  digits : Nat
  place : Int

namespace Scientific

/-- Numerator and denominator. -/
def ratio (s : Scientific) : Nat × Nat := scaled s.digits 10 s.place

/-- Whether the decimal reads back as the double with the given word. -/
def readsAs (s : Scientific) (word : Nat) : Bool :=
  let (num, den) := s.ratio
  nearestWord num den = word

/-- The number without the zeros it ends with, at most `fuel` of them. -/
def trimmed : Nat → Scientific → Scientific
  | 0, s => s
  | fuel + 1, s =>
    if s.digits ≠ 0 && s.digits % 10 = 0 then trimmed fuel ⟨s.digits / 10, s.place + 1⟩ else s

end Scientific

/-- The number of decimal digits before the point of `num / den`; zero or less for a fraction. The
first estimate comes from the binary sizes and is at most one too high. -/
def leadingPlace (num den : Nat) : Int :=
  let bits : Int := (num.log2 : Int) - den.log2
  let estimate : Int := (bits * 30103).fdiv 100000 + 2
  let atLeast (e : Int) : Bool :=
    match e with
    | .ofNat n => den * Nat.pow 10 n ≤ num
    | .negSucc n => den ≤ num * Nat.pow 10 (n + 1)
  if atLeast estimate then estimate + 1
  else if atLeast (estimate - 1) then estimate
  else if atLeast (estimate - 2) then estimate - 1
  else estimate - 2

/-- The decimals with a given last place that lie next to `num / den`, below and above. -/
def neighbours (num den : Nat) (place : Int) : Scientific × Scientific × Ordering :=
  let (a, b) :=
    match place with
    | .ofNat n => (num, den * Nat.pow 10 n)
    | .negSucc n => (num * Nat.pow 10 (n + 1), den)
  let low := a / b
  (⟨low, place⟩, ⟨low + 1, place⟩, compare (2 * (a % b)) b)

/-- The better of the two neighbours that read back as `word`: the nearer, and of two equally near
ones the one with the even last digit. -/
def closest (word num den : Nat) (place : Int) : Option Scientific :=
  let (low, high, side) := neighbours num den place
  match low.readsAs word, high.readsAs word with
  | true, true =>
    match side with
    | .lt => some low
    | .gt => some high
    | .eq => some (if low.digits % 2 = 0 then low else high)
  | true, false => some low
  | false, true => some high
  | false, false => none

/-- The shortest decimal of a finite double: the first digit count from one to seventeen with a
decimal that reads back. -/
def shortest (word num den : Nat) : Scientific :=
  let top := leadingPlace num den
  let tries := (List.range 17).findSome? fun (n : Nat) =>
    closest word num den (top - ((n : Int) + 1))
  (tries.getD ⟨roundDiv num den, 0⟩).trimmed 17

/-- The shortest decimal written out, with a point or an exponent. -/
def Scientific.plain (s : Scientific) : String :=
  let digits := Nat.toDigits 10 s.digits
  let count := digits.length
  -- the power of ten of the first digit
  let lead : Int := s.place + count - 1
  if -4 ≤ lead && lead < 16 then
    if 0 ≤ s.place then .ofList (digits ++ List.replicate s.place.toNat '0') ++ ".0"
    else if 0 ≤ lead then
      .ofList (digits.take (lead.toNat + 1)) ++ "." ++ .ofList (digits.drop (lead.toNat + 1))
    else "0." ++ .ofList (List.replicate (-lead - 1).toNat '0' ++ digits)
  else
    let fraction := if count = 1 then "" else "." ++ .ofList (digits.drop 1)
    let sign := if lead < 0 then "-" else "+"
    .ofList (digits.take 1) ++ fraction ++ "e" ++ sign ++ padded 2 lead.natAbs

def plain (x : Float) : String :=
  match reading x with
  | .finite negative num den =>
    signText negative ++
      if num = 0 then "0.0" else (shortest (x.toBits.toNat % signWord) num den).plain
  | .infinite negative => signText negative ++ "inf"
  | .undefined => "nan"

end Cartridge.Decimal
