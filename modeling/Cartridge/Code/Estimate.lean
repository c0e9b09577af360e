import Cartridge.Code.Placement
import Cartridge.Quantity
import Cartridge.Text.Digit

/-!
# Estimates

Rough figures for generated code: bytes of program, bytes of memory, and how good it is, from zero
to one.
-/

namespace Cartridge.Code

open Pattern (exactly inOrder)

/-- Bytes of work memory of the console. -/
def consoleRam : Nat := 8192

/-- Bytes of program memory that the console addresses at once. -/
def consoleRom : Nat := 32768

/-- Bytes of program: eight for each line that is not blank. -/
def romSize (code : String) : Nat :=
  8 * (Text.lines code).countP fun line => !Text.allBlank line.toList

/-- A byte variable. -/
def byteVariable : Pattern := inOrder [exactly "unsigned char ", nameRest]

/-- An integer variable. -/
def wordVariable : Pattern := inOrder [exactly "int ", nameRest]

/-- A length in brackets right behind a name, as group 1. -/
def sizedArray : Pattern :=
  inOrder [.wordEdge, exactly "[", .group 1 (.many Text.isDigit 1), exactly "]"]

/-- The length of an array, unless it has too many digits. -/
def arrayLength? (digits : List Char) : Option Nat :=
  if digits.length ≤ Text.digitLimit then some (Text.digitsValue digits) else none

/-- Bytes of memory: one for each byte variable, two for each integer, and the lengths of arrays.
None if a length has too many digits. -/
def ramUsage? (code : String) : Option Nat := do
  let cs := code.toList
  let bytes := (byteVariable.findAll cs).length
  let words := (wordVariable.findAll cs).length
  let lengths ← (sizedArray.findAll cs).mapM fun found => arrayLength? (found.group 1)
  return bytes + 2 * words + lengths.foldr (· + ·) 0

/-- A `main` without a result. -/
def plainMain : Pattern :=
  inOrder [exactly "void", .many Text.isBlank 1, exactly "main", .many Text.isBlank 0, exactly "("]

section Quality

variable {R : Type} [Quantity R] [Inhabited R]

/-- A change of the score that applies under a condition. -/
def adjusted (applies : Bool) (change : R → R) (score : R) : R :=
  if applies then change score else score

/-- How good the code is: a half to begin with, more for what suits the console, less for what does
not, and never outside zero and one. -/
def quality (code : String) : R :=
  let has := Text.contains code
  let hundredths (n : Int) : R := Quantity.ofRatio n 100
  let score : R := Quantity.ofRatio 1 2
  let score := adjusted (has consoleHeader) (· + hundredths 10) score
  let score := adjusted (has "unsigned char") (· + hundredths 10) score
  let score := adjusted (has "wait_vbl_done") (· + hundredths 10) score
  let score := adjusted (has "printf") (· + hundredths 5) score
  let score := adjusted (plainMain.occursIn code) (· + hundredths 10) score
  let score := adjusted (has "malloc" || has "free") (· - hundredths 20) score
  let score := adjusted (has "float" || has "double") (· - hundredths 15) score
  let score := adjusted (has "int " && !has "unsigned char") (· - hundredths 5) score
  let score := adjusted (code.length < 50) (· - hundredths 20) score
  Quantity.atLeast (Quantity.ofNat 0) (Quantity.atMost (Quantity.ofNat 1) score)

end Quality

/-- What makes the code suit the console, as it is reported. -/
def optimizations (code : String) : List String :=
  [("unsigned char", "8-bit variables used for GameBoy efficiency"),
   ("__at(0xFF80)", "Zero page optimization applied"),
   ("__code const", "Constants stored in ROM"),
   ("register", "Register optimization hints added")].filterMap fun (mark, report) =>
     if Text.contains code mark then some report else none

end Cartridge.Code
