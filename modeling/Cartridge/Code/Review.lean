import Cartridge.Code.Estimate

/-!
# Review

Checks on generated code that need no compiler. Each finding has a weight in the score: an error a
quarter, a warning a tenth, a remark nothing.
-/

namespace Cartridge.Code

open Pattern (exactly inOrder oneOf)

/-- How much a finding matters. -/
inductive Severity where
  | error
  | warning
  | info
  deriving DecidableEq, Repr

/-- What a review finds; lines are counted from one. -/
inductive Finding where
  | dynamicMemory (line : Nat)
  | floatingPoint (line : Nat)
  | noMain
  | noHeader
  | unbalanced
  deriving DecidableEq, Repr

namespace Finding

/-- How much the finding matters. -/
def severity : Finding → Severity
  | .dynamicMemory _ | .unbalanced => .error
  | .floatingPoint _ | .noHeader => .warning
  | .noMain => .info

def message : Finding → String
  | .dynamicMemory _ => "Dynamic memory allocation is not available on GameBoy"
  | .floatingPoint _ => "Floating point is emulated in software on GameBoy"
  | .noMain => "No main() function found"
  | .noHeader => "Missing GBDK header"
  | .unbalanced => "Unbalanced braces"

def line? : Finding → Option Nat
  | .dynamicMemory n | .floatingPoint n => some n
  | .noMain | .noHeader | .unbalanced => none

/-- What to do about it. -/
def suggestion? : Finding → Option String
  | .dynamicMemory _ => some "Use fixed-size static arrays"
  | .floatingPoint _ => some "Use fixed point arithmetic"
  | .noHeader => some "Add #include <gb/gb.h>"
  | .noMain | .unbalanced => none

end Finding

/-- A word of a list, whole at its left end. -/
def wordOf (words : List String) : Pattern := .next .wordEdge (oneOf (words.map exactly))

/-- A call that allocates or frees memory. -/
def allocation : Pattern :=
  inOrder [wordOf ["malloc", "calloc", "realloc", "free"], .many Text.isBlank 0, exactly "("]

def floatType : Pattern := inOrder [wordOf ["float", "double"], .wordEdge]

/-- The head of a `main`. -/
def mainHead : Pattern :=
  inOrder [wordOf ["void", "int"], .many Text.isBlank 1, exactly "main", .many Text.isBlank 0,
    exactly "("]

/-- What is wrong with one line. -/
def lineFindings (number : Nat) (line : String) : List Finding :=
  (if allocation.occursIn line then [.dynamicMemory number] else []) ++
  (if floatType.occursIn line then [.floatingPoint number] else [])

/-- What is wrong with the code: line by line first, then as a whole. -/
def findings (code : String) : List Finding :=
  ((Text.lines code).zipIdx 1).flatMap (fun (line, number) => lineFindings number line) ++
  (if mainHead.occursIn code then [] else [.noMain]) ++
  (if Text.contains code consoleHeader then [] else [.noHeader]) ++
  (if Text.count code '\x7b' = Text.count code '\x7d' then [] else [.unbalanced])

/-- What the code will cost the console. -/
structure Performance (R : Type) where
  cycles : Nat
  memoryEfficiency : R
  sizeEfficiency : R
  overall : R

/-- The outcome of a review. -/
structure Review (R : Type) where
  findings : List Finding
  score : R
  performance : Performance R

namespace Review

variable {R : Type}

def valid (r : Review R) : Bool := r.findings.all (·.severity ≠ .error)

/-- The messages of errors and warnings, in order. -/
def complaints (r : Review R) : List String :=
  (r.findings.filter (·.severity ≠ .info)).map (·.message)

end Review

/-- Why figures could not be worked out. -/
inductive Uncountable where
  /-- The length of an array has too many digits. -/
  | tooManyDigits
  /-- The size is too large for the arithmetic. -/
  | tooLarge
  deriving DecidableEq, Repr

/-- Bytes of memory, or why they could not be counted. -/
def ramUsage (code : String) : Except Uncountable Nat :=
  match ramUsage? code with
  | some n => .ok n
  | none => .error .tooManyDigits

section Scores

variable {R : Type} [Quantity R] [Inhabited R]

/-- What is left of one when `used` of `available` are taken; below zero if more are used. -/
def remaining (used available : Nat) : Except Uncountable R :=
  match Quantity.ofRatio? (R := R) used available with
  | some share => .ok (Quantity.ofNat 1 - share)
  | none => .error .tooLarge

/-- The score of a list of findings, never below zero. -/
def score (found : List Finding) : R :=
  let errors : R := Quantity.ofNat (found.countP (·.severity = .error))
  let warnings : R := Quantity.ofNat (found.countP (·.severity = .warning))
  Quantity.atLeast (Quantity.ofNat 0)
    (Quantity.ofNat 1 - errors * Quantity.ofRatio 1 4 - warnings * Quantity.ofRatio 1 10)

def review (code : String) : Except Uncountable (Review R) := do
  let found := findings code
  let score : R := score found
  let rom := romSize code
  let ram ← ramUsage code
  let memory ← remaining ram consoleRam
  let memory : R := Quantity.atLeast (Quantity.ofNat 0) memory
  let size ← remaining rom consoleRom
  let size : R := Quantity.atLeast (Quantity.ofNat 0) size
  let overall := (score + memory + size) / Quantity.ofNat 3
  return ⟨found, score, ⟨rom * 4, memory, size, overall⟩⟩

end Scores

end Cartridge.Code
