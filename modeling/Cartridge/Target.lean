import Cartridge.Text.Digit
import Cartridge.Text.Search

/-!
# Targets

What generated code is made for: the console, its memory, the features in use, and what matters
most. A target may also carry a summary of the project that the code belongs to.
-/

namespace Cartridge

/-- Where generated code should keep its variables. -/
structure Layout where
  /-- Variables for the fast memory at 0xFF80. -/
  zeroPage : List String := []
  /-- Variables for the work memory at 0xC000. -/
  workRam : List String := []
  romBank : Int := 1
  ramBank : Option Int := none
  deriving DecidableEq, Repr

/-- What generated code is made for. -/
structure Target where
  console : String := "dmg"
  /-- In kilobytes. -/
  availableRam : Int := 8
  currentBank : Int := 1
  features : List String := ["sprites", "background", "sound", "interrupts"]
  /-- What to optimise for. -/
  focus : String := "balance"
  layout : Option Layout := none
  /-- What the code has to know of the rest of its project. -/
  project : Option String := none
  deriving DecidableEq, Repr

namespace Target

/-- The consoles that code can be made for. -/
def consoles : List String := ["dmg", "cgb", "sgb"]

/-- What can matter most. -/
def foci : List String := ["size", "speed", "balance"]

/-- The features of a console that code can use. -/
def knownFeatures : List String :=
  ["sprites", "background", "sound", "interrupts", "banking", "link", "timer", "serial"]

/-- What is wrong with a target. -/
inductive Problem where
  | console (name : String)
  | focus (name : String)
  | features (unknown : List String)
  deriving DecidableEq, Repr

def Problem.message : Problem → String
  | .console name =>
    "unknown target '" ++ name ++ "' (expected one of " ++ Text.joined ", " consoles ++ ")"
  | .focus name =>
    "unknown optimize_for '" ++ name ++ "' (expected one of " ++ Text.joined ", " foci ++ ")"
  | .features unknown => "unknown features: " ++ Text.joined ", " unknown

/-- Everything that is wrong with a target; nothing if it can be made code for. -/
def problems (t : Target) : List Problem :=
  let unknown := t.features.filter fun f => !knownFeatures.contains f
  (if consoles.contains t.console then [] else [.console t.console]) ++
  (if foci.contains t.focus then [] else [.focus t.focus]) ++
  (if unknown.isEmpty then [] else [.features unknown])

/-- The whole numbers of a target. -/
def numbers (t : Target) : List Int :=
  t.availableRam :: t.currentBank ::
    (t.layout.map fun l => l.romBank :: l.ramBank.toList).getD []

/-- The whole numbers of a target can be written. -/
def Writable (t : Target) : Prop := ∀ n ∈ t.numbers, Text.Short n

instance (t : Target) : Decidable t.Writable := inferInstanceAs (Decidable (∀ n ∈ t.numbers, _))

end Target

end Cartridge
