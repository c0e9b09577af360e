import Cartridge.Code.Review
import Cartridge.Prompt.Build
import Cartridge.Target

/-!
# Learning

Conversions that went well serve as examples in later prompts. The best hundred are kept; of two
equally good ones the older comes first.
-/

namespace Cartridge

/-- A conversion that went well. -/
structure Example (R : Type) where
  source : String
  code : String
  target : Target
  quality : R
  performance : Code.Performance R
  /-- When it was made, in seconds. -/
  time : R
  provider : String

namespace Example

/-- Words whose use makes two sources alike. -/
def keywords : List String :=
  ["console.log", "function", "const", "let", "var", "if", "for", "while", "array", "object",
   "class", "async", "await", "Promise", "setTimeout", "addEventListener", "Math.", "parseInt",
   "parseFloat", "JSON.", "forEach", "map", "filter", "reduce", "push", "pop", "splice"]

/-- The words that a source uses. -/
def keywordsOf (source : String) : List String := keywords.filter (Text.contains source)

/-- At most so many examples are kept. -/
def capacity : Nat := 100

variable {R : Type} [Quantity R] [Inhabited R]

/-- The better examples first; of two equally good ones the first stays first. -/
def byQuality (examples : List (Example R)) : List (Example R) :=
  examples.mergeSort fun a b => Quantity.upTo b.quality a.quality

/-- The examples after one more is made: all of them while there is room, else the best. -/
def remember (examples : List (Example R)) (new : Example R) : List (Example R) :=
  let all := examples ++ [new]
  if capacity < all.length then (byQuality all).take capacity else all

/-- Whether an example is good enough to be shown for a source that uses some words. -/
def suits (words : List String) (e : Example R) : Bool :=
  Quantity.below (Quantity.ofRatio 7 10) e.quality && (keywordsOf e.source).any words.contains

/-- The best examples that share a word with a source. -/
def similar (examples : List (Example R)) (source : String) : List (Example R) :=
  let words := keywordsOf source
  (byQuality (examples.filter (suits words))).take Prompt.sampleLimit

/-- An example as a prompt shows it. -/
def sample (e : Example R) : Prompt.Sample := ⟨e.source, e.code⟩

/-- What the code of an example costs the console. -/
def performanceOf (code : String) (quality : R) : Except Code.Uncountable (Code.Performance R) := do
  let rom := Code.romSize code
  let ram ← Code.ramUsage code
  let memory ← Code.remaining ram Code.consoleRam
  let size ← Code.remaining rom Code.consoleRom
  return ⟨rom * 4, memory, size, quality⟩

end Example

end Cartridge
