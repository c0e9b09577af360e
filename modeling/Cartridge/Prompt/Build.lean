import Cartridge.Failure
import Cartridge.Prompt.Texts
import Cartridge.Target
import Cartridge.Text.Blank
import Cartridge.Text.Casing

/-!
# Prompts

The text that asks a language model to turn a piece of source into C for a target. A template has
five places to fill in: the console, what is special about the target, the console's library as far
as the target uses it, earlier conversions as examples, and the form of the answer. The places are
filled one after another, in this order: console, library, target, answer, examples.
-/

namespace Cartridge.Prompt

/-- An earlier conversion: source and code. -/
structure Sample where
  source : String
  code : String
  deriving DecidableEq, Repr

def text (lines : List String) : String := Text.joined "\n" lines

/-- The template that is used unless another is given. -/
def template : String := text templateLines

/-- What the console and the chosen target have to make do with. -/
def constraints (t : Target) : String :=
  text
    ["TARGET: " ++ Text.upper t.console ++ " (" ++
       (consoleNotes.lookup t.console).getD "GameBoy compatible" ++ ")",
     "AVAILABLE RAM: " ++ toString t.availableRam ++ "KB",
     "CURRENT ROM BANK: " ++ toString t.currentBank,
     "OPTIMIZATION FOCUS: " ++ t.focus,
     "ENABLED FEATURES: " ++ Text.joined ", " t.features]

/-- Where the variables should go. -/
def layoutInfo (l : Layout) : String :=
  "- Zero page variables: " ++ Text.joined ", " l.zeroPage ++ "\n" ++
  "- Work RAM variables: " ++ Text.joined ", " l.workRam ++ "\n" ++
  match l.ramBank with
  | some bank => if bank = 0 then "" else "- RAM bank: " ++ toString bank ++ "\n"
  | none => ""

/-- What matters most, in more words. -/
def focusInfo (focus : String) : String :=
  if focus = "size" then
    "- PRIORITY: Minimize ROM/RAM usage\n" ++
    "- Use shortest variable types possible\n" ++
    "- Favor code density over execution speed\n"
  else if focus = "speed" then
    "- PRIORITY: Maximize execution speed\n" ++
    "- Use zero page for frequently accessed variables\n" ++
    "- Unroll small loops when beneficial\n"
  else ""

/-- What is special about the target. -/
def targetInfo (t : Target) : String :=
  let project :=
    match t.project with
    | some summary =>
      if summary = "" then "" else "\nPROJECT CONTEXT:\n" ++ Text.stripped summary ++ "\n"
    | none => ""
  "CONTEXT INFORMATION:\n" ++ (t.layout.map layoutInfo).getD "" ++ focusInfo t.focus ++ project

/-- Lines that mention neither of two words. -/
def without (words : List String) (lines : List String) : List String :=
  lines.filter fun line => !words.any (Text.contains line)

/-- The console's library, without the parts for features that the target does not use. -/
def libraryInfo (t : Target) : String :=
  let lines :=
    if t.features.contains "sprites" then library else without ["sprite", "SPRITE"] library
  let lines := if t.features.contains "background" then lines else without ["bkg", "BKG"] lines
  "AVAILABLE GBDK FUNCTIONS:\n```c\n" ++ text lines ++ "\n```"

/-- One example, under its number. -/
def sampleText (s : Sample) (number : Nat) : String :=
  "\nExample " ++ toString number ++ ":\nJavaScript:\n```javascript\n" ++ s.source ++ "\n```\n" ++
  "GameBoy C:\n```c\n" ++ s.code ++ "\n```\n"

/-- At most this many examples are shown. -/
def sampleLimit : Nat := 3

/-- The examples that are shown; nothing at all if there are none. -/
def samplesText (samples : List Sample) : String :=
  if samples.isEmpty then ""
  else
    "\n\nEXAMPLES OF GOOD CONVERSIONS:\n" ++
    String.join (((samples.take sampleLimit).zipIdx 1).map fun (s, n) => sampleText s n)

/-- The places of a template and what they are filled with, in the order of filling. -/
def fillings (t : Target) (samples : List Sample) : List (String × String) :=
  [(slot "GAMEBOY_CONSTRAINTS", text hardware ++ "\n\n" ++ constraints t),
   (slot "GBDK_FUNCTIONS", libraryInfo t),
   (slot "CONTEXT_INFO", targetInfo t),
   (slot "OUTPUT_FORMAT", text answerRules),
   (slot "EXAMPLES", samplesText samples)]

def request (source : String) : String :=
  "\n\nJAVASCRIPT/TYPESCRIPT CODE TO CONVERT:\n```javascript\n" ++ source ++ "\n```\n" ++
  "\nConvert this to optimal GameBoy C code. Return ONLY the C code, " ++
  "no explanations or markdown formatting:"

/-- The prompt for a piece of source, by a template. -/
def fromTemplate (template source : String) (t : Target) (samples : List Sample) : String :=
  (fillings t samples).foldl (fun filled (place, content) => Text.replaceAll filled place content)
    template ++ request source

def build (source : String) (t : Target) (samples : List Sample) : String :=
  fromTemplate template source t samples

/-- The whole numbers that a prompt names. -/
def numbers (t : Target) : List Int :=
  t.availableRam :: t.currentBank :: (t.layout.bind (·.ramBank)).toList

/-- The prompt for a piece of source, unless a number in it has too many digits. -/
def write (source : String) (t : Target) (samples : List Sample) : Except Fault String :=
  if ∀ n ∈ numbers t, Text.Short n then .ok (build source t samples) else .error .tooManyDigits

theorem write_eq_ok {source prompt : String} {t : Target} {samples : List Sample}
    (h : write source t samples = .ok prompt) : prompt = build source t samples := by
  unfold write at h
  split at h
  · exact (Except.ok.inj h).symm
  · cases h

/-- A prompt names no other numbers than its target has. -/
theorem write_of_writable (source : String) {t : Target} (h : t.Writable) (samples : List Sample) :
    write source t samples = .ok (build source t samples) := by
  refine if_pos fun n hn => h n ?_
  unfold numbers at hn
  unfold Target.numbers
  cases hlayout : t.layout with
  | none => simpa [hlayout] using hn
  | some l =>
    simp only [hlayout, Option.bind_some, List.mem_cons] at hn
    simp only [Option.map_some, Option.getD_some, List.mem_cons]
    exact hn.imp_right (·.imp_right .inr)

/-- The prompt for a piece of source with a known purpose and the usual target. -/
def forPurpose (source purpose : String) : String :=
  let base := build source {} []
  match purposeNotes.lookup purpose with
  | some note => base ++ "\n\nSPECIAL FOCUS: " ++ note
  | none => base

end Cartridge.Prompt
