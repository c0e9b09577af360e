import Cartridge.Text.Casing.Table
import Cartridge.Text.CharSet

/-!
# Upper and lower case

Case maps over whole texts. One character may become several, and a capital sigma that ends a word
becomes the final form of the small letter; all other letters are mapped one by one.
-/

namespace Cartridge.Text

/-- The other case of a code point that lies in one of the runs. -/
def shiftedBy (runs : List CaseRun) (n : Nat) : Option Nat :=
  (runs.find? fun r => r.first ≤ n && n ≤ r.last && (n - r.first) % r.step == 0).map
    fun r => ((n : Int) + r.shift).toNat

/-- The characters that one character becomes, by a list of expansions and then by runs. -/
def recase (expansions : List (Nat × List Nat)) (runs : List CaseRun) (c : Char) : List Char :=
  match expansions.lookup c.toNat with
  | some codes => codes.map Char.ofNat
  | none => [((shiftedBy runs c.toNat).map Char.ofNat).getD c]

/-- The upper case of one character. -/
def upperChar (c : Char) : List Char := recase upperExpansions upperRuns c

/-- The lower case of one character standing alone. -/
def lowerChar (c : Char) : List Char := recase lowerExpansions lowerRuns c

/-- What a character becomes where it opens a capitalised word. -/
def titleChar (c : Char) : List Char :=
  match titleExceptions.lookup c.toNat with
  | some codes => codes.map Char.ofNat
  | none => upperChar c

/-- Whether the nearest character that is not passed over has a case. -/
def casedNext (cs : List Char) : Bool :=
  match cs.dropWhile caseIgnorable.contains with
  | [] => false
  | c :: _ => casedCharacters.contains c

/-- The lower case of a text, given the characters before it, nearest first. -/
def lowerAfter (before : List Char) : List Char → List Char
  | [] => []
  | c :: rest =>
    let small :=
      if c = 'Σ' then
        if casedNext before && !casedNext rest then ['ς'] else ['σ']
      else lowerChar c
    small ++ lowerAfter (c :: before) rest

def upper (s : String) : String := .ofList (s.toList.flatMap upperChar)

def lower (s : String) : String := .ofList (lowerAfter [] s.toList)

/-- The text with its first character capitalised and all others in lower case. -/
def capitalized (s : String) : String :=
  match s.toList with
  | [] => ""
  | c :: rest => .ofList (titleChar c ++ lowerAfter [c] rest)

end Cartridge.Text
