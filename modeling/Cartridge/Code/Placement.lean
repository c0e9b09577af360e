import Cartridge.Pattern.Search
import Cartridge.Text.Blank
import Cartridge.Text.Search

/-!
# Placement of variables

Generated code is completed with the console's headers and with hints on where to keep its
variables: game state in the fast memory, constant texts in the program memory, tiny arrays in
registers. A hint is put in front of each declaration that does not follow it already, and nothing
is taken out.
-/

namespace Cartridge.Code

open Pattern (exactly inOrder oneOf)

/-- The header of the console's library. -/
def consoleHeader : String := "#include <gb/gb.h>"

/-- The header of the input and output library. -/
def ioHeader : String := "#include <stdio.h>"

/-- A name, or what is left of one. -/
def nameRest : Pattern := .many Text.isWord 1

/-- A hint on where to keep a variable, and the declarations that want it. -/
structure Hint where
  text : String
  declaration : Pattern

/-- Game state goes to the fast memory. -/
def stateHint : Hint where
  text := "__at(0xFF80) "
  declaration := inOrder
    [exactly "unsigned char ",
     oneOf [.next (exactly "player_") nameRest, .next (exactly "enemy_") nameRest,
       .next (exactly "bullet_") nameRest]]

/-- Constant texts go to the program memory. -/
def constantHint : Hint where
  text := "__code "
  declaration := inOrder [exactly "const char ", nameRest, exactly "[]"]

/-- Arrays of up to four bytes go to registers. -/
def registerHint : Hint where
  text := "register "
  declaration := inOrder
    [exactly "unsigned char ", nameRest, exactly "[", .one (fun c => '1' ≤ c && c ≤ '4'),
     exactly "]"]

namespace Hint

/-- A declaration that wants the hint and does not follow it. -/
def wanted (h : Hint) : Pattern := .next (.notAfter h.text.toList) h.declaration

/-- The code with the hint in front of each declaration that wants it. -/
def insert (h : Hint) (cs : List Char) : List Char :=
  h.wanted.substitute (fun found => h.text.toList ++ found.text) cs

end Hint

def withHeaders (code : String) : String :=
  let code := if Text.contains code consoleHeader then code else consoleHeader ++ "\n" ++ code
  if Text.contains code ioHeader then code
  else Text.replaceFirst code consoleHeader (consoleHeader ++ "\n" ++ ioHeader)

def placed (code : String) : String :=
  .ofList ([stateHint, constantHint, registerHint].foldl (fun cs h => h.insert cs)
    (withHeaders code).toList)

end Cartridge.Code
