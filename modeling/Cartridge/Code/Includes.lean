import Cartridge.Code.Placement

/-!
# Standard includes

The include lines that every generated file shares. They are taken out of the parts before the
parts are put together under one header.
-/

namespace Cartridge.Code

open Pattern (exactly inOrder optional)

/-- An include of one of the standard headers, with the white space and the newline after it. -/
def includeOf (header : String) : Pattern :=
  inOrder [exactly "#include", .many Text.isBlank 1, exactly header, .many Text.isBlank 0,
    optional (exactly "\n")]

/-- The code without the includes of the console's library and of the input and output library. -/
def withoutStandardIncludes (code : String) : String :=
  .ofList ([includeOf "<gb/gb.h>", includeOf "<stdio.h>"].foldl
    (fun cs line => line.substitute (fun _ => []) cs) code.toList)

end Cartridge.Code
