import Cartridge.Text.Search

/-!
# Recognising C

A text is taken for C when it holds at least three of the marks that C sources hold.
-/

namespace Cartridge.Code

/-- Marks of C sources. -/
def marks : List String :=
  ["#include", "void main(", "int main(", "unsigned char", "signed char", "printf(", "scanf(", ";",
   "\x7b", "\x7d", "#define"]

def looksLikeC (text : String) : Bool := 3 ≤ marks.countP (Text.contains text)

end Cartridge.Code
