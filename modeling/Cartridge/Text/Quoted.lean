import Cartridge.Text.Hex
import Cartridge.Text.Printable

/-!
# Quoted texts

A text between quotes, as messages show it: single quotes unless the text holds one and no double
quote, and an escape for each character that has no visible form.
-/

namespace Cartridge.Text

/-- A character as it stands between quotes. -/
def quotedChar (quote c : Char) : List Char :=
  let n := c.toNat
  if c = quote || c = '\\' then ['\\', c]
  else if c = '\n' then ['\\', 'n']
  else if c = '\r' then ['\\', 'r']
  else if c = '\t' then ['\\', 't']
  else if isPrintable c then [c]
  else if n < 0x100 then '\\' :: 'x' :: hexDigits 2 n
  else if n < 0x10000 then '\\' :: 'u' :: hexDigits 4 n
  else '\\' :: 'U' :: hexDigits 8 n

/-- The text in quotes. -/
def quoted (s : String) : String :=
  let cs := s.toList
  let quote := if cs.contains '\'' && !cs.contains '"' then '"' else '\''
  .ofList (quote :: cs.flatMap (quotedChar quote) ++ [quote])

end Cartridge.Text
