import Cartridge.Decimal.Reader
import Cartridge.Json.Basic

/-!
# Reading data documents

A reader for the common text format of data documents, with three liberties: the words `NaN`,
`Infinity` and `-Infinity` are numbers, whole numbers have any size up to 4300 digits, and of two
entries with one key the later gives the value and the earlier the place. Lists and objects may lie
within one another as far as there is room for them, which depends on who reads.

The readers of parts give back the text that they leave. Each step into a part lowers a bound that
begins above the length of the text, and each part takes at least one character.
-/

namespace Cartridge.Json

/-- Why a text is not a document. -/
inductive Fault where
  /-- The text breaks the grammar. -/
  | malformed
  /-- A whole number has too many digits. -/
  | oversized
  /-- A list or object lies within too many others. -/
  | tooDeep
  deriving DecidableEq, Repr

/-- Most lists and objects that may lie within one another where the program reads documents. -/
def depthLimit : Nat := 985

/-- The text after blanks, tabs and line breaks. -/
def skipBlanks (cs : List Char) : List Char :=
  cs.dropWhile fun c => c = ' ' || c = '\t' || c = '\n' || c = '\r'

/-- The value of a hexadecimal digit. -/
def hexValue? (c : Char) : Option Nat :=
  if '0' ≤ c ∧ c ≤ '9' then some (c.toNat - '0'.toNat)
  else if 'a' ≤ c ∧ c ≤ 'f' then some (c.toNat - 'a'.toNat + 10)
  else if 'A' ≤ c ∧ c ≤ 'F' then some (c.toNat - 'A'.toNat + 10)
  else none

/-- The value of four hexadecimal digits. -/
def unit? (a b c d : Char) : Option Nat := do
  return ((← hexValue? a) * 16 + (← hexValue? b)) * 256 + (← hexValue? c) * 16 + (← hexValue? d)

/-- The character of a UTF-16 unit; half of a pair alone has none and becomes the replacement. -/
def ofUnit (n : Nat) : Char :=
  if 0xd800 ≤ n && n < 0xe000 then '\uFFFD' else Char.ofNat n

/-- The character that a one-letter escape stands for. -/
def ofEscape? : Char → Option Char
  | '"' => some '"'
  | '\\' => some '\\'
  | '/' => some '/'
  | 'b' => some '\x08'
  | 'f' => some '\x0c'
  | 'n' => some '\n'
  | 'r' => some '\r'
  | 't' => some '\t'
  | _ => none

/-- The UTF-16 unit whose escape begins a text. -/
def unitAhead? : List Char → Option Nat
  | '\\' :: 'u' :: a :: b :: c :: d :: _ => unit? a b c d
  | _ => none

/-- The character of an escape, given the text after its backslash, and the number of characters
that the escape takes from there. Two units that make a pair are one character. -/
def escape? : List Char → Option (Char × Nat)
  | 'u' :: a :: b :: c :: d :: rest =>
    match unit? a b c d, unitAhead? rest with
    | none, _ => none
    | some high, some low =>
      if 0xd800 ≤ high && high < 0xdc00 && 0xdc00 ≤ low && low < 0xe000 then
        some (Char.ofNat (0x10000 + (high - 0xd800) * 0x400 + (low - 0xdc00)), 11)
      else some (ofUnit high, 5)
    | some high, none => some (ofUnit high, 5)
  | e :: _ => (ofEscape? e).map (·, 1)
  | [] => none

/-- Reads a string after its opening quote. `skip` characters still belong to an escape, and `done`
holds the characters so far, last first. -/
def stringBody : List Char → Nat → List Char → Except Fault (String × List Char)
  | [], _, _ => .error .malformed
  | _ :: rest, skip + 1, done => stringBody rest skip done
  | c :: rest, 0, done =>
    if c = '"' then .ok (.ofList done.reverse, rest)
    else if c = '\\' then
      match escape? rest with
      | some (e, taken) => stringBody rest taken (e :: done)
      | none => .error .malformed
    else if c.toNat < 0x20 then .error .malformed
    else stringBody rest 0 (c :: done)

/-- The ASCII digits that the text begins with, and the text after. -/
def digits (cs : List Char) : List Char × List Char :=
  (cs.takeWhile Char.isDigit, cs.dropWhile Char.isDigit)

/-- The number that a row of ASCII digits writes. -/
def digitsNumber (ds : List Char) : Nat := ds.foldl (fun n c => 10 * n + (c.toNat - '0'.toNat)) 0

/-- The digits after a point, if a point with digits follows. -/
def fraction? : List Char → Option (List Char × List Char)
  | '.' :: rest =>
    match digits rest with
    | ([], _) => none
    | found => some found
  | _ => none

/-- The power of ten after an exponent mark, if a whole exponent follows. -/
def power? : List Char → Option (Int × List Char)
  | mark :: rest =>
    if mark = 'e' || mark = 'E' then
      let (negative, unsigned) :=
        match rest with
        | '-' :: r => (true, r)
        | '+' :: r => (false, r)
        | r => (false, r)
      match digits unsigned with
      | ([], _) => none
      | (ds, after) =>
        some (if negative then -(digitsNumber ds : Int) else digitsNumber ds, after)
    else none
  | [] => none

/-- The whole part of a number: a zero, or digits that begin with none. -/
def whole? : List Char → Option (List Char × List Char)
  | '0' :: rest => some (['0'], rest)
  | cs =>
    match digits cs with
    | ([], _) => none
    | found => some found

/-- Reads a number after its sign. -/
def number (negative : Bool) (cs : List Char) : Except Fault (Json × List Char) :=
  match whole? cs with
  | none => .error .malformed
  | some (whole, rest) =>
    let (frac, rest', hasFraction) :=
      match fraction? rest with
      | some (ds, after) => (ds, after, true)
      | none => ([], rest, false)
    match power? rest' with
    | some (e, after) =>
      .ok (.float (Decimal.ofDigits negative (digitsNumber (whole ++ frac)) (e - frac.length)),
        after)
    | none =>
      if hasFraction then
        .ok (.float (Decimal.ofDigits negative (digitsNumber (whole ++ frac)) (-frac.length)),
          rest')
      else if Text.digitLimit < whole.length then .error .oversized
      else
        let n := digitsNumber whole
        .ok (.int (if negative then -(n : Int) else n), rest)

/-- The value of a word, and the text after it, if the text begins with a word of the format. -/
def word? (cs : List Char) : Option (Json × List Char) :=
  let words : List (String × Json) :=
    [("null", .null), ("true", .bool true), ("false", .bool false),
     ("NaN", .float Decimal.notANumber), ("Infinity", .float (Decimal.infinity false)),
     ("-Infinity", .float (Decimal.infinity true))]
  words.findSome? fun (w, j) =>
    if w.toList.isPrefixOf cs then some (j, cs.drop w.length) else none

mutual

/-- Reads a value in which at most `room` lists and objects lie within one another. -/
def value : Nat → Nat → List Char → Except Fault (Json × List Char)
  | 0, _, _ => .error .malformed
  | bound + 1, room, cs =>
    match cs, room with
    | '"' :: rest, _ => do
      let (s, after) ← stringBody rest 0 []
      return (.str s, after)
    | '[' :: _, 0 | '\x7b' :: _, 0 => .error .tooDeep
    | '[' :: rest, room + 1 =>
      match skipBlanks rest with
      | ']' :: after => .ok (.arr [], after)
      | inside => items bound room inside []
    | '\x7b' :: rest, room + 1 =>
      match skipBlanks rest with
      | '\x7d' :: after => .ok (.obj [], after)
      | inside => entries bound room inside []
    | cs, _ =>
      match word? cs with
      | some found => .ok found
      | none =>
        match cs with
        | '-' :: rest => number true rest
        | _ => number false cs

/-- Reads items up to the closing bracket; `done` holds those so far, last first. -/
def items : Nat → Nat → List Char → List Json → Except Fault (Json × List Char)
  | 0, _, _, _ => .error .malformed
  | bound + 1, room, cs, done => do
    let (item, rest) ← value bound room cs
    match skipBlanks rest with
    | ',' :: more => items bound room (skipBlanks more) (item :: done)
    | ']' :: after => return (.arr (item :: done).reverse, after)
    | _ => .error .malformed

/-- Reads entries up to the closing brace; `done` holds those so far. -/
def entries : Nat → Nat → List Char → Entries Json → Except Fault (Json × List Char)
  | 0, _, _, _ => .error .malformed
  | bound + 1, room, cs, done =>
    match cs with
    | '"' :: rest => do
      let (key, afterKey) ← stringBody rest 0 []
      match skipBlanks afterKey with
      | ':' :: more =>
        let (item, rest') ← value bound room (skipBlanks more)
        let done := done.put key item
        match skipBlanks rest' with
        | ',' :: more' => entries bound room (skipBlanks more') done
        | '\x7d' :: after => return (.obj done, after)
        | _ => .error .malformed
      | _ => .error .malformed
    | _ => .error .malformed

end

/-- Reads a document: one value with nothing but blanks around it. -/
def read (text : String) (room : Nat := depthLimit) : Except Fault Json := do
  let cs := text.toList
  let (j, rest) ← value (2 * cs.length + 2) room (skipBlanks cs)
  if (skipBlanks rest).isEmpty then return j else .error .malformed

end Cartridge.Json
