import Cartridge.Pattern.Basic

/-!
# Searching by pattern

The matches of a pattern in a text from left to right, each beginning no earlier than the one
before it ends, and the text with its matches replaced. A match takes at least one character.
-/

namespace Cartridge.Pattern

/-- A piece of text that has the shape of a pattern. -/
structure Found where
  start : Place
  stop : Place

namespace Found

/-- The piece itself. -/
def text (m : Found) : List Char := (m.start.spanTo m.stop).text

/-- The text of a group, if the match went through it. -/
def group? (m : Found) (number : Nat) : Option (List Char) :=
  (m.stop.groups.lookup number).map Span.text

/-- The text of a group, empty if the match did not go through it. -/
def group (m : Found) (number : Nat) : List Char := (m.group? number).getD []

/-- The text of a group as a string. -/
def groupString (m : Found) (number : Nat) : String := .ofList (m.group number)

end Found

/-- The match that begins at a place, if there is one and it takes a character. -/
def foundAt (p : Pattern) (here : Place) : Option Found :=
  p.match? (fun stop => if here.index < stop.index then some ⟨here, stop⟩ else none) here

/-- The pieces of a text: matches, and the characters that belong to none. -/
inductive Piece where
  | plain (c : Char)
  | found (m : Found)

/-- Cuts a text into pieces. The text ahead is `rest`, `skip` of its characters belong to the last
match, `before` and `index` describe the place, and `done` holds the pieces so far, last first. -/
def cutting (p : Pattern) : List Char → List Char → Nat → Nat → List Piece → List Piece
  | [], _, _, _, done => done.reverse
  | c :: rest, before, index, skip + 1, done => cutting p rest (c :: before) (index + 1) skip done
  | c :: rest, before, index, 0, done =>
    match p.foundAt ⟨before, c :: rest, index, []⟩ with
    | some m =>
      cutting p rest (c :: before) (index + 1) (m.stop.index - index - 1) (.found m :: done)
    | none => cutting p rest (c :: before) (index + 1) 0 (.plain c :: done)

/-- The text cut into the matches of the pattern and the characters between them. -/
def pieces (p : Pattern) (cs : List Char) : List Piece := cutting p cs [] 0 0 []

/-- The matches of the pattern in the text. -/
def findAll (p : Pattern) (cs : List Char) : List Found :=
  (p.pieces cs).filterMap fun
    | .found m => some m
    | .plain _ => none

/-- Searches for the first match from a place on. -/
def findFrom (p : Pattern) : List Char → List Char → Nat → Option Found
  | [], _, _ => none
  | c :: rest, before, index =>
    match p.foundAt ⟨before, c :: rest, index, []⟩ with
    | some m => some m
    | none => findFrom p rest (c :: before) (index + 1)

/-- The first match of the pattern in the text. -/
def find? (p : Pattern) (cs : List Char) : Option Found := findFrom p cs [] 0

/-- Whether the pattern matches somewhere in the string. -/
def occursIn (p : Pattern) (s : String) : Bool := (p.find? s.toList).isSome

/-- The text with each match replaced by what `f` makes of it. -/
def substitute (p : Pattern) (f : Found → List Char) (cs : List Char) : List Char :=
  (p.pieces cs).flatMap fun
    | .plain c => [c]
    | .found m => f m

end Cartridge.Pattern
