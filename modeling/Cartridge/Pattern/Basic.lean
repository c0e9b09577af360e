import Cartridge.Text.Word

/-!
# Patterns

What a piece of text may look like, and the places where a match that begins at a given place may
end. The ends are tried in a fixed order: alternatives from the left, a repetition from its longest
or its shortest reach, as the pattern says. The first end with which the rest of the pattern also
matches is taken.
-/

namespace Cartridge

/-- A shape of text. Groups are numbered by the pattern's author. -/
inductive Pattern where
  /-- Nothing at all. -/
  | empty
  /-- Exactly these characters. -/
  | text (cs : List Char)
  /-- One character of a class. -/
  | one (p : Char → Bool)
  /-- At least `least` characters of a class, as many as possible. -/
  | many (p : Char → Bool) (least : Nat)
  /-- At least `least` characters of a class, as few as possible. -/
  | few (p : Char → Bool) (least : Nat)
  /-- One shape and then another. -/
  | next (a b : Pattern)
  /-- One shape, or else another. -/
  | either (a b : Pattern)
  /-- A shape any number of times, as often as possible. -/
  | again (a : Pattern)
  /-- A shape whose text is remembered under a number. -/
  | group (number : Nat) (a : Pattern)
  /-- A place between a word character and something else. -/
  | wordEdge
  /-- The beginning of the text. -/
  | beginning
  /-- A place that does not follow these characters. -/
  | notAfter (cs : List Char)

/-- A piece of a text: what lies ahead of where it begins, and how many characters it takes. -/
structure Span where
  ahead : List Char
  length : Nat

/-- The characters of a piece. -/
def Span.text (s : Span) : List Char := s.ahead.take s.length

/-- A place in a text: what lies on either side of it and which groups have been read. -/
structure Place where
  /-- The characters before the place, nearest first. -/
  before : List Char
  /-- The characters from the place on. -/
  rest : List Char
  /-- The number of characters before the place. -/
  index : Nat
  /-- The groups read so far, latest first. -/
  groups : List (Nat × Span)

namespace Place

/-- The first place of a text. -/
def first (cs : List Char) : Place := ⟨[], cs, 0, []⟩

/-- Whether the place lies between a word character and something else. -/
def atWordEdge (pl : Place) : Bool :=
  (pl.before.head?.any Text.isWord) != (pl.rest.head?.any Text.isWord)

/-- The place after one more character, given that character and what follows it. -/
def pass (pl : Place) (c : Char) (rest : List Char) : Place :=
  { pl with before := c :: pl.before, rest, index := pl.index + 1 }

/-- The place after `n` more characters. -/
def skip (pl : Place) : Nat → Place
  | 0 => pl
  | n + 1 =>
    match pl.rest with
    | [] => pl
    | c :: rest => skip (pl.pass c rest) n

/-- The places reached by passing characters of a class, at least `least` of them, the farthest
first; the list is what lies ahead, and `passed` holds the places left behind. -/
def reached (p : Char → Bool) : List Char → Nat → Place → List Place → List Place
  | [], 0, here, passed => here :: passed
  | [], _ + 1, _, passed => passed
  | c :: rest, 0, here, passed =>
    if p c then reached p rest 0 (here.pass c rest) (here :: passed) else here :: passed
  | c :: rest, least + 1, here, passed =>
    if p c then reached p rest least (here.pass c rest) passed else passed

/-- The piece between two places of the same text. -/
def spanTo (start stop : Place) : Span := ⟨start.rest, stop.index - start.index⟩

end Place

namespace Pattern

/-- The first result of `k` over the places reached by passing characters of a class, at least
`least` of them, the nearest place first. -/
def nearest {α : Type} (p : Char → Bool) (k : Place → Option α) :
    List Char → Nat → Place → Option α
  | [], 0, here => k here
  | [], _ + 1, _ => none
  | c :: rest, 0, here =>
    match k here with
    | some a => some a
    | none => if p c then nearest p k rest 0 (here.pass c rest) else none
  | c :: rest, least + 1, here =>
    if p c then nearest p k rest least (here.pass c rest) else none

/-- Repeats a step while it moves on, as often as possible first, at most `limit` times. -/
def repeating {α : Type} (step : (Place → Option α) → Place → Option α) (k : Place → Option α) :
    Nat → Place → Option α
  | 0, here => k here
  | limit + 1, here =>
    (step (fun there => if here.index < there.index then repeating step k limit there else none)
      here).orElse fun _ => k here

/-- The first result of `k` over the ends of a match that begins at a place, in the order of the
pattern's preferences. -/
def match? {α : Type} : Pattern → (Place → Option α) → Place → Option α
  | .empty, k, here => k here
  | .text cs, k, here => if cs.isPrefixOf here.rest then k (here.skip cs.length) else none
  | .one p, k, here =>
    match here.rest with
    | [] => none
    | c :: rest => if p c then k (here.pass c rest) else none
  | .many p least, k, here => (Place.reached p here.rest least here []).findSome? k
  | .few p least, k, here => nearest p k here.rest least here
  | .next a b, k, here => a.match? (b.match? k) here
  | .either a b, k, here => (a.match? k here).orElse fun _ => b.match? k here
  | .again a, k, here => repeating a.match? k here.rest.length here
  | .group number a, k, here =>
    a.match? (fun stop => k { stop with groups := (number, here.spanTo stop) :: stop.groups }) here
  | .wordEdge, k, here => if here.atWordEdge then k here else none
  | .beginning, k, here => if here.index = 0 then k here else none
  | .notAfter cs, k, here => if cs.reverse.isPrefixOf here.before then none else k here

/-! ## Shapes made of shapes -/

def exactly (s : String) : Pattern := .text s.toList

/-- The shapes one after another. -/
def inOrder : List Pattern → Pattern
  | [] => .empty
  | [a] => a
  | a :: rest => .next a (inOrder rest)

/-- The first of the shapes that lets the whole match. -/
def oneOf : List Pattern → Pattern
  | [] => .one fun _ => false
  | [a] => a
  | a :: rest => .either a (oneOf rest)

/-- The shape, or else nothing. -/
def optional (a : Pattern) : Pattern := .either a .empty

end Pattern

end Cartridge
