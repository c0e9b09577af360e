/-!
# Console

What a run shows its user. A step that is under way is remembered until a message says how it
ended; messages about trouble go to the error stream.
-/

namespace Cartridge

/-- Where a message goes. -/
inductive Stream where
  | output
  | error
  deriving DecidableEq, Repr

/-- A message and where it goes. A message may have several lines. -/
structure Message where
  stream : Stream
  text : String
  deriving DecidableEq, Repr

/-- What a run has shown so far. -/
structure Console where
  /-- The messages, latest first. -/
  shown : List Message := []
  /-- The step under way. -/
  current : Option String := none
  deriving DecidableEq, Repr

namespace Console

/-- The messages in the order in which they were shown. -/
def messages (c : Console) : List Message := c.shown.reverse

def show_ (c : Console) (stream : Stream) (text : String) : Console :=
  { c with shown := ⟨stream, text⟩ :: c.shown }

/-- Says that something was done and goes on. -/
def info (c : Console) (text : String) : Console := c.show_ .output ("→ " ++ text)

def warn (c : Console) (text : String) : Console := c.show_ .error ("⚠ " ++ text)

/-- Begins a step. -/
def start (c : Console) (text : String) : Console :=
  { c.show_ .output ("⏳ " ++ text ++ "...") with current := some text }

/-- Ends the step under way as done. -/
def success (c : Console) (text : String) : Console :=
  { c.show_ .output ("✓ " ++ text) with current := none }

/-- Ends the step under way as failed. -/
def error (c : Console) (text : String) : Console :=
  { c.show_ .error ("✗ " ++ text) with current := none }

/-- Ends the step under way without a verdict, and says so if it had a name. -/
def stop (c : Console) : Console :=
  match c.current with
  | some text => { (if text = "" then c else c.warn (text ++ " interrupted")) with current := none }
  | none => c

/-- Warns several times. -/
def warnAll (c : Console) (texts : List String) : Console := texts.foldl warn c

end Console

end Cartridge
