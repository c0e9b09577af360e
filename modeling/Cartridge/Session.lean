import Cartridge.Console
import Cartridge.Failure
import Cartridge.Provider.Pricing
import Cartridge.Run
import Cartridge.Text.Casing

/-!
# Sessions

What surrounds a conversion: the clock and the date, the console, the network, and the providers
that are asked. What the network and the providers will say is laid down beforehand, so a run has
one outcome for each such script.
-/

namespace Cartridge

/-- Something that takes some seconds. -/
structure Timed (R α : Type) where
  seconds : R
  value : α

/-- The next item of a script; the last item is repeated for ever. -/
def nextOf {α : Type} : List α → Option (α × List α)
  | [] => none
  | [a] => some (a, [a])
  | a :: rest => some (a, rest)

/-- What a provider without a service says to a prompt. -/
inductive Reply where
  | text (s : Option String)
  | failure (kind : FailureKind) (text : String)
  | fault
  deriving DecidableEq, Repr

/-- Where the answers of a provider come from. -/
inductive AnswerSource where
  | service (s : Provider.Service)
  /-- From the script under the provider's name. -/
  | script

/-- Someone who can be asked for code. -/
structure Provider (R : Type) where
  name : String
  /-- The name in messages. -/
  label : String
  /-- The price of a thousand tokens by which calls are estimated beforehand. -/
  rate : R
  pricing : Provider.Pricing R
  source : AnswerSource

namespace Provider

variable {R : Type} [Quantity R] [Inhabited R]

def ofService (s : Service) : Provider R where
  name := s.kind.name
  label := s.kind.label
  rate := s.kind.rate
  pricing := s.pricing
  source := .service s

/-- A provider that answers by a script, with a price for a thousand tokens or for each call. -/
def scripted (name : String) (rate : R) (perCall? : Option R) : Provider R where
  name
  label := Text.capitalized name
  rate
  pricing :=
    match perCall? with
    | some price => .flat price
    | none => .perThousand rate
  source := .script

end Provider

/-- A prompt that was sent: where to, to which model if the service offers several, and what. -/
structure Call where
  recipient : String
  model : Option Json
  prompt : String

/-- What surrounds a conversion. -/
structure Session (R : Type) where
  /-- In seconds. -/
  clock : R
  today : String
  console : Console := {}
  /-- The waits so far, in seconds, latest first. -/
  sleeps : List R := []
  /-- The prompts sent so far, latest first. -/
  calls : List Call := []
  /-- What the network will say. -/
  network : List (Timed R Provider.Outcome) := []
  /-- What the providers without a service will say, by name. -/
  scripts : Entries (List (Timed R Reply)) := []

namespace Session

variable {R : Type} [Quantity R]

/-- Lets time pass. -/
def pass (s : Session R) (seconds : R) : Session R := { s with clock := s.clock + seconds }

def sleep (s : Session R) (seconds : R) : Session R :=
  { s.pass seconds with sleeps := seconds :: s.sleeps }

def say (s : Session R) (write : Console → Console) : Session R :=
  { s with console := write s.console }

/-- Notes that a prompt is sent. -/
def send (s : Session R) (c : Call) : Session R := { s with calls := c :: s.calls }

/-- The next thing that the network says. -/
def listen (s : Session R) : Provider.Outcome × Session R :=
  match nextOf s.network with
  | some (next, rest) => (next.value, { s.pass next.seconds with network := rest })
  | none => (.unreachable "", s)

/-- The next thing that a provider without a service says. -/
def hear (s : Session R) (name : String) : Reply × Session R :=
  match (s.scripts.get? name).bind nextOf with
  | some (next, rest) =>
    (next.value, { s.pass next.seconds with scripts := s.scripts.put name rest })
  | none => (.fault, s)

end Session

namespace Provider

variable {R : Type} [Quantity R]

/-- Sends a prompt to a provider. The answer is a text, or nothing. -/
def ask (p : Provider R) (prompt : String) : Run (Session R) (Stop R) (Option String) := fun s =>
  match p.source with
  | .script =>
    let (reply, s) := (s.send ⟨p.name, none, prompt⟩).hear p.name
    match reply with
    | .text t => (.ok t, s)
    | .failure kind text => (.error (.failed (.reported kind text)), s)
    | .fault => (.error (.broken .unforeseen), s)
  | .service service =>
    match service.query? prompt with
    | none => (.error (.broken .noService), s)
    | some query =>
      let (outcome, s) := (s.send ⟨query.url, query.payload.get? "model", prompt⟩).listen
      if outcome.isTooDeep then (.error (.broken .tooDeep), s)
      else
        match codeOf service.kind outcome with
        | .ok code => (.ok (some code), s)
        | .error why => (.error (.failed (.provider why)), s)

end Provider

end Cartridge
