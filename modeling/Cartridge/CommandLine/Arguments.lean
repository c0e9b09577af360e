import Cartridge.Config.Basic
import Cartridge.Text.Digit
import Cartridge.Text.Quoted

/-!
# Arguments

The arguments of the program: a command, and options, whose long names may be cut short as long as
only one option is meant. A value of an option follows it, or stands behind an equals sign; a double
dash is no value. After a double dash nothing is an option any more.
-/

namespace Cartridge.CommandLine

/-- The options. -/
inductive Switch where
  | help
  | path
  | config
  | transpiler
  | provider
  | noCache
  | saveConfig
  | version
  deriving DecidableEq, Repr

namespace Switch

/-- The options under their long names, in the order in which they are explained. -/
def longNames : List (String × Switch) :=
  [("--help", help), ("--path", path), ("--config", config), ("--transpiler", transpiler),
   ("--provider", provider), ("--no-cache", noCache), ("--save-config", saveConfig),
   ("--version", version)]

/-- The short name of the option that has one. -/
def shortHelp : String := "-h"

/-- The names of an option in messages. -/
def shown (s : Switch) : String :=
  match s with
  | help => shortHelp ++ "/--help"
  | _ => ((longNames.find? (·.2 = s)).map (·.1)).getD ""

def hasValue : Switch → Bool
  | path | config | transpiler | provider => true
  | help | noCache | saveConfig | version => false

end Switch

/-- What is wrong with arguments. -/
inductive Problem where
  /-- The name is short for several options. -/
  | ambiguous (argument : String) (names : List String)
  | valueMissing (s : Switch)
  /-- The option has no value, but one is given. -/
  | valueIgnored (s : Switch) (value : String)
  | valueUnknown (s : Switch) (value : String) (known : List String)
  | leftOver (arguments : List String)
  deriving DecidableEq, Repr

def Problem.message : Problem → String
  | .ambiguous argument names =>
    "ambiguous option: " ++ argument ++ " could match " ++ Text.joined ", " names
  | .valueMissing s => "argument " ++ s.shown ++ ": expected one argument"
  | .valueIgnored s value =>
    "argument " ++ s.shown ++ ": ignored explicit argument " ++ Text.quoted value
  | .valueUnknown s value known =>
    "argument " ++ s.shown ++ ": invalid choice: " ++ Text.quoted value ++ " (choose from " ++
      Text.joined ", " (known.map Text.quoted) ++ ")"
  | .leftOver arguments => "unrecognized arguments: " ++ Text.joined " " arguments

/-! ## Single arguments -/

/-- What an argument is. -/
inductive Token where
  /-- A command or the value of an option. -/
  | plain (text : String)
  /-- The double dash. -/
  | divider
  /-- An option, and the value that stands behind an equals sign. -/
  | switch (s : Switch) (value : Option String)
  /-- The short name for help with something behind it, an equals sign between them aside. -/
  | helpAnd (more : String)
  | unknown (text : String)
  deriving DecidableEq, Repr

/-- The argument as it was given, where it is no option. -/
def Token.text : Token → String
  | .plain text | .unknown text => text
  | .divider => "--"
  | .switch .. | .helpAnd .. => ""

/-- The part of an argument before its first equals sign, and the part behind it if it has one. -/
def splitValue (argument : String) : String × Option String :=
  match argument.toList.span (· ≠ '=') with
  | (name, _ :: value) => (.ofList name, some (.ofList value))
  | (name, []) => (.ofList name, none)

/-- Whether all characters are digits, and there are some. -/
def allDigits (cs : List Char) : Bool := !cs.isEmpty && cs.all Text.isDigit

def isNegativeNumber (argument : String) : Bool :=
  match argument.toList with
  | '-' :: rest =>
    let rest := if rest.getLast? = some '\n' then rest.dropLast else rest
    allDigits rest ||
      match rest.span Text.isDigit with
      | (_, '.' :: fraction) => allDigits fraction
      | _ => false
  | _ => false

/-- An argument that begins with a dash and names no option. -/
def unnamed (argument : String) : Token :=
  if isNegativeNumber argument || Text.contains argument " " then .plain argument
  else .unknown argument

/-- The option that an argument with two dashes means. -/
def longSwitch (argument : String) : Except Problem Token :=
  let (name, value) := splitValue argument
  match Switch.longNames.lookup name with
  | some s => .ok (.switch s value)
  | none =>
    match Switch.longNames.filter fun entry => Text.startsWith entry.1 name with
    | [] => .ok (unnamed argument)
    | [(_, s)] => .ok (.switch s value)
    | several => .error (.ambiguous argument (several.map (·.1)))

def shortSwitch (argument : String) : Token :=
  if argument = Switch.shortHelp then .switch .help none
  else if Text.startsWith argument Switch.shortHelp then
    match argument.toList.drop Switch.shortHelp.length with
    | '=' :: value => .helpAnd (.ofList value)
    | more => .helpAnd (.ofList more)
  else unnamed argument

/-- What an argument before a double dash is. -/
def token (argument : String) : Except Problem Token :=
  if argument = "--" then .ok .divider
  else if Text.startsWith argument "--" then longSwitch argument
  else if Text.startsWith argument "-" && argument ≠ "-" then .ok (shortSwitch argument)
  else .ok (.plain argument)

def tokens : List String → Except Problem (List Token)
  | [] => .ok []
  | argument :: rest => do
    match ← token argument with
    | .divider => return .divider :: rest.map .plain
    | t => return t :: (← tokens rest)

/-! ## All arguments -/

/-- What is asked for. -/
structure Arguments where
  command : Option String := none
  path : Option String := none
  config : Option String := none
  transpiler : Option String := none
  provider : Option String := none
  noCache : Bool := false
  saveConfig : Bool := false
  deriving DecidableEq, Repr

/-- What the arguments come to. -/
inductive Understanding where
  | work (a : Arguments)
  | help
  | version
  deriving DecidableEq, Repr

/-- A value of an option, unless it is a double dash. -/
def given? (value : String) : Option String := if value = "--" then none else some value

def Arguments.withValue (a : Arguments) (s : Switch) (value : String) :
    Except Problem Arguments :=
  match s with
  | .path => .ok { a with path := given? value }
  | .config => .ok { a with config := given? value }
  | .provider => .ok { a with provider := given? value }
  | .transpiler =>
    if (given? value).all Config.translators.contains then
      .ok { a with transpiler := given? value }
    else .error (.valueUnknown s value Config.translators)
  | .help | .noCache | .saveConfig | .version => .error (.valueIgnored s value)

/-- What is wrong with what stands behind the short name for help: it may only ask for help again,
letter by letter. -/
def helpProblem? : List Char → Option Problem
  | ['h'] => none
  | 'h' :: c :: more => helpProblem? (c :: more)
  | more => some (.valueIgnored .help (.ofList more))

/-- The state while tokens are understood: what is asked for so far, whether the command was
given, and what is left over, latest first. -/
structure Progress where
  arguments : Arguments := {}
  hasCommand : Bool := false
  leftOver : List String := []

/-- Understands tokens one after another. The first text that is no value of an option is the
command; a double dash beside it belongs to it. -/
def understandFrom (p : Progress) : List Token → Except Problem Understanding
  | [] =>
    if p.leftOver.isEmpty then .ok (.work p.arguments)
    else .error (.leftOver p.leftOver.reverse)
  | .unknown text :: rest => understandFrom { p with leftOver := text :: p.leftOver } rest
  | .helpAnd more :: _ =>
    match helpProblem? more.toList with
    | some problem => .error problem
    | none => .ok .help
  | .switch s (some value) :: rest => do
    understandFrom { p with arguments := ← p.arguments.withValue s value } rest
  | .switch .help none :: _ => .ok .help
  | .switch .version none :: _ => .ok .version
  | .switch .noCache none :: rest =>
    understandFrom { p with arguments := { p.arguments with noCache := true } } rest
  | .switch .saveConfig none :: rest =>
    understandFrom { p with arguments := { p.arguments with saveConfig := true } } rest
  | .switch s none :: .plain value :: rest => do
    understandFrom { p with arguments := ← p.arguments.withValue s value } rest
  | .switch s none :: _ => .error (.valueMissing s)
  | .divider :: rest =>
    if p.hasCommand then understandFrom { p with leftOver := "--" :: p.leftOver } rest
    else
      match rest with
      | .plain text :: rest =>
        understandFrom
          { p with arguments := { p.arguments with command := some text }, hasCommand := true } rest
      | rest => understandFrom { p with hasCommand := true } rest
  | .plain text :: rest =>
    if p.hasCommand then understandFrom { p with leftOver := text :: p.leftOver } rest
    else
      let p :=
        { p with arguments := { p.arguments with command := some text }, hasCommand := true }
      match rest with
      | .divider :: rest => understandFrom p rest
      | rest => understandFrom p rest

/-- What is asked for by the arguments of the program. -/
def understand (arguments : List String) : Except Problem Understanding := do
  understandFrom {} (← tokens arguments)

end Cartridge.CommandLine
