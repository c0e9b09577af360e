import Cartridge.CommandLine.Arguments
import Cartridge.Config.File
import Cartridge.Toolchain.Build

/-!
# Program

What the program does for its arguments: it reads the configuration, lets the arguments have the
last word on it, and either writes it or runs the steps of a command. Failures are told to the
user; a fault ends the program.
-/

namespace Cartridge.CommandLine

open Workshop (Task)

/-- The commands. -/
inductive Command where
  | all
  | transpile
  | compile
  | build
  deriving DecidableEq, Repr

namespace Command

/-- The commands under their names. -/
def names : List (String × Command) :=
  [("all", all), ("transpile", transpile), ("compile", compile), ("build", build)]

def name : Command → String
  | all => "all"
  | transpile => "transpile"
  | compile => "compile"
  | build => "build"

/-- The steps of a command, as they are announced. -/
def steps : Command → String
  | all => "Transpile / Compile / Build rom"
  | transpile => "Transpile"
  | compile => "Compile / Build rom"
  | build => "Build rom"

/-- Whether a command ends with a cartridge image. -/
def givesImage : Command → Bool
  | transpile => false
  | all | compile | build => true

/-- Runs the steps of a command. -/
def run (c : Command) (path : String) : Task Float Unit :=
  match c with
  | all => Build.all path
  | transpile => Build.transpile path
  | compile => Build.compileAll path
  | build => Build.makeImage path

end Command

/-- How a run of the program ends, with its code. -/
inductive Ending where
  /-- The arguments alone decided. -/
  | dismissed (code : Nat)
  | finished (code : Nat)
  deriving DecidableEq, Repr

def programName : String := "gbts"

def version : String := "0.1.0"

def explanation : String :=
  "usage: gbts [-h] [--path PATH] [--config CONFIG] [--transpiler \x7bai,ts2c\x7d]\n" ++
  "            [--provider PROVIDER] [--no-cache] [--save-config] [--version]\n" ++
  "            [command]\n" ++
  "\n" ++
  "TypeScript → GameBoy ROM toolchain\n" ++
  "\n" ++
  "positional arguments:\n" ++
  "  command               all | transpile | compile | build (default: all)\n" ++
  "\n" ++
  "options:\n" ++
  "  -h, --help            show this help message and exit\n" ++
  "  --path PATH           Source file or project directory\n" ++
  "  --config CONFIG       JSON config file (default: ./gbts.config.json)\n" ++
  "  --transpiler \x7bai,ts2c\x7d\n" ++
  "                        Transpiler for the transpile step\n" ++
  "  --provider PROVIDER   Primary AI provider (claude, openai, openrouter, local)\n" ++
  "  --no-cache            Disable the transpilation cache\n" ++
  "  --save-config         Write the effective configuration (without API keys) and\n" ++
  "                        exit\n" ++
  "  --version             show program's version number and exit"

/-- The configuration once the arguments have the last word on it. -/
def Arguments.overridden (a : Arguments) (c : Config Float) : Config Float :=
  let c := match a.transpiler with
    | some translator => { c with tools := { c.tools with translator } }
    | none => c
  let c := match a.provider.filter (· ≠ "") with
    | some primary =>
      let p := c.providers
      { c with
        providers :=
          { p with
            primary
            ownMachine := if primary = "local" then { p.ownMachine with enabled := true }
              else p.ownMachine } }
    | none => c
  if a.noCache then { c with caching := { c.caching with enabled := false } } else c

/-- The configuration of a run, or what is wrong with it. -/
def configure [EnvFile.Reader] (env : Environment) (a : Arguments) :
    Task Float (Except (List String) (Config Float)) := do
  let w ← Run.get
  let load := Config.load w.disk env a.config none
  let session := Run.on (·.console) (fun console (s : Session Float) => { s with console }) load
  let studio := Run.on (·.session) (fun session (s : Studio Float) => { s with session }) session
  match ← Run.attempt (Workshop.inStudio studio) with
  | .error (.failed (.configuration wrong)) => return .error wrong
  | .error e => Run.stop e
  | .ok c =>
    let c := a.overridden c
    return if c.problems.isEmpty then .ok c else .error (c.problems.map (·.message))

/-- Ends with a failure that is told to the user. -/
def fail (text : String) : Task Float Ending := do
  Workshop.say (·.error text)
  return .finished 1

def save (c : Config Float) : Task Float Ending := do
  let file ← Workshop.change (c.save none)
  Workshop.say (·.success ("Configuration written to " ++ file.toString))
  return .finished 0

def announce (a : Arguments) (c : Command) : String :=
  match a.command with
  | none => "No command set, run " ++ Command.all.steps ++ "."
  | some _ => "Run command " ++ c.name ++ " : " ++ c.steps ++ "."

/-- Runs the steps of a command on a path, with a configuration of its own. -/
def work (config : Config Float) (c : Command) (path : String) : Task Float Ending := do
  Run.update fun w => { w with studio := { w.studio with config, transpiler? := none } }
  match ← Run.attempt (c.run path) with
  | .error (.broken e) => Run.stop (.broken e)
  | .error (.failed why) =>
    Workshop.say (·.stop)
    fail why.message
  | .ok () =>
    if c.givesImage then Workshop.say (·.success "ROM built")
    return .finished 0

/-- The command that is meant: all steps where none is given. -/
def Arguments.meant? (a : Arguments) : Option Command :=
  Command.names.lookup (Text.lower ((a.command.filter (· ≠ "")).getD "all"))

/-- Does what is asked for. -/
def perform [EnvFile.Reader] (env : Environment) (a : Arguments) : Task Float Ending := do
  match a.meant? with
  | none => fail ("Command " ++ a.command.getD "" ++ " unknown.")
  | some c =>
    match ← configure env a with
    | .error wrong =>
      Workshop.say (·.error "Invalid configuration:")
      let _ ← Run.each (fun problem => Workshop.say (·.error ("  " ++ problem))) wrong
      return .finished 1
    | .ok config =>
      if a.saveConfig then save config
      else
        match a.path.filter (· ≠ "") with
        | none => fail "Path is mandatory !"
        | some path =>
          Workshop.say (·.info (announce a c))
          work config c path

def program [EnvFile.Reader] (env : Environment) (arguments : List String) :
    Task Float Ending := do
  match understand arguments with
  | .error problem =>
    Workshop.say (·.show_ .error (programName ++ ": error: " ++ problem.message))
    return .dismissed 2
  | .ok .help =>
    Workshop.say (·.show_ .output explanation)
    return .dismissed 0
  | .ok .version =>
    Workshop.say (·.show_ .output (programName ++ " " ++ version))
    return .dismissed 0
  | .ok (.work a) => perform env a

end Cartridge.CommandLine
