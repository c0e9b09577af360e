import Cartridge.Config.Environment
import Cartridge.Config.Merge
import Cartridge.FileTree.Disk
import Cartridge.Json.Reader
import Cartridge.Json.Writer
import Cartridge.Session

/-!
# Configuration files

How a configuration is read and written. It starts from what holds for every user; the entries of
the configuration file are merged into that, and the environment has the last word. Keys of
providers are never written.
-/

namespace Cartridge.Config

def fileName : String := "gbts.config.json"

def envFileName : String := ".env"

/-- The path that is used where none is given, or an empty one. -/
def pathOr (d : Disk) (given : Option String) (name : String) : Path :=
  match given.filter (· ≠ "") with
  | some path => Path.ofString path
  | none => d.current.child name

/-- The configuration of a user who decides on nothing. -/
def initial (d : Disk) : Config Float :=
  .standard ((d.current.child "bin").child "gbdk-n-master").toString

/-! ## Reading -/

/-- The environment file that is meant, if there is one. -/
def envFile? (d : Disk) (given : Option String) : Option FileTree :=
  if given.any Path.meansFolder then none
  else (d.found? (pathOr d given envFileName)).filter (!·.isFolder)

/-- The environment with what an environment file sets besides, if there is one. -/
def environment [EnvFile.Reader] (d : Disk) (env : Environment) (given : Option String) :
    Except Fault Environment := do
  match envFile? d given with
  | some t => EnvFile.Reader.extend env (← Disk.textOf t)
  | none => return env

theorem environment_of_some [EnvFile.Reader] {d : Disk} {given : Option String} {t : FileTree}
    (h : envFile? d given = some t) (env : Environment) :
    environment d env given = (Disk.textOf t).bind (EnvFile.Reader.extend env) := by
  rw [environment, h]
  dsimp only
  cases Disk.textOf t <;> rfl

theorem environment_of_none [EnvFile.Reader] {d : Disk} {given : Option String}
    (h : envFile? d given = none) (env : Environment) : environment d env given = .ok env := by
  rw [environment, h]
  rfl

/-- The environment has precedence over its file. -/
theorem get?_environment_of_has [EnvFile.Reader] {d : Disk} {env all : Environment}
    {given : Option String} {name : String} (h : environment d env given = .ok all)
    (hname : env.has name) : all.get? name = env.get? name := by
  cases hfile : envFile? d given with
  | none =>
    rw [environment_of_none hfile] at h
    cases h
    rfl
  | some t =>
    rw [environment_of_some hfile] at h
    cases htext : Disk.textOf t with
    | error fault =>
      rw [htext] at h
      cases h
    | ok text =>
      rw [htext] at h
      exact EnvFile.Reader.keeps h hname

/-- What is said of a configuration file that is no data document at all. -/
def malformed : String := "malformed document"

/-- Whether the system refuses to read a file, so that the run can go on without it. -/
def isRefusal : Fault → Bool
  | .notFound | .isDirectory | .notDirectory | .exists_ | .notAllowed | .nameTooLong => true
  | _ => false

/-- Merges the configuration file at a path. -/
def mergeFile (d : Disk) (file : Path) : Merge (Config Float) Unit := do
  let path := file.toString
  match d.readText file with
  | .error e =>
    if isRefusal e then Merge.warn (.unreadable path (e.about path)) else Run.stop e
  | .ok text =>
    match Json.read text with
    | .ok j => mergeDocument path j
    | .error .malformed => Merge.warn (.unreadable path malformed)
    | .error .oversized => Run.stop .tooManyDigits
    | .error .tooDeep => Run.stop .tooDeep

/-- Merges the configuration file at a path, if there is one. -/
def mergeFileIfThere (d : Disk) (file : Path) : Merge (Config Float) Unit := do
  if ← Run.ofExcept (d.has file) then mergeFile d file

/-- Reads a configuration from its file and the environment. -/
def load [EnvFile.Reader] (d : Disk) (env : Environment) (configPath envPath : Option String) :
    Run Console (Stop Float) (Config Float) := fun console =>
  match environment d env envPath with
  | .error e => (.error (.broken e), console)
  | .ok env =>
    let file := pathOr d configPath fileName
    let (r, merged) :=
      mergeFileIfThere d file { value := { initial d with path := some file.toString } }
    let console := console.warnAll (merged.warnings.reverse.map (·.message))
    match r with
    | .error e => (.error (.broken e), console)
    | .ok () =>
      match withEnvironment env merged.value with
      | .ok c => (.ok c, console)
      | .error wrong => (.error (.failed (.configuration wrong)), console)

/-! ## Writing -/

/-- A number in a data document. -/
def numberJson : Number Float → Json
  | .whole n => .int n
  | .real x => .float x

/-- A configuration as a data document, without the keys of providers. -/
def toJson (c : Config Float) : Json :=
  let p := c.providers
  .obj
    [("providers", .obj
      [("primary", .str p.primary), ("fallback", .arr p.fallback), ("models", .obj p.models),
       ("local", .obj
        [("endpoint", .str p.ownMachine.endpoint), ("model", .str p.ownMachine.model),
         ("temperature", numberJson p.ownMachine.temperature),
         ("max_tokens", .int p.ownMachine.maxTokens), ("enabled", .bool p.ownMachine.enabled)])]),
     ("caching", .obj
      [("enabled", .bool c.caching.enabled), ("max_size", .int c.caching.maxSize),
       ("ttl_seconds", numberJson c.caching.lifetime)]),
     ("budget", .obj
      [("max_cost_per_transpilation", .float c.budget.perConversion),
       ("daily_budget", .float c.budget.perDay), ("prefer_local", .bool c.budget.preferLocal)]),
     ("quality", .obj
      [("min_score", .float c.quality.minScore), ("require_validation", .bool c.quality.review),
       ("enable_learning", .bool c.quality.learning)]),
     ("project", .obj
      [("chunk_size", .int c.project.chunkSize), ("max_file_size", .int c.project.maxFileSize),
       ("enable_modular_build", .bool c.project.modular)]),
     ("toolchain", .obj
      [("gbdk_path", .str c.tools.libraryPath), ("transpiler", .str c.tools.translator),
       ("ts2c_command", .str c.tools.ts2cCommand), ("gbdk_url", .str c.tools.libraryUrl),
       ("request_timeout", .float c.tools.timeout)])]

/-- Where a configuration is written: the path given, or where it was read from. -/
def savePath (d : Disk) (c : Config Float) (given : Option String) : Path :=
  match given.filter (· ≠ "") with
  | some path => Path.ofString path
  | none => pathOr d c.path fileName

/-- Writes a configuration and gives the path of the file. -/
def save (c : Config Float) (given : Option String) : Disk.Task Path := do
  let file := savePath (← Run.get) c given
  Disk.writeText file c.toJson.document
  return file

end Cartridge.Config
