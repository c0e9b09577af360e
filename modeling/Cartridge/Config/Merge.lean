import Cartridge.Config.Basic
import Cartridge.Json.Display
import Cartridge.Run
import Cartridge.Failure
import Cartridge.Text.Casing

/-!
# Merging entries

How the entries of a configuration file change a configuration. A key may have its words divided by
underscores or marked by capitals. An entry with an unknown key or with a value of the wrong kind
is reported and changes nothing; a whole number is taken where any number is wanted.
-/

namespace Cartridge.Config

/-- What is reported about a configuration file. -/
inductive Warning where
  | unknownKey (key : String)
  | wrongKind (key wanted given kept : String)
  | unknownSection (name : String)
  | notSection (name : String)
  | notObject (path : String)
  | unreadable (path reason : String)
  deriving DecidableEq, Repr

def Warning.message : Warning → String
  | .unknownKey key => "Unknown config key '" ++ key ++ "' ignored"
  | .wrongKind key wanted given kept =>
    "Config key '" ++ key ++ "' should be " ++ wanted ++ ", got " ++ given ++ "; keeping " ++ kept
  | .unknownSection name => "Unknown config section '" ++ name ++ "' ignored"
  | .notSection name => "Config section '" ++ name ++ "' is not a JSON object, ignored"
  | .notObject path => "Config " ++ path ++ " is not a JSON object, using defaults"
  | .unreadable path reason => "Failed to load config " ++ path ++ ", using defaults: " ++ reason

/-- Something into which entries are merged, and the warnings so far, latest first. -/
structure Merging (S : Type) where
  value : S
  warnings : List Warning := []

/-- A change by an entry. It is broken off by a number that is too large. -/
abbrev Merge (S α : Type) := Run (Merging S) Fault α

namespace Merge

variable {S T : Type}

def set (f : S → S) : Merge S Unit := Run.update fun m => { m with value := f m.value }

def warn (w : Warning) : Merge S Unit := Run.update fun m => { m with warnings := w :: m.warnings }

/-- Merges into a part. -/
def within (view : S → T) (put : S → T → S) (x : Merge T Unit) : Merge S Unit :=
  Run.on (fun m => ⟨view m.value, m.warnings⟩)
    (fun part m => { value := put m.value part.value, warnings := part.warnings }) x

def value : Merge S S := fun m => (.ok m.value, m)

/-- Keeps a value because the one given is of the wrong kind. -/
def keep (key wanted : String) (given : Json) (kept : String) : Merge S Unit :=
  warn (.wrongKind key wanted given.kindName kept)

/-- The double nearest to a quotient, unless it is too large. -/
def real (num : Int) (den : Nat) : Except Fault Float :=
  match Quantity.ofRatio? num den with
  | some x => .ok x
  | none => .error .tooLarge

end Merge

/-! ## Fields -/

/-- A field of a section: which keys name it, and what an entry does to it. The effect is given the
key as it is reported. -/
structure Field (S : Type) where
  isKey : String → Bool
  take : String → Json → Merge S Unit

/-- A key with an underscore before each capital but the first character. -/
def divided : List Char → List Char
  | [] => []
  | c :: rest => c :: rest.flatMap fun d => if 'A' ≤ d ∧ d ≤ 'Z' then ['_', d] else [d]

def fieldName (key : String) : String := Text.lower (.ofList (divided key.toList))

namespace Field

variable {S T : Type}

/-- A field by its name. -/
def named (name : String) (take : String → Json → Merge S Unit) : Field S :=
  ⟨fun key => fieldName key = name, take⟩

def text (name : String) (get : S → String) (put : S → String → S) : Field S :=
  named name fun key given => do
    match given with
    | .str s => Merge.set fun section_ => put section_ s
    | _ => Merge.keep key "str" given (Text.quoted (get (← Merge.value)))

/-- A field that holds a truth value. -/
def flag (name : String) (get : S → Bool) (put : S → Bool → S) : Field S :=
  named name fun key given => do
    match given with
    | .bool b => Merge.set fun section_ => put section_ b
    | _ => Merge.keep key "bool" given (Json.bool (get (← Merge.value))).shown

/-- A field that holds a whole number. -/
def whole (name : String) (get : S → Int) (put : S → Int → S) : Field S :=
  named name fun key given => do
    match given with
    | .int n => Merge.set fun section_ => put section_ n
    | _ => Merge.keep key "int" given (Json.int (get (← Merge.value))).shown

/-- Takes a number of any kind. -/
def takeReal (get : S → Float) (put : S → Float → S) (key : String) (given : Json) :
    Merge S Unit := do
  match given with
  | .int n =>
    let x ← Run.ofExcept (Merge.real n 1)
    Merge.set fun section_ => put section_ x
  | .float x => Merge.set fun section_ => put section_ x
  | _ => Merge.keep key "float" given (Json.float (get (← Merge.value))).shown

/-- A field that holds a number. -/
def real (name : String) (get : S → Float) (put : S → Float → S) : Field S :=
  named name (takeReal get put)

def items (name : String) (get : S → List Json) (put : S → List Json → S) : Field S :=
  named name fun key given => do
    match given with
    | .arr new => Merge.set fun section_ => put section_ new
    | _ => Merge.keep key "list" given (Json.arr (get (← Merge.value))).shown

/-- A field that holds a table; the entries given are set in it. -/
def table (name : String) (get : S → Entries Json) (put : S → Entries Json → S) : Field S :=
  named name fun key given => do
    match given with
    | .obj new => Merge.set fun section_ => put section_ ((get section_).putAll new)
    | _ => Merge.keep key "dict" given (Json.obj (get (← Merge.value))).shown

end Field

/-- Merges the entries of a section, whose name goes before the keys in warnings. -/
def mergeEntries {S : Type} (fields : List (Field S)) (label : String) :
    Entries Json → Merge S Unit
  | [] => Run.done ()
  | (key, given) :: rest => do
    match fields.find? (·.isKey key) with
    | some field => field.take (label ++ "." ++ key) given
    | none => Merge.warn (.unknownKey (label ++ "." ++ key))
    mergeEntries fields label rest

/-! ## Sections -/

/-- The fields of the user's own machine. -/
def ownMachineFields : List (Field Provider.LocalService) :=
  [.text "endpoint" (·.endpoint) ({ · with endpoint := · }),
   .text "model" (·.model) ({ · with model := · }),
   .named "temperature" fun key given => do
    match (← Merge.value).temperature with
    | .real x =>
      Field.takeReal (fun _ => x) (fun s y => { s with temperature := .real y }) key given
    | .whole n =>
      match given with
      | .int m => Merge.set fun s => { s with temperature := .whole m }
      | _ => Merge.keep key "int" given (toString n),
   .whole "max_tokens" (·.maxTokens) ({ · with maxTokens := · }),
   .flag "enabled" (·.enabled) ({ · with enabled := · })]

/-- The settings of the user's own machine, as a warning shows them. -/
def shownOwnMachine (s : Provider.LocalService) : String :=
  let temperature : Json := match s.temperature with
    | .whole n => .int n
    | .real x => .float x
  "LocalLLMConfig(endpoint=" ++ Text.quoted s.endpoint ++ ", model=" ++ Text.quoted s.model ++
    ", temperature=" ++ temperature.shown ++ ", max_tokens=" ++ toString s.maxTokens ++
    ", enabled=" ++ (Json.bool s.enabled).shown ++ ")"

/-- The fields of the section about providers. -/
def providerFields : List (Field Providers) :=
  [.text "primary" (·.primary) ({ · with primary := · }),
   .items "fallback" (·.fallback) ({ · with fallback := · }),
   .table "api_keys" (·.apiKeys) ({ · with apiKeys := · }),
   .table "models" (·.models) ({ · with models := · }),
   .named "local" fun key given => do
    match given with
    | .obj entries =>
      Merge.within (·.ownMachine) ({ · with ownMachine := · })
        (mergeEntries ownMachineFields key entries)
    | _ => Merge.keep key "LocalLLMConfig" given (shownOwnMachine (← Merge.value).ownMachine)]

/-- Takes the time for which results are kept: `scaled` makes seconds of what is given. A number
of any kind is taken where one was set already that is not whole. -/
def takeLifetime (scaled : Int → Except Fault (Number Float)) (scaledReal : Float → Float)
    (key : String) (given : Json) : Merge (Caching Float) Unit := do
  match (← Merge.value).lifetime, given with
  | .whole _, .int n =>
    let l ← Run.ofExcept (scaled n)
    Merge.set fun s => { s with lifetime := l }
  | .whole m, _ => Merge.keep key "int" given (toString m)
  | .real _, .int n =>
    match ← Run.ofExcept (scaled n) with
    | .real x => Merge.set fun s => { s with lifetime := .real x }
    | .whole m =>
      let x ← Run.ofExcept (Merge.real m 1)
      Merge.set fun s => { s with lifetime := .real x }
  | .real _, .float x => Merge.set fun s => { s with lifetime := .real (scaledReal x) }
  | .real x, _ => Merge.keep key "float" given (Json.float x).shown

/-- The fields of the section about caching. One key takes milliseconds. -/
def cachingFields : List (Field (Caching Float)) :=
  [⟨(· = "ttl"), takeLifetime (fun n => (Merge.real n 1000).map .real) (· / 1000.0)⟩,
   .flag "enabled" (·.enabled) ({ · with enabled := · }),
   .whole "max_size" (·.maxSize) ({ · with maxSize := · }),
   .named "ttl_seconds" (takeLifetime (fun n => .ok (.whole n)) id)]

/-- The fields of the section about the budget. -/
def budgetFields : List (Field (Budget Float)) :=
  [.real "max_cost_per_transpilation" (·.perConversion) ({ · with perConversion := · }),
   .real "daily_budget" (·.perDay) ({ · with perDay := · }),
   .flag "prefer_local" (·.preferLocal) ({ · with preferLocal := · })]

/-- The fields of the section about quality. -/
def qualityFields : List (Field (Quality Float)) :=
  [.real "min_score" (·.minScore) ({ · with minScore := · }),
   .flag "require_validation" (·.review) ({ · with review := · }),
   .flag "enable_learning" (·.learning) ({ · with learning := · })]

/-- The fields of the section about projects. -/
def projectFields : List (Field ProjectRules) :=
  [.whole "chunk_size" (·.chunkSize) ({ · with chunkSize := · }),
   .whole "max_file_size" (·.maxFileSize) ({ · with maxFileSize := · }),
   .flag "enable_modular_build" (·.modular) ({ · with modular := · })]

/-- The fields of the section about the toolchain. -/
def toolFields : List (Field Tools) :=
  [.text "gbdk_path" (·.libraryPath) ({ · with libraryPath := · }),
   .text "transpiler" (·.translator) ({ · with translator := · }),
   .text "ts2c_command" (·.ts2cCommand) ({ · with ts2cCommand := · }),
   .text "gbdk_url" (·.libraryUrl) ({ · with libraryUrl := · }),
   .real "request_timeout" (·.timeout) ({ · with timeout := · })]

/-- What the entries of each section do to a configuration, by the name of the section. -/
def sections : List (String × (Entries Json → Merge (Config Float) Unit)) :=
  [("providers", fun es => Merge.within (·.providers) ({ · with providers := · })
      (mergeEntries providerFields "providers" es)),
   ("caching", fun es => Merge.within (·.caching) ({ · with caching := · })
      (mergeEntries cachingFields "caching" es)),
   ("budget", fun es => Merge.within (·.budget) ({ · with budget := · })
      (mergeEntries budgetFields "budget" es)),
   ("quality", fun es => Merge.within (·.quality) ({ · with quality := · })
      (mergeEntries qualityFields "quality" es)),
   ("project", fun es => Merge.within (·.project) ({ · with project := · })
      (mergeEntries projectFields "project" es)),
   ("toolchain", fun es => Merge.within (·.tools) ({ · with tools := · })
      (mergeEntries toolFields "toolchain" es))]

/-- Merges the sections of a configuration file. -/
def mergeSections : Entries Json → Merge (Config Float) Unit
  | [] => Run.done ()
  | (name, given) :: rest => do
    match sections.lookup name, given with
    | some merge, .obj entries => merge entries
    | some _, _ => Merge.warn (.notSection name)
    | none, _ => Merge.warn (.unknownSection name)
    mergeSections rest

/-- Merges a configuration file that was found at a path. -/
def mergeDocument (path : String) : Json → Merge (Config Float) Unit
  | .obj entries => mergeSections entries
  | _ => Merge.warn (.notObject path)

end Cartridge.Config
