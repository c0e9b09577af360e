import Cartridge.Entries
import Cartridge.Provider.Service
import Cartridge.Target

/-!
# Configuration

What a user can decide on: which providers are asked, how long results are kept, what may be spent,
how good the code has to be, how projects are cut up, and where the toolchain is.

Lists and tables that come from a configuration file are kept with the values that they hold there,
whatever their kind; only the kind of the list or table itself is certain.
-/

namespace Cartridge.Config

/-- Which providers are asked. -/
structure Providers where
  primary : String := "claude"
  /-- Names to try when the primary provider is not there. -/
  fallback : List Json := [.str "openai", .str "local"]
  apiKeys : Entries Json := []
  models : Entries Json := []
  ownMachine : Provider.LocalService := {}

/-- How long results are kept. -/
structure Caching (R : Type) where
  enabled : Bool := true
  maxSize : Int := 1000
  lifetime : Number R := .whole 86400

/-- What may be spent, in dollars. -/
structure Budget (R : Type) where
  perConversion : R
  perDay : R
  preferLocal : Bool := false

/-- How good the code has to be. -/
structure Quality (R : Type) where
  minScore : R
  review : Bool := true
  learning : Bool := true

/-- How projects are cut up, in characters. -/
structure ProjectRules where
  chunkSize : Int := 4000
  maxFileSize : Int := 8000
  /-- Whether each source file gives a file of its own. -/
  modular : Bool := true
  deriving DecidableEq, Repr

/-- Where the toolchain is and what turns sources into C. -/
structure Tools where
  libraryPath : String
  translator : String := "ai"
  ts2cCommand : String := "ts2c"
  libraryUrl : String := "https://github.com/andreasjhkarlsson/gbdk-n/archive/master.zip"
  /-- Seconds to wait for an answer from the network. -/
  timeout : Float := 120.0

end Config

/-- Everything that a user can decide on. -/
structure Config (R : Type) where
  providers : Config.Providers := {}
  caching : Config.Caching R := {}
  budget : Config.Budget R
  quality : Config.Quality R
  project : Config.ProjectRules := {}
  tools : Config.Tools
  /-- Where the configuration was read from. -/
  path : Option String := none

namespace Config

variable {R : Type} [Quantity R] [Inhabited R]

/-- The configuration of a user who decides on nothing, with a given place of the toolchain. -/
def standard (libraryPath : String) : Config R where
  budget := { perConversion := Quantity.ofRatio 1 10, perDay := Quantity.ofNat 5 }
  quality := { minScore := Quantity.ofRatio 7 10 }
  tools := { libraryPath }

/-- The names of the ways to turn sources into C. -/
def translators : List String := ["ai", "ts2c"]

/-- What is wrong with a configuration. -/
inductive Problem where
  | limitNotPositive
  | budgetNotPositive
  | scoreOutOfRange
  | cacheNotPositive
  | sizesNotPositive
  | translator (name : String)
  deriving DecidableEq, Repr

def Problem.message : Problem → String
  | .limitNotPositive => "max_cost_per_transpilation must be positive"
  | .budgetNotPositive => "daily_budget must be positive"
  | .scoreOutOfRange => "min_score must be between 0 and 1"
  | .cacheNotPositive => "caching max_size must be positive"
  | .sizesNotPositive => "project chunk_size and max_file_size must be positive"
  | .translator name =>
    "transpiler must be one of " ++ Text.joined ", " translators ++ " (got '" ++ name ++ "')"

/-- Everything that is wrong with a configuration. -/
def problems (c : Config R) : List Problem :=
  let zero : R := Quantity.ofNat 0
  let one : R := Quantity.ofNat 1
  (if Quantity.upTo c.budget.perConversion zero then [.limitNotPositive] else []) ++
  (if Quantity.upTo c.budget.perDay zero then [.budgetNotPositive] else []) ++
  (if Quantity.below c.quality.minScore zero || Quantity.below one c.quality.minScore then
    [.scoreOutOfRange] else []) ++
  (if c.caching.maxSize ≤ 0 then [.cacheNotPositive] else []) ++
  (if c.project.chunkSize ≤ 0 || c.project.maxFileSize ≤ 0 then [.sizesNotPositive] else []) ++
  (if translators.contains c.tools.translator then [] else [.translator c.tools.translator])

def target (_ : Config R) : Target := {}

end Config

end Cartridge
