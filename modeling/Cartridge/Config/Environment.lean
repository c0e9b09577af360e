import Cartridge.Config.Basic
import Cartridge.Config.EnvFile
import Cartridge.Decimal.Reader

/-!
# Variables that decide

The variables of the environment that a configuration follows. They win over the configuration
file; an empty variable counts as none.
-/

namespace Cartridge.Config

namespace Variable

/-- The variable for the primary provider. -/
def provider : String := "GBTS_AI_PROVIDER"

/-- The variable for the budget of a day. -/
def dailyBudget : String := "GBTS_DAILY_BUDGET"

/-- The variable for the limit of one conversion. -/
def maxCost : String := "GBTS_MAX_COST"

/-- The variable that switches the cache off. -/
def disableCache : String := "GBTS_DISABLE_CACHE"

/-- The variable for the endpoint of the user's own machine. -/
def endpoint : String := "GBTS_LOCAL_LLM_ENDPOINT"

/-- The variable for the folder of the toolchain. -/
def libraryPath : String := "GBTS_GBDK_PATH"

/-- The variable for what turns sources into C. -/
def transpiler : String := "GBTS_TRANSPILER"

/-- The variables that decide something, those for keys included. -/
def names : List String :=
  [Provider.Kind.claude, .openAI, .openRouter].filterMap Provider.Kind.keyVariable? ++
    [provider, dailyBudget, maxCost, disableCache, endpoint, libraryPath, transpiler]

end Variable

/-- The value of a variable that is set and not empty. -/
def value? (env : Environment) (name : String) : Option String :=
  (env.get? name).filter (· ≠ "")

/-- What is wrong with a variable that has to be a finite number. -/
def notNumber (name text : String) : String :=
  name ++ " must be a number (got '" ++ text ++ "')"

/-- A variable that has to be a finite number: none if it is not set. -/
def number? (env : Environment) (name : String) : Except String (Option Float) :=
  match value? env name with
  | none => .ok none
  | some text =>
    match (Decimal.ofText? text).filter Decimal.isFinite with
    | some x => .ok (some x)
    | none => .error (notNumber name text)

/-- A text without blanks around it, in lower case. -/
def word (text : String) : String := Text.lower (Text.stripped text)

/-- The words that switch something on. -/
def yesWords : List String := ["1", "true", "yes"]

/-- The keys of providers with those of the environment. -/
def keysFrom (env : Environment) (keys : Entries Json) : Entries Json :=
  [Provider.Kind.claude, .openAI, .openRouter].foldl (fun keys kind =>
    match kind.keyVariable?.bind (value? env) with
    | some key => keys.put kind.name (.str key)
    | none => keys) keys

/-- The user's own machine as the environment wants it: an endpoint switches it on. -/
def ownMachineFrom (env : Environment) (s : Provider.LocalService) : Provider.LocalService :=
  match value? env Variable.endpoint with
  | some endpoint => { s with endpoint, enabled := true }
  | none => s

/-- The section about providers as the environment wants it. -/
def Providers.from (env : Environment) (p : Providers) : Providers :=
  { p with
    primary := (value? env Variable.provider).getD p.primary
    apiKeys := keysFrom env p.apiKeys
    ownMachine := ownMachineFrom env p.ownMachine }

/-- The section about caching as the environment wants it. -/
def Caching.from (env : Environment) (c : Caching Float) : Caching Float :=
  match value? env Variable.disableCache with
  | some text => { c with enabled := !yesWords.contains (word text) }
  | none => c

/-- The section about the toolchain as the environment wants it. -/
def Tools.from (env : Environment) (t : Tools) : Tools :=
  { t with
    libraryPath := (value? env Variable.libraryPath).getD t.libraryPath
    translator := ((value? env Variable.transpiler).map word).getD t.translator }

/-- The user's own machine is switched on where it is asked for. -/
def withOwnMachine (c : Config Float) : Config Float :=
  if c.providers.primary = "local" || c.budget.preferLocal then
    let own := { c.providers.ownMachine with enabled := true }
    { c with providers := { c.providers with ownMachine := own } }
  else c

/-- The error of an outcome, if it is one. -/
def problem? {α : Type} : Except String α → Option String
  | .error e => some e
  | .ok _ => none

/-- The value of an outcome, or another value. -/
def valueOr {α : Type} (other : α) : Except String (Option α) → α
  | .ok (some a) => a
  | _ => other

/-- The configuration as the environment wants it, or what is wrong with the environment. -/
def withEnvironment (env : Environment) (c : Config Float) : Except (List String) (Config Float) :=
  let perDay := number? env Variable.dailyBudget
  let perConversion := number? env Variable.maxCost
  let wrong := (problem? perDay).toList ++ (problem? perConversion).toList
  if wrong.isEmpty then
    .ok (withOwnMachine
      { c with
        providers := c.providers.from env
        caching := c.caching.from env
        budget :=
          { c.budget with
            perDay := valueOr c.budget.perDay perDay
            perConversion := valueOr c.budget.perConversion perConversion }
        tools := c.tools.from env })
  else .error wrong

end Cartridge.Config
