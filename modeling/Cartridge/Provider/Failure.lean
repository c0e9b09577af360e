/-!
# Failures of providers

What can go wrong between a prompt and an answer.
-/

namespace Cartridge.Provider

/-- Why a provider gave no answer. Each failure carries the name under which the provider is shown.
-/
inductive Failure where
  /-- The service could not be reached. -/
  | unreachable (label text : String)
  /-- The service does not accept the key; it is kept in a variable of the environment. -/
  | unauthorized (label : String) (status : Int) (detail : String) (holder? : Option String)
  /-- The service was asked too often. -/
  | rateLimited (label detail : String)
  /-- The service refused for another reason. -/
  | refused (label : String) (status : Int) (detail : String)
  /-- The answer is no data document. -/
  | unreadable (label : String) (status : Int)
  /-- The answer is a data document of another kind than an object. -/
  | notAnObject (label : String) (status : Int) (kind : String)
  /-- The answer holds no text. -/
  | noContent (label : String)
  deriving DecidableEq, Repr

namespace Failure

/-- The status of a service that asks for a valid key, and of one that forbids access. -/
def keyStatuses : List Int := [401, 403]

/-- The status of a service that was asked too often. -/
def rateStatus : Int := 429

def message : Failure → String
  | .unreachable label text => label ++ " API connection error: " ++ text
  | .unauthorized label status detail holder? =>
    let hint :=
      match holder? with
      | some v => " Check your " ++ v ++ "."
      | none => ""
    label ++ " API authentication error: " ++ toString status ++ " - " ++ detail ++ "." ++ hint
  | .rateLimited label detail => label ++ " API rate limit exceeded: " ++ detail
  | .refused label status detail =>
    label ++ " API error: " ++ toString status ++ " - " ++ detail
  | .unreadable label _ => label ++ " API returned invalid JSON"
  | .notAnObject label _ kind => label ++ " API returned " ++ kind ++ " instead of a JSON object"
  | .noContent label => "No content received from " ++ label ++ " API"

/-- The status that the service answered with, if it answered. -/
def status? : Failure → Option Int
  | .unauthorized _ status _ _ | .refused _ status _ | .unreadable _ status
  | .notAnObject _ status _ => some status
  | .rateLimited .. => some rateStatus
  | .unreachable .. | .noContent _ => none

end Failure

end Cartridge.Provider
