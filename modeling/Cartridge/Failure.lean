import Cartridge.Provider.Failure
import Cartridge.Quantity
import Cartridge.Target

/-!
# Failures

Everything that can stop a run. A failure is foreseen: it is reported to the user in words, and an
attempt that fails may be repeated. A fault is not: it ends the run at once.
-/

namespace Cartridge

/-- The kinds of failure. -/
inductive FailureKind where
  | general
  | conversion
  | build
  | sourceMissing
  | configuration
  | keyMissing
  | budget
  | provider
  | providerKey
  | providerRate
  deriving DecidableEq, Repr

def FailureKind.code : FailureKind → String
  | .general => "GBTS_ERROR"
  | .conversion => "TRANSPILATION_ERROR"
  | .build => "COMPILATION_ERROR"
  | .sourceMissing => "FILE_NOT_FOUND"
  | .configuration => "CONFIG_ERROR"
  | .keyMissing => "MISSING_API_KEY"
  | .budget => "BUDGET_EXCEEDED"
  | .provider => "PROVIDER_ERROR"
  | .providerKey => "PROVIDER_AUTH_ERROR"
  | .providerRate => "PROVIDER_RATE_LIMIT"

/-- Why a conversion is refused for its cost. -/
inductive Refusal (R : Type) where
  /-- The day's budget is spent. -/
  | spent (soFar budget : R)
  /-- The estimate is above the limit for one conversion. -/
  | tooDear (estimate limit : R)
  /-- The estimate is above what is left of the day's budget. -/
  | beyondDay (estimate : R)

def Refusal.message {R : Type} [Quantity R] : Refusal R → String
  | .spent soFar budget =>
    "Daily budget exceeded: $" ++ Quantity.fixed 2 soFar ++ " / $" ++ Quantity.fixed 2 budget
  | .tooDear estimate limit =>
    "Estimated cost $" ++ Quantity.fixed 4 estimate ++ " exceeds the per-transpilation limit $" ++
      Quantity.fixed 2 limit
  | .beyondDay estimate =>
    "Would exceed daily budget. Estimated cost: $" ++ Quantity.fixed 4 estimate

/-- Why a step of the build chain fails. -/
inductive BuildFailure where
  /-- A tool could not be started. -/
  | cannotRun (tool reason : String)
  /-- A tool ended with another code than zero, and with a text without blanks around it. -/
  | exited (tool : String) (code : Int) (complaint : String)
  | noToolchain
  | nothingToCompile (path : String)
  | nothingToLink (path : String)
  | missing (path : String)
  | download (url reason : String)
  | badArchive (reason : String)
  | archiveWithout (directory : String)
  deriving DecidableEq, Repr

namespace BuildFailure

/-- The wording of a failure of a step. -/
def message : BuildFailure → String
  | .cannotRun tool reason => "Could not run " ++ tool ++ ": " ++ reason
  | .exited tool code complaint =>
    tool ++ " exited with code " ++ toString code ++
      if complaint = "" then "" else "\n" ++ complaint
  | .noToolchain => "GBDK not installed, please run \"gbts-install\" first"
  | .nothingToCompile path => "No C files to compile for " ++ path
  | .nothingToLink path => "No object files to link for " ++ path
  | .missing path => "File " ++ path ++ " does not exist"
  | .download url reason => "Failed to download GBDK from " ++ url ++ ": " ++ reason
  | .badArchive reason => "Downloaded GBDK archive is not a valid zip: " ++ reason
  | .archiveWithout directory => "GBDK archive has no " ++ directory ++ " directory"

/-- What the tool said, if a tool said it. -/
def complaint : BuildFailure → String
  | .exited _ _ text => text
  | _ => ""

end BuildFailure

/-- A failure that is reported to the user. -/
inductive Failure (R : Type) where
  | badTarget (problems : List Target.Problem)
  | refused (why : Refusal R)
  | noProvider
  /-- The provider answered with nothing. -/
  | emptyAnswer
  /-- The provider answered with something else than C. -/
  | notCode
  /-- No attempt was made. -/
  | noAttempt
  | provider (why : Provider.Failure)
  | noSources (path : String)
  | directoryNeedsModel
  /-- The translator that is no language model failed. -/
  | translator (why : BuildFailure)
  | sourceMissing (path : String)
  | build (why : BuildFailure)
  | configuration (problems : List String)
  /-- A failure of a given kind that a provider reports in its own words. -/
  | reported (kind : FailureKind) (text : String)

namespace Failure

variable {R : Type}

def kindOfProvider : Provider.Failure → FailureKind
  | .unauthorized .. => .providerKey
  | .rateLimited .. => .providerRate
  | _ => .provider

def kind : Failure R → FailureKind
  | .badTarget _ | .emptyAnswer | .notCode | .noAttempt | .noSources _ | .directoryNeedsModel
  | .translator _ => .conversion
  | .refused _ => .budget
  | .noProvider => .keyMissing
  | .provider why => kindOfProvider why
  | .sourceMissing _ => .sourceMissing
  | .build _ => .build
  | .configuration _ => .configuration
  | .reported kind _ => kind

/-- The problems of a configuration, one for each part of the text in which they were reported. -/
def problemsOfText (text : String) : List String := text.toList.map fun c => .singleton c

def configurationMessage (problems : List String) : String :=
  "Invalid configuration: " ++ Text.joined "; " problems

/-- The wording for a source that is missing. -/
def sourceMessage (path : String) : String := "File " ++ path ++ " does not exist"

def message [Quantity R] : Failure R → String
  | .badTarget problems =>
    "Invalid GameBoy context: " ++ Text.joined "; " (problems.map (·.message))
  | .refused why => why.message
  | .noProvider =>
    "AI Transpiler requires at least one AI provider. " ++
    "Set CLAUDE_API_KEY, OPENAI_API_KEY or OPENROUTER_API_KEY."
  | .emptyAnswer => "AI returned empty result"
  | .notCode => "AI result does not look like valid C code"
  | .noAttempt => "AI transpilation failed with unknown error"
  | .provider why => why.message
  | .noSources path => "No TypeScript files found in " ++ path
  | .directoryNeedsModel =>
    "Project directories can only be transpiled with the AI transpiler"
  | .translator why => "ts2c failed: " ++ why.message
  | .sourceMissing path => sourceMessage path
  | .build why => why.message
  | .configuration problems => configurationMessage problems
  | .reported .sourceMissing text => sourceMessage text
  | .reported .configuration text => configurationMessage (problemsOfText text)
  | .reported _ text => text

end Failure

/-- What ends a run at once. -/
inductive Fault where
  /-- A whole number in a document or in generated code has too many digits. -/
  | tooManyDigits
  /-- Parts of a document lie within too many others. -/
  | tooDeep
  /-- A number is too large for the arithmetic. -/
  | tooLarge
  | notFound
  | isDirectory
  | notDirectory
  | exists_
  /-- The owner of a file or folder may not do this with it. -/
  | notAllowed
  | nameTooLong
  /-- A path or a variable has a character that the system has no place for. -/
  | unfitText
  /-- A file is not in UTF-8. -/
  | notText
  /-- A member of an archive has no name. -/
  | nameless
  /-- Something is asked of a provider without a service. -/
  | noService
  /-- Something unforeseen happened while a provider answered. -/
  | unforeseen
  /-- The cache may hold no entry, not even the one just put in. -/
  | emptyCache
  /-- A value of the configuration is used where only a text can be used. -/
  | wrongKind
  deriving DecidableEq, Repr

def Fault.message : Fault → String
  | .tooManyDigits => "a number has too many digits"
  | .tooDeep => "a document with parts that lie too deep"
  | .tooLarge => "a number is too large"
  | .notFound => "no such file or directory"
  | .isDirectory => "is a directory"
  | .notDirectory => "not a directory"
  | .exists_ => "file exists"
  | .notAllowed => "permission denied"
  | .nameTooLong => "a name is too long"
  | .unfitText => "a character that cannot stand in a path or a variable"
  | .notText => "a file is not in UTF-8"
  | .nameless => "a member without a name"
  | .noService => "a provider without a service"
  | .unforeseen => "an unforeseen answer"
  | .emptyCache => "the cache may hold no entry"
  | .wrongKind => "a value of the wrong kind"

/-- Why a run is stopped. -/
inductive Stop (R : Type) where
  | failed (why : Failure R)
  | broken (why : Fault)

end Cartridge
