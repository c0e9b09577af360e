import Cartridge.Cache
import Cartridge.Config.Basic
import Cartridge.Fingerprint
import Cartridge.Learning
import Cartridge.Session

/-!
# Transpiler

Turns one piece of source into C by asking a provider. A request passes these gates in order: the
target must be known, the day's budget must not be spent, and a result of an earlier equal request
is used again. Then the provider is asked, up to a number of times; each time the estimated cost
must be within both budgets, and an answer that was paid for counts whether it is used or not.
-/

namespace Cartridge

/-- Figures and remarks on a conversion. -/
structure ConversionNotes where
  sourceSize : Nat
  codeSize : Nat
  romSize : Nat
  ramUsage : Nat
  warnings : List String
  optimizations : List String
  deriving DecidableEq, Repr

/-- The result of a request. -/
structure Conversion (R : Type) where
  code : String
  provider : String
  /-- In seconds. -/
  duration : R
  /-- In dollars. -/
  cost : R
  quality : R
  fromCache : Bool
  notes : ConversionNotes

/-- A piece of source to convert. -/
structure Request where
  source : String
  target : Target := {}
  useCache : Bool := true
  /-- How often to ask. -/
  attempts : Int := 3

/-- What the transpiler keeps between requests. -/
structure Transpiler (R : Type) where
  config : Config R
  providers : Entries (Provider R)
  cache : Cache R (Conversion R)
  examples : List (Example R) := []
  /-- What was spent since the last reset, in dollars. -/
  spent : R
  /-- The day of the last reset. -/
  day : String

/-- A transpiler and what surrounds it. -/
structure Workbench (R : Type) where
  session : Session R
  transpiler : Transpiler R

/-- A figure that could not be worked out, as a fault. -/
def Fault.ofUncountable : Code.Uncountable → Fault
  | .tooManyDigits => .tooManyDigits
  | .tooLarge => .tooLarge

/-! ## Providers -/

namespace Config

variable {R : Type} [Quantity R] [Inhabited R]

/-- The key of a kind of service, if the configuration holds one that is not empty. -/
def key? (c : Config R) (k : Provider.Kind) : Option Json :=
  (c.providers.apiKeys.get? k.name).filter Json.isTruthy

/-- The model to ask of a kind of service. -/
def modelFor (c : Config R) (k : Provider.Kind) : Json :=
  k.modelOr ((c.providers.models.get? k.name).getD .null)

/-- The services that the configuration gives access to, in a fixed order. -/
def services (c : Config R) : List Provider.Service :=
  let hosted (k : Provider.Kind) (make : Json → Json → String → Provider.Service) :=
    match c.key? k with
    | some key => [make key (c.modelFor k) k.defaultUrl]
    | none => []
  hosted .claude .claude ++ hosted .openAI .openAI ++ hosted .openRouter .openRouter ++
    if c.providers.ownMachine.enabled then [.ownMachine c.providers.ownMachine] else []

/-- The providers that the configuration gives access to, by name. -/
def serviceProviders (c : Config R) : Entries (Provider R) :=
  c.services.map fun s => (s.kind.name, Provider.ofService s)

end Config

namespace Transpiler

variable {R : Type} [Quantity R] [Inhabited R]

/-- Puts a transpiler together. It needs at least one provider. -/
def create (config : Config R) (providers : Entries (Provider R)) :
    Run (Session R) (Stop R) (Transpiler R) := fun s =>
  if providers.isEmpty then
    (.error (.failed .noProvider), s.say fun c =>
      (((c.error "No AI providers available!").info
        "Set CLAUDE_API_KEY, OPENAI_API_KEY or OPENROUTER_API_KEY environment variables").info
        "Claude: https://console.anthropic.com/").info
        "OpenAI: https://platform.openai.com/api-keys")
  else
    let cache := { maxSize := config.caching.maxSize, lifetime := config.caching.lifetime }
    (.ok { config, providers, cache, spent := Quantity.ofNat 0, day := s.today },
      s.say (·.success (toString providers.length ++ " AI provider(s) ready: " ++
        Text.joined ", " providers.names)))

/-- The first name of a list of values that a provider has; a value that cannot be a name is an
error if it is reached. -/
def firstAvailable (providers : Entries (Provider R)) : List Json → Except Fault (Option String)
  | [] => .ok none
  | .str name :: rest =>
    if providers.has name then .ok (some name) else firstAvailable providers rest
  | .arr _ :: _ | .obj _ :: _ => .error .wrongKind
  | _ :: rest => firstAvailable providers rest

/-- The provider to ask, and whether it is only a substitute for the preferred one: the user's own
machine if it is preferred, the primary provider, the first available fallback, any provider. -/
def preferred (t : Transpiler R) : Except Fault (String × Bool) := do
  let p := t.config.providers
  if t.config.budget.preferLocal && t.providers.has "local" then return ("local", false)
  if t.providers.has p.primary then return (p.primary, false)
  match ← firstAvailable t.providers p.fallback with
  | some name => return (name, true)
  | none => return (t.providers.names.headD "", true)

/-- The warning that a substitute is asked. -/
def substituteWarning (primary name : String) : String :=
  "Preferred provider '" ++ primary ++ "' not available, using '" ++ name ++ "'"

/-- The estimated cost of a call with a prompt for a source. -/
def estimate (prompt source : String) (rate : R) : R :=
  Quantity.ofRatio ((prompt.length + source.length : Nat) : Int) 4000 * rate

/-- Why a call of an estimated cost is refused, if it is. -/
def refusal? (t : Transpiler R) (estimated : R) : Option (Refusal R) :=
  let b := t.config.budget
  if Quantity.below b.perConversion estimated then some (.tooDear estimated b.perConversion)
  else if Quantity.below b.perDay (t.spent + estimated) then some (.beyondDay estimated)
  else none

/-- What is wrong with an answer, if anything is. -/
def flaw? (answer : Option String) : Option (Failure R) :=
  let text := answer.getD ""
  if Text.allBlank text.toList then some .emptyAnswer
  else if Code.looksLikeC text then none
  else some .notCode

/-- The remarks of a review: a score below the least one first. -/
def reviewWarnings (c : Config R) (code : String) : Except Code.Uncountable (List String) := do
  if c.quality.review then
    let r : Code.Review R ← Code.review code
    let low :=
      if Quantity.below r.score c.quality.minScore then
        ["Validation score " ++ Quantity.fixed 2 r.score ++ " below minimum " ++
          Quantity.fixed 2 c.quality.minScore]
      else []
    return low ++ r.complaints
  else return []

/-- The result of a request whose answer is C. -/
def conversion (c : Config R) (source code provider : String) (duration cost : R) :
    Except Code.Uncountable (Conversion R) := do
  let placed := Code.placed code
  let ram ← Code.ramUsage code
  let warnings ← reviewWarnings c placed
  return {
    code := placed
    provider
    duration
    cost
    quality := Code.quality code
    fromCache := false
    notes := {
      sourceSize := source.length
      codeSize := code.length
      romSize := Code.romSize code
      ramUsage := ram
      warnings
      optimizations := Code.optimizations placed } }

end Transpiler

namespace Workbench

variable {R : Type} [Quantity R] [Inhabited R]

abbrev Task (R α : Type) := Run (Workbench R) (Stop R) α

def surround (f : Session R → Session R) : Task R Unit :=
  Run.update fun w => { w with session := f w.session }

def adjust (f : Transpiler R → Transpiler R) : Task R Unit :=
  Run.update fun w => { w with transpiler := f w.transpiler }

def say (write : Console → Console) : Task R Unit := surround (·.say write)

/-- A figure that has to be worked out. -/
def figure {α : Type} (r : Except Code.Uncountable α) : Task R α :=
  Run.ofExcept (r.mapError fun e => .broken (.ofUncountable e))

/-- A value, unless there is a fault. -/
def orBreak {α : Type} (r : Except Fault α) : Task R α := Run.ofExcept (r.mapError .broken)

/-- Begins a new day's account if the date has changed. -/
def resetIfNewDay : Task R Unit := fun w =>
  if w.session.today = w.transpiler.day then (.ok (), w)
  else
    let budget := w.transpiler.config.budget.perDay
    (.ok (),
      { session := w.session.say (·.info ("Daily budget reset: $" ++ Quantity.fixed 2 budget))
        transpiler := { w.transpiler with spent := Quantity.ofNat 0, day := w.session.today } })

/-- Looks for an earlier result of an equal request. -/
def lookUp (key : String) : Task R (Option (Conversion R)) := fun w =>
  let (found, cache) := w.transpiler.cache.get key w.session.clock
  (.ok found, { w with transpiler := { w.transpiler with cache } })

/-- Keeps a result for later requests. -/
def keep (key : String) (result : Conversion R) : Task R Unit := fun w =>
  let t := w.transpiler
  match t.cache.set key result w.session.clock with
  | some cache => (.ok (), { w with transpiler := { t with cache } })
  | none =>
    (.error (.broken .emptyCache), { w with transpiler := { t with cache := t.cache.clear } })

/-- Keeps a conversion as an example, if the configuration wants examples. -/
def learn (source code : String) (target : Target) (quality : R) (provider : String) :
    Task R Unit := do
  let w ← Run.get
  if w.transpiler.config.quality.learning then
    let performance ← figure (Example.performanceOf code quality)
    let new : Example R :=
      { source, code, target, quality, performance, time := w.session.clock, provider }
    adjust fun t => { t with examples := Example.remember t.examples new }

/-- The provider to ask; says so if it is a substitute. -/
def choose : Task R String := do
  let w ← Run.get
  let (name, substitute) ← orBreak w.transpiler.preferred
  if substitute then
    say (·.warn (Transpiler.substituteWarning w.transpiler.config.providers.primary name))
  return name

/-- What is needed for all attempts at a request. -/
structure Job (R : Type) where
  request : Request
  /-- The key of the cache, if the cache is used. -/
  key? : Option String
  prompt : String
  /-- The name that the provider goes by in the table of providers. -/
  name : String
  provider : Provider R
  /-- When the first attempt began. -/
  start : R

/-- Refuses an attempt whose estimated cost is not within the budgets. Any other one is announced
together with the number of attempts, which must not have too many digits. -/
def permit (job : Job R) : Task R Unit := fun w =>
  let estimated := Transpiler.estimate job.prompt job.request.source job.provider.rate
  match w.transpiler.refusal? estimated with
  | some why => (.error (.failed (.refused why)), w)
  | none =>
    if Text.Short job.request.attempts then (.ok (), w) else (.error (.broken .tooManyDigits), w)

/-- Pays for an answer and gives its cost. -/
def charge (job : Job R) (answer : Option String) : Task R R := fun w =>
  match job.provider.pricing.cost? job.prompt (answer.getD "") with
  | none => (.error (.broken .wrongKind), w)
  | some cost =>
    (.ok cost, { w with transpiler := { w.transpiler with spent := w.transpiler.spent + cost } })

/-- Sends the prompt of a job to its provider. -/
def ask (job : Job R) : Task R (Option String) :=
  Run.on (·.session) (fun session w => { w with session }) (job.provider.ask job.prompt)

/-- Keeps the result of a job, if the cache is used. -/
def store (job : Job R) (result : Conversion R) : Task R Unit :=
  match job.key? with
  | some key => keep key result
  | none => Run.done ()

/-- Judges an answer that was paid for; if it is C, keeps the result. -/
def settle (job : Job R) (answer : Option String) (duration cost : R) : Task R (Conversion R) := do
  match Transpiler.flaw? answer with
  | some why => Run.stop (.failed why)
  | none =>
    let config := (← Run.get).transpiler.config
    let result ← figure <| Transpiler.conversion config job.request.source (answer.getD "")
      job.name duration cost
    store job result
    learn job.request.source result.code job.request.target result.quality job.name
    say (·.success ("AI transpilation completed! Duration: " ++ Quantity.fixed 2 duration ++
      "s, Cost: $" ++ Quantity.fixed 4 cost))
    say (·.info ("Quality: " ++ Quantity.fixed 1 (result.quality * Quantity.ofNat 100) ++
      "%, ROM: ~" ++ toString result.notes.romSize ++ " bytes"))
    return result

def announce (job : Job R) (number : Nat) : Task R Unit :=
  say (·.info ("Attempt " ++ toString number ++ "/" ++ toString job.request.attempts ++
    " - sending to " ++ job.provider.label ++ "..."))

/-- One attempt at a request: asks, pays, and settles the matter. -/
def tryOnce (job : Job R) (number : Nat) : Task R (Conversion R) := do
  announce job number
  let answer ← ask job
  let duration := (← Run.get).session.clock - job.start
  let cost ← charge job answer
  settle job answer duration cost

/-- Seconds to wait between two attempts. -/
def pause : Nat := 2

/-- Says that an attempt failed, and waits if another one follows. -/
def afterFailure (number : Nat) (why : Failure R) (more : Bool) : Task R Unit := do
  say (·.warn ("Attempt " ++ toString number ++ " failed: " ++ why.message))
  if more then
    say (·.info ("Retrying in " ++ toString pause ++ " seconds..."))
    surround (·.sleep (Quantity.ofNat pause))

/-- Attempts at a request until one succeeds, `left` of them from number `number` on. -/
def attempts (job : Job R) : Nat → Nat → Failure R → Task R (Conversion R)
  | 0, _, last => do
    if Text.Short job.request.attempts then
      say (·.error ("AI transpilation failed after " ++ toString job.request.attempts ++
        " attempts"))
      Run.stop (.failed last)
    else Run.stop (.broken .tooManyDigits)
  | left + 1, number, _ => do
    permit job
    match ← Run.attempt (tryOnce job number) with
    | .ok result => return result
    | .error (.broken why) => Run.stop (.broken why)
    | .error (.failed why) =>
      afterFailure number why (left ≠ 0)
      attempts job left (number + 1) why

/-- A result as it is given a second time. -/
def again (result : Conversion R) : Conversion R := { result with fromCache := true }

/-- Gets everything ready for asking a provider for the code of a request. -/
def prepare (request : Request) (key? : Option String) : Task R (Job R) := do
  let w ← Run.get
  let examples := (Example.similar w.transpiler.examples request.source).map Example.sample
  let prompt ← orBreak (Prompt.write request.source request.target examples)
  say (·.info ("AI transpilation starting... (JS: " ++ toString request.source.length ++
    " chars)"))
  let name ← choose
  match w.transpiler.providers.get? name with
  | none => Run.stop (.failed .noProvider)
  | some provider => return { request, key?, prompt, name, provider, start := w.session.clock }

/-- What becomes of a request before any provider is asked. -/
inductive Admission (R : Type) where
  /-- The result is known already. -/
  | known (result : Conversion R)
  /-- A provider is to be asked; the result is kept under the key, if there is one. -/
  | new (key? : Option String)

/-- The gates that a request passes before any provider is asked. -/
def consider (request : Request) : Task R (Admission R) := do
  let problems := request.target.problems
  if problems.isEmpty then
    resetIfNewDay
    let t := (← Run.get).transpiler
    let budget := t.config.budget.perDay
    if Quantity.upTo budget t.spent then Run.stop (.failed (.refused (.spent t.spent budget)))
    else
      let key ← orBreak (Fingerprint.key request.source request.target)
      if request.useCache && t.config.caching.enabled then
        match ← lookUp key with
        | some result =>
          say (·.info ("Using cached AI transpilation (saved $" ++ Quantity.fixed 4 result.cost ++
            ")"))
          return .known (again result)
        | none => return .new (some key)
      else return .new none
  else Run.stop (.failed (.badTarget problems))

/-- Turns a piece of source into C. -/
def transpile (request : Request) : Task R (Conversion R) := do
  match ← consider request with
  | .known result => return result
  | .new key? =>
    let job ← prepare request key?
    attempts job request.attempts.toNat 1 .noAttempt

end Workbench

end Cartridge
