import Cartridge.Proofs.FileTree.Hollow
import Cartridge.Proofs.Run
import Cartridge.Transpiler

/-!
# Conversions without keys

What a transpiler does, and all that it says, is the same whatever the keys of its providers are, as
long as it has the same providers. It is the same whatever was said before, too.

* `Console.behind`, `Console.Writes`: a console with older messages before its own.
* `Config.veiled`, `Provider.veiled`, `Transpiler.veiled`: what is left if of each key is only told
  whether there is one.
* `Provider.ask_veiled`: a provider is asked in the same way whatever the key.
* `Transpiler.create_veiled`: the same providers are found.
* `Workbench.transpile_veils`: the same comes of a request.
-/

namespace Cartridge

open Run

variable {R α : Type}

/-! ## What was said before -/

namespace Console

/-- The console with older messages before its own. -/
def behind (old : List Message) (c : Console) : Console := { c with shown := c.shown ++ old }

/-- What is written does not depend on what was shown before. -/
def Writes (write : Console → Console) : Prop :=
  ∀ old c, write (c.behind old) = (write c).behind old

theorem Writes.andThen {write next : Console → Console} (h : Writes write) (h' : Writes next) :
    Writes fun c => next (write c) :=
  fun old c => (congrArg next (h old c)).trans (h' old (write c))

theorem writes_info (text : String) : Writes (·.info text) := fun _ _ => rfl

theorem writes_warn (text : String) : Writes (·.warn text) := fun _ _ => rfl

theorem writes_start (text : String) : Writes (·.start text) := fun _ _ => rfl

theorem writes_success (text : String) : Writes (·.success text) := fun _ _ => rfl

theorem writes_error (text : String) : Writes (·.error text) := fun _ _ => rfl

theorem writes_stop : Writes stop := by
  intro old c
  unfold stop
  rw [show (c.behind old).current = c.current from rfl]
  cases c.current with
  | none => rfl
  | some text =>
    dsimp only
    split <;> rfl

theorem writes_warnAll (texts : List String) : Writes (·.warnAll texts) := by
  intro old c
  induction texts generalizing c with
  | nil => rfl
  | cons text rest ih => exact ih (c.warn text)

end Console

/-- A session with older messages before its own. -/
def Session.behind (old : List Message) (s : Session R) : Session R :=
  { s with console := s.console.behind old }

theorem Session.say_behind {write : Console → Console} (h : Console.Writes write)
    (old : List Message) (s : Session R) :
    (s.behind old).say write = (s.say write).behind old :=
  congrArg (fun console => { s with console }) (h old s.console)

theorem Session.listen_behind [Quantity R] (old : List Message) (s : Session R) :
    (s.behind old).listen = (s.listen.1, s.listen.2.behind old) := by
  unfold listen
  rw [show (s.behind old).network = s.network from rfl]
  cases nextOf s.network <;> rfl

theorem Session.hear_behind [Quantity R] (old : List Message) (s : Session R) (name : String) :
    (s.behind old).hear name = ((s.hear name).1, (s.hear name).2.behind old) := by
  unfold hear
  rw [show (s.behind old).scripts = s.scripts from rfl]
  cases (s.scripts.get? name).bind nextOf <;> rfl

/-! ## Keys -/

namespace Config

/-- Of a value is only told whether it counts as none. -/
def blanked (v : Json) : Json := .bool v.isTruthy

/-- A configuration of whose keys is only told whether they count as none. -/
def veiled (c : Config R) : Config R :=
  { c with providers := { c.providers with apiKeys := c.providers.apiKeys.mapped blanked } }

end Config

namespace Provider

/-- A service with a key that only tells that there is one. -/
def Service.veiled : Service → Service
  | .claude _ model url => .claude (.bool true) model url
  | .openAI _ model url => .openAI (.bool true) model url
  | .openRouter _ model url => .openRouter (.bool true) model url
  | .ownMachine settings => .ownMachine settings
  | .bare => .bare

def veiled (p : Provider R) : Provider R :=
  { p with
    source := match p.source with
      | .service s => .service s.veiled
      | .script => .script }

variable [Quantity R]

theorem Service.kind_veiled (s : Service) : s.veiled.kind = s.kind := by
  cases s <;> rfl

/-- The key has no part in what is told of a question. -/
theorem Service.query?_veiled (s : Service) (prompt : String) :
    (s.veiled.query? prompt).map (fun q => (q.url, q.payload)) =
      (s.query? prompt).map fun q => (q.url, q.payload) := by
  cases s <;> rfl

/-- A provider is asked in the same way whatever its key. -/
theorem ask_veiled (p : Provider R) (prompt : String) (old : List Message) :
    Carried (Session.behind old) id (p.ask prompt) (p.veiled.ask prompt) := by
  obtain ⟨name, label, rate, pricing, source⟩ := p
  intro s
  cases source with
  | script =>
    have hheard := Session.hear_behind old (s.send ⟨name, none, prompt⟩) name
    unfold ask veiled
    dsimp only
    rw [show (s.behind old).send ⟨name, none, prompt⟩ =
      (s.send ⟨name, none, prompt⟩).behind old from rfl, hheard]
    cases ((s.send ⟨name, none, prompt⟩).hear name).1 <;> rfl
  | service service =>
    have hquery := service.query?_veiled prompt
    unfold ask veiled
    dsimp only
    rw [service.kind_veiled]
    cases hq : service.query? prompt with
    | none =>
      rw [hq] at hquery
      rw [Option.map_eq_none_iff.mp hquery]
      rfl
    | some query =>
      rw [hq] at hquery
      obtain ⟨query', hq', hsame⟩ := Option.map_eq_some_iff.mp hquery
      obtain ⟨hurl, hpayload⟩ := Prod.mk.inj hsame
      rw [hq']
      dsimp only
      rw [hurl, hpayload, show (s.behind old).send ⟨query.url, query.payload.get? "model", prompt⟩ =
        (s.send ⟨query.url, query.payload.get? "model", prompt⟩).behind old from rfl,
        Session.listen_behind]
      generalize (s.send ⟨query.url, query.payload.get? "model", prompt⟩).listen = heard
      obtain ⟨outcome, s'⟩ := heard
      dsimp only
      split
      · rfl
      · cases codeOf service.kind outcome <;> rfl

end Provider

namespace Config

theorem key?_veiled (c : Config R) (k : Provider.Kind) :
    c.veiled.key? k = (c.key? k).map fun _ => .bool true := by
  unfold key? veiled
  rw [Entries.get?_mapped]
  cases c.providers.apiKeys.get? k.name with
  | none => rfl
  | some key =>
    cases hkey : key.isTruthy with
    | false =>
      have hblank : (blanked key).isTruthy = false := hkey
      rw [Option.map_some, Option.filter_some_neg (by simp [hblank]),
        Option.filter_some_neg (by simp [hkey])]
      rfl
    | true =>
      have hblank : (blanked key).isTruthy = true := hkey
      rw [Option.map_some, Option.filter_some_pos hblank, Option.filter_some_pos hkey, blanked,
        hkey]
      rfl

/-- The service of a kind, if the configuration has a key for it. -/
def hosted (c : Config R) (k : Provider.Kind) (make : Json → Json → String → Provider.Service) :
    List Provider.Service :=
  match c.key? k with
  | some key => [make key (c.modelFor k) k.defaultUrl]
  | none => []

theorem hosted_veiled (c : Config R) (k : Provider.Kind)
    {make : Json → Json → String → Provider.Service}
    (hmake : ∀ key model url, (make key model url).veiled = make (.bool true) model url) :
    c.veiled.hosted k make = (c.hosted k make).map Provider.Service.veiled := by
  unfold hosted
  rw [key?_veiled]
  cases c.key? k with
  | none => rfl
  | some key => exact congrArg (fun s => [s]) (hmake key _ _).symm

variable [Quantity R]

omit [Quantity R] in
/-- The services that a configuration gives access to do not depend on what the keys are. -/
theorem services_veiled (c : Config R) :
    c.veiled.services = c.services.map Provider.Service.veiled := by
  have hservices (c : Config R) : c.services = c.hosted .claude .claude ++
      c.hosted .openAI .openAI ++ c.hosted .openRouter .openRouter ++
        if c.providers.ownMachine.enabled then [.ownMachine c.providers.ownMachine] else [] := rfl
  have hown : (if c.providers.ownMachine.enabled then
      [Provider.Service.ownMachine c.providers.ownMachine] else []) =
      (if c.providers.ownMachine.enabled then
        [Provider.Service.ownMachine c.providers.ownMachine] else []).map
        Provider.Service.veiled := by
    split <;> rfl
  rw [hservices, hservices, List.map_append, List.map_append, List.map_append, ← hown,
    hosted_veiled c .claude fun _ _ _ => rfl, hosted_veiled c .openAI fun _ _ _ => rfl,
    hosted_veiled c .openRouter fun _ _ _ => rfl]
  rfl

variable [Inhabited R]

theorem serviceProviders_veiled (c : Config R) :
    c.veiled.serviceProviders = c.serviceProviders.mapped Provider.veiled := by
  have hofService (s : Provider.Service) : ((s.veiled.kind.name, Provider.ofService s.veiled) :
      String × Provider R) = (s.kind.name, (Provider.ofService s).veiled) := by
    cases s <;> rfl
  unfold serviceProviders Entries.mapped Entries.mappedBy
  rw [services_veiled, List.map_map, List.map_map]
  exact List.map_congr_left fun s _ => hofService s

end Config

namespace Transpiler

variable [Quantity R] [Inhabited R]

/-- A transpiler of whose keys is only told whether there are any. -/
def veiled (t : Transpiler R) : Transpiler R :=
  { t with config := t.config.veiled, providers := t.providers.mapped Provider.veiled }

theorem create_veiled (c : Config R) (providers : Entries (Provider R)) (old : List Message) :
    Carried (Session.behind old) veiled (create c providers)
      (create c.veiled (providers.mapped Provider.veiled)) := by
  intro s
  have hempty : (providers.mapped Provider.veiled).isEmpty = providers.isEmpty := by
    cases providers <;> rfl
  have hlength : (providers.mapped Provider.veiled).length = providers.length := List.length_map _
  unfold create
  rw [hempty, hlength, Entries.names_mapped]
  split <;> rfl

omit [Quantity R] [Inhabited R] in
theorem firstAvailable_veiled (providers : Entries (Provider R)) (names : List Json) :
    firstAvailable (providers.mapped Provider.veiled) names = firstAvailable providers names := by
  induction names with
  | nil => rfl
  | cons name rest ih =>
    cases name with
    | str name =>
      rw [firstAvailable, firstAvailable, Entries.has_mapped, ih]
    | arr | obj => rfl
    | null | bool | int | float => exact ih

omit [Quantity R] [Inhabited R] in
theorem preferred_veiled (t : Transpiler R) : t.veiled.preferred = t.preferred := by
  unfold preferred veiled
  simp only [Entries.has_mapped, Entries.names_mapped, firstAvailable_veiled]
  rfl

end Transpiler

namespace Workbench

variable [Quantity R] [Inhabited R] {old : List Message}

/-- The workbench with older messages before its own, of whose keys is only told whether there are
any. -/
def veiled (old : List Message) (w : Workbench R) : Workbench R where
  session := w.session.behind old
  transpiler := w.transpiler.veiled

/-- A run takes no account of what keys there are, or of what was said before. -/
abbrev Veils (old : List Message) (x : Task R α) : Prop := Carried (veiled old) id x x

omit [Quantity R] [Inhabited R] in
theorem say_veils {write : Console → Console} (h : Console.Writes write) :
    Veils (R := R) old (say write) := by
  refine .update fun w => ?_
  show Workbench.mk ((w.session.behind old).say write) w.transpiler.veiled = _
  rw [Session.say_behind h]
  rfl

omit [Quantity R] [Inhabited R] in
theorem figure_veils (r : Except Code.Uncountable α) : Veils (R := R) old (figure r) :=
  .ofExcept _

/-! ## Before a provider is asked -/

theorem resetIfNewDay_veils : Veils (R := R) old resetIfNewDay := by
  intro w
  unfold resetIfNewDay
  show (if w.session.today = w.transpiler.day then _ else _) = _
  split <;> rfl

omit [Inhabited R] in
theorem lookUp_veils (key : String) : Veils (R := R) old (lookUp key) := fun _ => rfl

theorem consider_veils (request : Request) : Veils (R := R) old (consider request) := by
  unfold consider
  refine .ite ?_ (.stop _)
  refine .bind resetIfNewDay_veils fun _ => .bind .get fun w => ?_
  refine .ite (.stop _) (.bind (.ofExcept _) fun key => .ite ?_ (.done _))
  refine .bind (lookUp_veils _) fun found => ?_
  cases found with
  | none => exact .done _
  | some result => exact .bind (say_veils (Console.writes_info _)) fun _ => .done _

omit [Quantity R] [Inhabited R] in
theorem choose_veils : Veils (R := R) old choose := by
  unfold choose
  refine .bind .get fun w => ?_
  refine .bind (g := id) ?_ fun chosen => ?_
  · show Carried _ _ _ (Run.ofExcept (w.transpiler.veiled.preferred.mapError _))
    rw [Transpiler.preferred_veiled]
    exact .ofExcept _
  · obtain ⟨name, substitute⟩ := chosen
    refine .ite (.bind (say_veils (Console.writes_warn _)) fun _ => .done name) (.done name)

/-- What is needed for a request, with a provider of whose key is only told that there is one. -/
def Job.veiled (job : Job R) : Job R := { job with provider := job.provider.veiled }

theorem prepare_veils (request : Request) (key? : Option String) :
    Carried (veiled old) Job.veiled (prepare (R := R) request key?) (prepare request key?) := by
  unfold prepare
  refine .bind .get fun w => .bind (g := id) (.ofExcept _) fun prompt => ?_
  refine .bind (say_veils (Console.writes_info _)) fun _ => .bind choose_veils fun name => ?_
  rw [id, show (veiled old w).transpiler.providers = w.transpiler.providers.mapped Provider.veiled
    from rfl, Entries.get?_mapped]
  cases w.transpiler.providers.get? name with
  | none => exact .stop _
  | some provider => exact .done _

/-! ## Attempts -/

theorem permit_veils (job : Job R) : Carried (veiled old) id (permit job) (permit job.veiled) := by
  intro w
  unfold permit
  have hrefusal (estimated : R) :
      (veiled old w).transpiler.refusal? estimated = w.transpiler.refusal? estimated := rfl
  have hestimate : Transpiler.estimate job.veiled.prompt job.veiled.request.source
      job.veiled.provider.rate =
        Transpiler.estimate job.prompt job.request.source job.provider.rate := rfl
  dsimp only
  rw [hrefusal, hestimate, show job.veiled.request = job.request from rfl]
  cases w.transpiler.refusal? (Transpiler.estimate job.prompt job.request.source
    job.provider.rate) with
  | some why => rfl
  | none =>
    by_cases hshort : Text.Short job.request.attempts
    · simp only [if_pos hshort]
      rfl
    · simp only [if_neg hshort]
      rfl

theorem charge_veils (job : Job R) (answer : Option String) :
    Carried (veiled old) id (charge job answer) (charge job.veiled answer) := by
  intro w
  unfold charge
  rw [show job.veiled.provider.pricing.cost? job.veiled.prompt (answer.getD "") =
    job.provider.pricing.cost? job.prompt (answer.getD "") from rfl]
  cases job.provider.pricing.cost? job.prompt (answer.getD "") <;> rfl

omit [Inhabited R] in
theorem ask_veils (job : Job R) : Carried (veiled old) id (ask job) (ask job.veiled) := by
  intro w
  have hask := job.provider.ask_veiled job.prompt old w.session
  show ((job.provider.veiled.ask job.prompt (w.session.behind old)).1, Workbench.mk
    (job.provider.veiled.ask job.prompt (w.session.behind old)).2 w.transpiler.veiled) = _
  rw [hask]
  rfl

omit [Quantity R] [Inhabited R] in
theorem keep_veils (key : String) (result : Conversion R) : Veils old (keep key result) := by
  intro w
  unfold keep
  have hset : (veiled old w).transpiler.cache.set key result (veiled old w).session.clock =
      w.transpiler.cache.set key result w.session.clock := rfl
  dsimp only
  rw [hset]
  cases w.transpiler.cache.set key result w.session.clock <;> rfl

omit [Quantity R] [Inhabited R] in
theorem store_veils (job : Job R) (result : Conversion R) :
    Carried (veiled old) id (store job result) (store job.veiled result) := by
  unfold store
  rw [show job.veiled.key? = job.key? from rfl]
  cases job.key? with
  | none => exact .done ()
  | some key => exact keep_veils key result

theorem learn_veils (source code : String) (target : Target) (quality : R) (provider : String) :
    Veils old (learn source code target quality provider) := by
  unfold learn
  refine .bind .get fun w => .ite ?_ (.done ())
  exact .bind (figure_veils _) fun performance => .update fun _ => rfl

theorem settle_veils (job : Job R) (answer : Option String) (duration cost : R) :
    Carried (veiled old) id (settle job answer duration cost)
      (settle job.veiled answer duration cost) := by
  unfold settle
  cases Transpiler.flaw? (R := R) answer with
  | some why => exact .stop _
  | none =>
    refine .bind .get fun w => .bind (figure_veils _) fun result => ?_
    refine .bind (store_veils job result) fun _ => .bind (learn_veils _ _ _ _ _) fun _ => ?_
    refine .bind (say_veils (Console.writes_success _)) fun _ => ?_
    exact .bind (say_veils (Console.writes_info _)) fun _ => .done result

theorem tryOnce_veils (job : Job R) (number : Nat) :
    Carried (veiled old) id (tryOnce job number) (tryOnce job.veiled number) := by
  unfold tryOnce
  refine .bind (say_veils (Console.writes_info _)) fun _ => .bind (ask_veils job) fun answer => ?_
  refine .bind .get fun w => .bind (charge_veils job answer) fun cost => ?_
  exact settle_veils job answer _ cost

theorem afterFailure_veils (number : Nat) (why : Failure R) (more : Bool) :
    Veils old (afterFailure number why more) := by
  unfold afterFailure
  refine .bind (say_veils (Console.writes_warn _)) fun _ => .ite ?_ (.done ())
  exact .bind (say_veils (Console.writes_info _)) fun _ => .update fun _ => rfl

theorem attempts_veils (job : Job R) (left number : Nat) (last : Failure R) :
    Carried (veiled old) id (attempts job left number last)
      (attempts job.veiled left number last) := by
  induction left generalizing number last with
  | zero => exact .ite (.bind (say_veils (Console.writes_error _)) fun _ => .stop _) (.stop _)
  | succ left ih =>
    refine .bind (permit_veils job) fun _ => .bind (tryOnce_veils job number).attempt fun r => ?_
    match r with
    | .ok result => exact .done result
    | .error (.broken why) => exact .stop _
    | .error (.failed why) =>
      exact .bind (afterFailure_veils number why _) fun _ => ih (number + 1) why

/-- The same comes of a request whatever keys there are. -/
theorem transpile_veils (request : Request) : Veils (R := R) old (transpile request) := by
  unfold transpile
  refine .bind (consider_veils request) fun admission => ?_
  cases admission with
  | known result => exact .done result
  | new key? =>
    exact .bind (prepare_veils request key?) fun job =>
      attempts_veils job request.attempts.toNat 1 .noAttempt

end Workbench

end Cartridge
