import Cartridge.Proofs.Config.LastWord

/-!
# Who has the last word on a configuration

Arguments win over the environment, the environment wins over the configuration file, and the file
wins over what holds for every user. An argument or a variable that is empty decides nothing. The
user's own machine is switched on by several of them together.

* `last_word_of_file`: what a file makes of a part of a section.
* `parts_of_withEnvironment`: what the environment makes of a configuration.
* `parts_of_overridden`: what arguments make of a configuration.
* `Decided`: where all that is decided on comes from.
* `decided_of_configure`: so it is with every configuration that a run goes by.
-/

namespace Cartridge.Config

open Json Run CommandLine

/-! ## The file -/

/-- The entries that the configuration file of a run has for a section. -/
def givenIn (d : Disk) (a : Arguments) (section_ : String) : Entries Json :=
  sectionOf d (pathOr d a.config fileName) section_

theorem last_word_of_file {S T : Type} {s : Section S} {fields : List (Field S)} {label : String}
    (hs : s.merge = mergeEntries fields label) {gives : String → Json → Option T} {view : S → T}
    (h : Follows gives view fields) {d : Disk} {file : Path} {m m' : Merging (Config Float)}
    (hm : mergeFileIfThere d file m = (.ok (), m')) :
    view (s.view m'.value) =
      (last? gives (sectionOf d file s.name)).getD (view (s.view m.value)) := by
  obtain ⟨ws, ws', hmerged⟩ := s.mergeFileIfThere_section hm
  rw [hs] at hmerged
  exact h.mergeEntries hmerged

/-- The last key of a file for a kind of service, where there was no key before. -/
theorem last_key_of_file (key : String) {d : Disk} {file : Path} {m m' : Merging (Config Float)}
    (hnone : m.value.providers.apiKeys.get? key = none)
    (hm : mergeFileIfThere d file m = (.ok (), m')) :
    m'.value.providers.apiKeys.get? key =
      last? (under "api_keys" (inside (exactly key))) (sectionOf d file "providers") := by
  have hfile : m'.value.providers.apiKeys.get? key = _ :=
    last_word_of_file (s := providersSection) rfl (apiKey_follows key) hm
  have hbefore : providersSection.view m.value = m.value.providers := rfl
  have hname : providersSection.name = "providers" := rfl
  rw [hfile, under_map, last?_map, hbefore, hnone, hname]
  cases last? (under "api_keys" (inside (exactly key))) (sectionOf d file "providers") <;> rfl

/-! ## The environment -/

theorem name_injective : Function.Injective Provider.Kind.name := by
  intro k k' h
  cases k <;> cases k' <;> first | rfl | exact absurd h (by decide)

/-- The key that the environment gives for a kind of service. -/
def keyFrom? (env : Environment) (k : Provider.Kind) : Option Json :=
  (k.keyVariable?.bind (value? env)).map Json.str

/-- The keys with the one that the environment gives for a kind of service. -/
def setKey (env : Environment) (keys : Entries Json) (kind : Provider.Kind) : Entries Json :=
  match kind.keyVariable?.bind (value? env) with
  | some key => keys.put kind.name (.str key)
  | none => keys

theorem keysFrom_eq (env : Environment) (keys : Entries Json) :
    keysFrom env keys = [Provider.Kind.claude, .openAI, .openRouter].foldl (setKey env) keys := rfl

theorem get?_setKey_self (env : Environment) (keys : Entries Json) (k : Provider.Kind) :
    (setKey env keys k).get? k.name = (keyFrom? env k).or (keys.get? k.name) := by
  unfold setKey keyFrom?
  cases k.keyVariable?.bind (value? env) with
  | none => rfl
  | some key => exact Entries.get?_put_self _ _ _

theorem get?_setKey_of_ne (env : Environment) (keys : Entries Json) {kind k : Provider.Kind}
    (h : k ≠ kind) : (setKey env keys kind).get? k.name = keys.get? k.name := by
  unfold setKey
  cases kind.keyVariable?.bind (value? env) with
  | none => rfl
  | some key => exact Entries.get?_put_of_ne _ _ (name_injective.ne h)

theorem get?_foldl_setKey (env : Environment) {kinds : List Provider.Kind} (hnodup : kinds.Nodup)
    (keys : Entries Json) (k : Provider.Kind) : (kinds.foldl (setKey env) keys).get? k.name =
      if k ∈ kinds then (keyFrom? env k).or (keys.get? k.name) else keys.get? k.name := by
  induction kinds generalizing keys with
  | nil => rfl
  | cons kind rest ih =>
    obtain ⟨hnew, hrest⟩ := List.nodup_cons.mp hnodup
    rw [List.foldl_cons, ih hrest]
    by_cases hk : k = kind
    · subst hk
      rw [if_neg hnew, if_pos List.mem_cons_self, get?_setKey_self]
    · rw [get?_setKey_of_ne env keys hk]
      simp only [List.mem_cons, hk, false_or]

/-- A key of the environment takes the place of any other. -/
theorem get?_keysFrom (env : Environment) (keys : Entries Json) {k : Provider.Kind} {v : String}
    (h : k.keyVariable? = some v) :
    (keysFrom env keys).get? k.name = ((value? env v).map Json.str).or (keys.get? k.name) := by
  have hmem : k ∈ [Provider.Kind.claude, .openAI, .openRouter] := by
    cases k with
    | claude | openAI | openRouter => decide
    | ownMachine | bare => cases h
  rw [keysFrom_eq, get?_foldl_setKey env (by decide), if_pos hmem, keyFrom?, h, Option.bind_some]

theorem from_enabled (env : Environment) (c : Caching Float) : (c.from env).enabled =
    ((value? env Variable.disableCache).map fun text => !yesWords.contains (word text)).getD
      c.enabled := by
  unfold Caching.from
  cases value? env Variable.disableCache with
  | none => rfl
  | some text => rw [Option.map_some, Option.getD_some]

/-- What the environment makes of a configuration. -/
structure FromEnvironment (env : Environment) (c c' : Config Float) : Prop where
  primary : c'.providers.primary = (value? env Variable.provider).getD c.providers.primary
  apiKeys : c'.providers.apiKeys = keysFrom env c.providers.apiKeys
  endpoint : c'.providers.ownMachine.endpoint =
    (value? env Variable.endpoint).getD c.providers.ownMachine.endpoint
  enabled : c'.providers.ownMachine.enabled = true ↔ c'.providers.primary = "local" ∨
    c.budget.preferLocal = true ∨ (value? env Variable.endpoint).isSome = true ∨
      c.providers.ownMachine.enabled = true
  caching : c'.caching = c.caching.from env
  preferLocal : c'.budget.preferLocal = c.budget.preferLocal
  tools : c'.tools = c.tools.from env

theorem withOwnMachine_endpoint (c : Config Float) :
    (withOwnMachine c).providers.ownMachine.endpoint = c.providers.ownMachine.endpoint := by
  unfold withOwnMachine
  split <;> rfl

theorem withOwnMachine_enabled (c : Config Float) :
    (withOwnMachine c).providers.ownMachine.enabled = true ↔ c.providers.primary = "local" ∨
      c.budget.preferLocal = true ∨ c.providers.ownMachine.enabled = true := by
  unfold withOwnMachine
  by_cases hlocal : c.providers.primary = "local"
  · simp [hlocal]
  · cases hprefer : c.budget.preferLocal with
    | true => simp
    | false => simp [hlocal]

theorem withOwnMachine_rest (c : Config Float) :
    (withOwnMachine c).providers.primary = c.providers.primary ∧
      (withOwnMachine c).providers.apiKeys = c.providers.apiKeys ∧
      (withOwnMachine c).caching = c.caching ∧ (withOwnMachine c).budget = c.budget ∧
      (withOwnMachine c).tools = c.tools := by
  unfold withOwnMachine
  split <;> exact ⟨rfl, rfl, rfl, rfl, rfl⟩

theorem ownMachineFrom_endpoint (env : Environment) (s : Provider.LocalService) :
    (ownMachineFrom env s).endpoint = (value? env Variable.endpoint).getD s.endpoint := by
  unfold ownMachineFrom
  cases value? env Variable.endpoint <;> rfl

theorem ownMachineFrom_enabled (env : Environment) (s : Provider.LocalService) :
    (ownMachineFrom env s).enabled = true ↔
      (value? env Variable.endpoint).isSome = true ∨ s.enabled = true := by
  unfold ownMachineFrom
  cases value? env Variable.endpoint <;> simp

theorem parts_of_withEnvironment {env : Environment} {c c' : Config Float}
    (h : withEnvironment env c = .ok c') : FromEnvironment env c c' := by
  unfold withEnvironment at h
  dsimp only at h
  split at h
  · cases h
    obtain ⟨hprimary, hkeys, hcaching, hbudget, htools⟩ := withOwnMachine_rest
      { c with
        providers := c.providers.from env
        caching := c.caching.from env
        budget :=
          { c.budget with
            perDay := valueOr c.budget.perDay (number? env Variable.dailyBudget)
            perConversion := valueOr c.budget.perConversion (number? env Variable.maxCost) }
        tools := c.tools.from env }
    refine ⟨hprimary, hkeys, ?_, ?_, hcaching, by rw [hbudget], htools⟩
    · rw [withOwnMachine_endpoint]
      exact ownMachineFrom_endpoint env _
    · rw [withOwnMachine_enabled, hprimary]
      exact or_congr_right (or_congr_right (ownMachineFrom_enabled env _))
  · cases h

/-! ## The arguments -/

/-- What arguments make of a configuration. -/
structure FromArguments (a : Arguments) (c c' : Config Float) : Prop where
  primary : c'.providers.primary = (a.provider.filter (· ≠ "")).getD c.providers.primary
  apiKeys : c'.providers.apiKeys = c.providers.apiKeys
  endpoint : c'.providers.ownMachine.endpoint = c.providers.ownMachine.endpoint
  enabled : c'.providers.ownMachine.enabled = true ↔
    a.provider = some "local" ∨ c.providers.ownMachine.enabled = true
  caching : c'.caching.enabled = (!a.noCache && c.caching.enabled)
  budget : c'.budget = c.budget
  libraryPath : c'.tools.libraryPath = c.tools.libraryPath
  translator : c'.tools.translator = a.transpiler.getD c.tools.translator

/-- The argument for the primary provider, if it is given and not empty, has the last word on it. -/
theorem overridden_primary (a : Arguments) (c : Config Float) :
    (a.overridden c).providers.primary = (a.provider.filter (· ≠ "")).getD c.providers.primary := by
  unfold Arguments.overridden
  dsimp only
  cases a.provider.filter (· ≠ "") <;> cases a.transpiler <;> cases a.noCache <;> rfl

theorem filter_eq_some_local (value : Option String) :
    value.filter (· ≠ "") = some "local" ↔ value = some "local" := by
  rw [Option.filter_eq_some_iff]
  exact ⟨And.left, fun h => ⟨h, by decide⟩⟩

theorem overridden_enabled (a : Arguments) (c : Config Float) :
    (a.overridden c).providers.ownMachine.enabled = true ↔
      a.provider = some "local" ∨ c.providers.ownMachine.enabled = true := by
  rw [← filter_eq_some_local]
  unfold Arguments.overridden
  dsimp only
  cases a.provider.filter (· ≠ "") with
  | none => cases a.transpiler <;> cases a.noCache <;> simp
  | some primary =>
    by_cases hlocal : primary = "local"
    · cases a.transpiler <;> cases a.noCache <;> simp [hlocal]
    · cases a.transpiler <;> cases a.noCache <;> simp [hlocal]

theorem overridden_endpoint (a : Arguments) (c : Config Float) :
    (a.overridden c).providers.ownMachine.endpoint = c.providers.ownMachine.endpoint := by
  unfold Arguments.overridden
  dsimp only
  cases a.provider.filter (· ≠ "") with
  | none => cases a.transpiler <;> cases a.noCache <;> rfl
  | some primary =>
    by_cases hlocal : primary = "local"
    · cases a.transpiler <;> cases a.noCache <;> simp [hlocal]
    · cases a.transpiler <;> cases a.noCache <;> simp [hlocal]

theorem parts_of_overridden (a : Arguments) (c : Config Float) :
    FromArguments a c (a.overridden c) := by
  refine ⟨overridden_primary a c, ?_, overridden_endpoint a c, overridden_enabled a c, ?_,
    (overridden_limits a c).1, ?_, ?_⟩
  all_goals
    unfold Arguments.overridden
    dsimp only
    cases a.provider.filter (· ≠ "") <;> cases a.transpiler <;> cases a.noCache <;> rfl

/-! ## The configuration of a run -/

/-- The workshop after something was said. -/
def heard (w : Workshop Float) (console : Console) : Workshop Float :=
  { w with studio := { w.studio with session := { w.studio.session with console } } }

/-- A configuration is loaded, and then the arguments have the last word on it. -/
theorem configure_apply [EnvFile.Reader] (env : Environment) (a : Arguments) (w : Workshop Float) :
    configure env a w =
      match load w.disk env a.config none w.studio.session.console with
      | (.error (.failed (.configuration wrong)), console) => (.ok (.error wrong), heard w console)
      | (.error e, console) => (.error e, heard w console)
      | (.ok c, console) =>
        (.ok (if (a.overridden c).problems.isEmpty then .ok (a.overridden c)
          else .error ((a.overridden c).problems.map (·.message))), heard w console) := by
  unfold configure
  rw [bind_ok (show (Run.get : Workshop.Task Float _) w = (.ok w, w) from rfl), bind_apply]
  simp only [Run.attempt, Workshop.inStudio, Run.on]
  cases load w.disk env a.config none w.studio.session.console with
  | mk r console =>
    cases r with
    | ok c => rfl
    | error e =>
      cases e with
      | broken fault => rfl
      | failed why => cases why <;> rfl

/-- A run goes by a configuration that was loaded, that the arguments had the last word on, and that
has no problems. -/
theorem configure_ok [EnvFile.Reader] {env : Environment} {a : Arguments} {w w' : Workshop Float}
    {c : Config Float}
    (h : configure env a w = (.ok (.ok c), w')) : ∃ loaded console,
      load w.disk env a.config none w.studio.session.console = (.ok loaded, console) ∧
        w' = heard w console ∧ c = a.overridden loaded ∧ c.problems = [] := by
  rw [configure_apply] at h
  split at h
  · cases h
  · cases h
  · rename_i loaded console hload
    by_cases hproblems : (a.overridden loaded).problems.isEmpty
    · rw [if_pos hproblems] at h
      cases h
      exact ⟨loaded, console, hload, rfl, rfl, List.isEmpty_iff.mp hproblems⟩
    · rw [if_neg hproblems] at h
      cases h

/-- The primary provider of a run whose arguments do not decide on it. -/
def inheritedPrimary (d : Disk) (env : Environment) (a : Arguments) : String :=
  (value? env Variable.provider).getD
    ((last? (under "primary" text?) (givenIn d a "providers")).getD (initial d).providers.primary)

/-- Where all that is decided on in a run comes from. -/
structure Decided (d : Disk) (env : Environment) (a : Arguments) (c : Config Float) : Prop where
  primary : c.providers.primary = (a.provider.filter (· ≠ "")).getD (inheritedPrimary d env a)
  translator : c.tools.translator = a.transpiler.getD
    (((value? env Variable.transpiler).map word).getD
      ((last? (under "transpiler" text?) (givenIn d a "toolchain")).getD
        (initial d).tools.translator))
  perDay : c.budget.perDay = (numberOf? env Variable.dailyBudget).getD
    ((last? (under "daily_budget" real?) (givenIn d a "budget")).getD (initial d).budget.perDay)
  perConversion : c.budget.perConversion = (numberOf? env Variable.maxCost).getD
    ((last? (under "max_cost_per_transpilation" real?) (givenIn d a "budget")).getD
      (initial d).budget.perConversion)
  libraryPath : c.tools.libraryPath = (value? env Variable.libraryPath).getD
    ((last? (under "gbdk_path" text?) (givenIn d a "toolchain")).getD
      (initial d).tools.libraryPath)
  endpoint : c.providers.ownMachine.endpoint = (value? env Variable.endpoint).getD
    ((last? (under "local" (inside (under "endpoint" text?))) (givenIn d a "providers")).getD
      (initial d).providers.ownMachine.endpoint)
  apiKey : ∀ (k : Provider.Kind) (v : String), k.keyVariable? = some v →
    c.providers.apiKeys.get? k.name = ((value? env v).map Json.str).or
      (last? (under "api_keys" (inside (exactly k.name))) (givenIn d a "providers"))
  caching : c.caching.enabled = (!a.noCache &&
    ((value? env Variable.disableCache).map fun text => !yesWords.contains (word text)).getD
      ((last? (under "enabled" flag?) (givenIn d a "caching")).getD (initial d).caching.enabled))
  preferLocal : c.budget.preferLocal =
    (last? (under "prefer_local" flag?) (givenIn d a "budget")).getD
      (initial d).budget.preferLocal
  enabled : c.providers.ownMachine.enabled = true ↔
    c.providers.primary = "local" ∨ inheritedPrimary d env a = "local" ∨
      c.budget.preferLocal = true ∨ (value? env Variable.endpoint).isSome = true ∨
      last? (under "local" (inside (under "enabled" flag?))) (givenIn d a "providers") = some true

theorem getD_false_iff (value : Option Bool) : value.getD false = true ↔ value = some true := by
  cases value <;> simp

/-- An argument that names the user's own machine, or leaves the choice to what names it. -/
theorem local_or_inherited (value : Option String) (inherited : String) :
    value = some "local" ∨ inherited = "local" ↔
      (value.filter (· ≠ "")).getD inherited = "local" ∨ inherited = "local" := by
  rw [← filter_eq_some_local]
  cases value.filter (· ≠ "") <;> simp

theorem decided_of_configure [EnvFile.Reader] {env env' : Environment} {a : Arguments}
    {w w' : Workshop Float}
    {c : Config Float} (henv : environment w.disk env none = .ok env')
    (h : configure env a w = (.ok (.ok c), w')) : Decided w.disk env' a c := by
  obtain ⟨before, console, hload, -, rfl, -⟩ := configure_ok h
  obtain ⟨env'', merged, henv'', hmerged, hloaded⟩ := loaded hload
  obtain rfl : env' = env'' := Except.ok.inj (henv.symm.trans henv'')
  have hargued := parts_of_overridden a before
  have hset := parts_of_withEnvironment hloaded
  obtain ⟨hperConversion, hperDay, -⟩ := numbers_of_withEnvironment hloaded
  have hprimary : before.providers.primary = inheritedPrimary w.disk env' a := by
    rw [hset.primary]
    exact congrArg _ (last_word_of_file (s := providersSection) rfl primary_follows hmerged)
  have hprefer : merged.value.budget.preferLocal = _ :=
    last_word_of_file (s := budgetSection) rfl preferLocal_follows hmerged
  refine
    { primary := ?_, translator := ?_, perDay := ?_, perConversion := ?_, libraryPath := ?_,
      endpoint := ?_, apiKey := ?_, caching := ?_, preferLocal := ?_, enabled := ?_ }
  · rw [hargued.primary, hprimary]
  · have hfile : merged.value.tools.translator = _ :=
      last_word_of_file (s := toolsSection) rfl translator_follows hmerged
    rw [hargued.translator, hset.tools]
    show a.transpiler.getD
      (((value? env' Variable.transpiler).map word).getD merged.value.tools.translator) = _
    rw [hfile]
    rfl
  · rw [hargued.budget, hperDay]
    exact congrArg _ (last_word_of_file (s := budgetSection) rfl perDay_realAt hmerged)
  · rw [hargued.budget, hperConversion]
    exact congrArg _ (last_word_of_file (s := budgetSection) rfl perConversion_realAt hmerged)
  · have hfile : merged.value.tools.libraryPath = _ :=
      last_word_of_file (s := toolsSection) rfl libraryPath_follows hmerged
    rw [hargued.libraryPath, hset.tools]
    show (value? env' Variable.libraryPath).getD merged.value.tools.libraryPath = _
    rw [hfile]
    rfl
  · rw [hargued.endpoint, hset.endpoint]
    exact congrArg _ (last_word_of_file (s := providersSection) rfl
      (ownMachine_follows endpoint_follows) hmerged)
  · intro k v hv
    rw [hargued.apiKeys, hset.apiKeys, get?_keysFrom env' _ hv]
    exact congrArg _ (last_key_of_file k.name rfl hmerged)
  · rw [hargued.caching, hset.caching]
    congr 1
    rw [from_enabled]
    exact congrArg _ (last_word_of_file (s := cachingSection) rfl caching_follows hmerged)
  · rw [hargued.budget, hset.preferLocal]
    exact hprefer
  · have hfile : merged.value.providers.ownMachine.enabled = _ :=
      last_word_of_file (s := providersSection) rfl (ownMachine_follows enabled_follows) hmerged
    have hdefault : (providersSection.view { initial w.disk with
        path := some (pathOr w.disk a.config fileName).toString }).ownMachine.enabled = false := rfl
    rw [hargued.enabled, hset.enabled, hargued.budget, hset.preferLocal, hprimary, hfile, hdefault,
      getD_false_iff, hargued.primary, hprimary, ← or_assoc, local_or_inherited, or_assoc]
    rfl

/-! ## A file, two variables and two arguments -/

/-- What is loaded where a document was written into the configuration file, and is merged without
a warning. -/
theorem load_of_written [EnvFile.Reader] {d d₀ : Disk} {env env' : Environment}
    {configPath envPath : Option String}
    {file : Path} (hfile : pathOr d configPath fileName = file) {j : Json}
    (hj : Readable depthLimit j) (hread : d₀.Unlocked file)
    (hwritten : Disk.writeText file j.document d₀ = (.ok (), d))
    (henv : environment d env envPath = .ok env') {merged c : Config Float}
    (hmerged : mergeDocument file.toString j
      ⟨{ initial d with path := some file.toString }, []⟩ = (.ok (), ⟨merged, []⟩))
    (hset : withEnvironment env' merged = .ok c) (console : Console) :
    load d env configPath envPath console = (.ok c, console) := by
  rw [load, henv]
  dsimp only
  rw [hfile, mergeFileIfThere_of_written hj hread hwritten, hmerged]
  dsimp only
  rw [hset]
  rfl

/-- A run goes by what was loaded if the arguments leave it without problems. -/
theorem configure_of_load [EnvFile.Reader] {env : Environment} {a : Arguments} {w : Workshop Float}
    {c : Config Float} {console : Console}
    (hload : load w.disk env a.config none w.studio.session.console = (.ok c, console))
    (hproblems : (a.overridden c).problems = []) :
    configure env a w = (.ok (.ok (a.overridden c)), heard w console) := by
  rw [configure_apply, hload]
  dsimp only
  rw [hproblems, if_pos List.isEmpty_nil]

/-- Problems are told of money, quality, sizes and the translator, and of nothing else. -/
theorem problems_congr {c c' : Config Float} (hbudget : c.budget = c'.budget)
    (hquality : c.quality = c'.quality) (hcaching : c.caching.maxSize = c'.caching.maxSize)
    (hproject : c.project = c'.project) (htranslator : c.tools.translator = c'.tools.translator) :
    c.problems = c'.problems := by
  rw [problems, problems, hbudget, hquality, hcaching, hproject, htranslator]

/-- The configuration of a user who decides on nothing has no problems. -/
theorem problems_initial (d : Disk) : (initial d).problems = [] := by
  have hstandard : (Config.standard "" : Config Float).problems = [] := rfl
  rw [← hstandard]
  exact problems_congr rfl rfl rfl rfl rfl

/-- A configuration file with a primary provider and a key, and with the cache switched off. -/
def contested : Json :=
  .obj
    [("providers", .obj
      [("primary", .str "openrouter"), ("apiKeys", .obj [("openai", .str "filed")])]),
     ("caching", .obj [("enabled", .bool false)])]

/-- A disk with nothing but this file. -/
def contestedDisk : Disk :=
  ⟨.folder [(fileName, .file contested.document.toUTF8 FileTree.fileMode)] FileTree.folderMode, []⟩

/-- An environment that wants another provider, the cache, and a key of its own. -/
def contestedVariables : Environment :=
  [("GBTS_AI_PROVIDER", "openai"), ("GBTS_DISABLE_CACHE", "no"), ("CLAUDE_API_KEY", "set")]

/-- What the file makes of the configuration. -/
def contestedFile : Config Float :=
  { initial contestedDisk with
    providers := { primary := "openrouter", apiKeys := [("openai", .str "filed")] }
    caching := { enabled := false }
    path := some (contestedDisk.current.child fileName).toString }

/-- What the environment makes of it. -/
def contestedConfig : Config Float :=
  { contestedFile with
    providers :=
      { primary := "openai", apiKeys := [("openai", .str "filed"), ("claude", .str "set")] }
    caching := {} }

theorem readable_contested : Readable depthLimit contested := by
  show Readable (entryRoom + 3) contested
  refine .obj (by simp [Entries.names]) ?_
  simp only [List.forall_mem_cons, List.not_mem_nil, false_imp_iff, implies_true, and_true]
  refine ⟨.obj (by simp [Entries.names]) ?_, .obj (by simp [Entries.names]) ?_⟩
  · simp only [List.forall_mem_cons, List.not_mem_nil, false_imp_iff, implies_true, and_true]
    refine ⟨.str _ _, .obj (by simp [Entries.names]) ?_⟩
    simp only [List.forall_mem_cons, List.not_mem_nil, false_imp_iff, implies_true, and_true]
    exact .str _ _
  · simp only [List.forall_mem_cons, List.not_mem_nil, false_imp_iff, implies_true, and_true]
    exact .bool _ _

theorem load_contested {env : Environment} {c : Config Float}
    (henv : environment contestedDisk env none = .ok env)
    (hset : withEnvironment env contestedFile = .ok c) (console : Console) :
    load contestedDisk env none none console = (.ok c, console) := by
  have hfile : pathOr contestedDisk none fileName = contestedDisk.current.child fileName := rfl
  have hwritten : Disk.writeText (contestedDisk.current.child fileName) contested.document
      ⟨.folder [] FileTree.folderMode, []⟩ = (.ok (), contestedDisk) := rfl
  have hmerged : mergeDocument (contestedDisk.current.child fileName).toString contested
      ⟨{ initial contestedDisk with
        path := some (contestedDisk.current.child fileName).toString }, []⟩ =
      (.ok (), ⟨contestedFile, []⟩) := rfl
  exact load_of_written hfile readable_contested (Disk.unlocked_newFolder [] _) hwritten henv
    hmerged hset console

/-- Where this disk is, with nothing else. -/
def contestedWorkshop : Workshop Float where
  studio := { config := initial contestedDisk, session := { clock := 0, today := "" } }
  disk := contestedDisk
  tools := fun _ => .cannotStart ""

/-- Arguments that want the user's own machine and no cache. -/
def contestedArguments : Arguments := { provider := some "local", noCache := true }

/-- The argument decides on the provider, and switches the user's own machine on; the other one
decides on the cache against the variable. The key is that of the environment. -/
theorem decided_of_contested : ∃ c w',
    configure contestedVariables contestedArguments contestedWorkshop = (.ok (.ok c), w') ∧
      c.providers.primary = "local" ∧ c.caching.enabled = false ∧
      c.providers.ownMachine.enabled = true ∧
      c.providers.apiKeys.get? "claude" = some (.str "set") := by
  have hproblems : (contestedArguments.overridden contestedConfig).problems = [] :=
    (problems_congr rfl rfl rfl rfl rfl).trans (problems_initial contestedDisk)
  have henv : environment contestedDisk contestedVariables none = .ok contestedVariables := rfl
  have hset : withEnvironment contestedVariables contestedFile = .ok contestedConfig := rfl
  have hconfigure := configure_of_load (a := contestedArguments) (w := contestedWorkshop)
    (load_contested henv hset {}) hproblems
  have hdecided := decided_of_configure henv hconfigure
  have hkey : value? contestedVariables "CLAUDE_API_KEY" = some "set" := rfl
  have hcache : contestedArguments.noCache = true := rfl
  refine ⟨_, _, hconfigure, hdecided.primary, ?_, ?_, ?_⟩
  · rw [hdecided.caching, hcache, Bool.not_true, Bool.false_and]
  · exact hdecided.enabled.mpr (.inl hdecided.primary)
  · exact (hdecided.apiKey .claude "CLAUDE_API_KEY" rfl).trans (by rw [hkey]; rfl)

/-- An environment with empty variables. -/
def emptyVariables : Environment :=
  [("GBTS_DISABLE_CACHE", ""), ("GBTS_LOCAL_LLM_ENDPOINT", "")]

/-- An argument and variables that are given but empty do not decide: the file does. -/
theorem decided_by_file_of_empty :
    understand ["--provider", ""] = .ok (.work { provider := some "" }) ∧
      ∃ c w', configure emptyVariables { provider := some "" } contestedWorkshop =
        (.ok (.ok c), w') ∧ c.providers.primary = "openrouter" ∧ c.caching.enabled = false ∧
          c.providers.ownMachine.enabled = false := by
  have hunderstood : understand ["--provider", ""] = .ok (.work { provider := some "" }) := rfl
  have hproblems : (({ provider := some "" } : Arguments).overridden contestedFile).problems = [] :=
    (problems_congr rfl rfl rfl rfl rfl).trans (problems_initial contestedDisk)
  have henv : environment contestedDisk emptyVariables none = .ok emptyVariables := rfl
  have hset : withEnvironment emptyVariables contestedFile = .ok contestedFile := rfl
  exact ⟨hunderstood, _, _, configure_of_load (a := { provider := some "" })
    (w := contestedWorkshop) (load_contested henv hset {}) hproblems, rfl, rfl, rfl⟩

end Cartridge.Config
