import Cartridge.Proofs.Config.Storable
import Cartridge.Proofs.FileTree.Written
import Cartridge.Proofs.Json.Ascii

/-!
# Configurations that are loaded again

A configuration that was loaded and then saved is loaded from its file as it was, but for the keys
of providers, which are not written, and for a time for which results are kept that is not a whole
number of seconds. Such a time is written as it is; but at first the time is whole, and then only a
whole number is taken for it.

* `withEnvironment_of_unset`: an environment without variables that decide changes nothing.
* `mergeDocument_toJson`: what the document of a configuration makes of the initial one.
* `load_saved`: what is loaded from a file that was saved.
-/

namespace Cartridge.Config

open Json Run

/-! ## The environment -/

theorem number?_of_unset {env : Environment} {name : String} (h : value? env name = none) :
    number? env name = .ok none := by
  rw [number?, h]

/-- An environment that sets no variable that decides leaves a configuration to itself. -/
theorem withEnvironment_of_unset {env : Environment}
    (h : ∀ name ∈ Variable.names, value? env name = none) (c : Config Float) :
    withEnvironment env c = .ok (withOwnMachine c) := by
  simp only [Variable.names, Provider.Kind.keyVariable?, List.filterMap_cons, List.filterMap_nil,
    List.cons_append, List.nil_append, List.forall_mem_cons, List.not_mem_nil, false_imp_iff,
    implies_true, and_true] at h
  obtain ⟨hclaude, hopenAI, hopenRouter, hprovider, hday, hcost, hcache, hendpoint, hlibrary,
    htranspiler⟩ := h
  have hkeys : keysFrom env c.providers.apiKeys = c.providers.apiKeys := by
    simp only [keysFrom, Provider.Kind.keyVariable?, List.foldl_cons, List.foldl_nil,
      Option.bind_some, hclaude, hopenAI, hopenRouter]
  have hproviders : c.providers.from env = c.providers := by
    rw [Providers.from, hprovider, hkeys, ownMachineFrom, hendpoint]
    rfl
  have hcaching : c.caching.from env = c.caching := by
    rw [Caching.from, hcache]
  have htools : c.tools.from env = c.tools := by
    rw [Tools.from, hlibrary, htranspiler]
    rfl
  rw [withEnvironment, number?_of_unset hday, number?_of_unset hcost, hproviders, hcaching, htools]
  rfl

/-- The user's own machine is on where it is asked for. -/
def OwnMachineOn (c : Config Float) : Prop :=
  c.providers.primary = "local" ∨ c.budget.preferLocal → c.providers.ownMachine.enabled

theorem withOwnMachine_on (c : Config Float) : OwnMachineOn (withOwnMachine c) := by
  unfold withOwnMachine
  split
  · exact fun _ => rfl
  · rename_i hasks
    exact fun h => absurd (by simpa using h) hasks

theorem withOwnMachine_of_on {c : Config Float} (h : OwnMachineOn c) : withOwnMachine c = c := by
  unfold withOwnMachine
  split
  · rename_i hasks
    have hon := h (by simpa using hasks)
    dsimp only
    rw [← hon]
  · rfl

/-- The environment has the last word, and with it the user's own machine is on where it is asked
for. -/
theorem on_of_withEnvironment {env : Environment} {c c' : Config Float}
    (h : withEnvironment env c = .ok c') : OwnMachineOn c' := by
  unfold withEnvironment at h
  dsimp only at h
  split at h
  · cases h
    exact withOwnMachine_on _
  · cases h

/-! ## Sections that were written -/

/-- The time for which results are kept that is loaded where this one was saved. -/
def lifetimeAgain : Number Float → Number Float
  | .whole n => .whole n
  | .real _ => .whole 86400

/-- What is reported where such a time is loaded that was saved. -/
def lifetimeWarnings : Number Float → List Warning
  | .whole _ => []
  | .real _ => [.wrongKind "caching.ttl_seconds" "int" "float" "86400"]

variable {T : Type} {ws ws' : List Warning}

theorem mergeSections_cons {name : String} {view : Config Float → T}
    {put : Config Float → T → Config Float} {x : Entries Json → Merge T Unit}
    {entries : Entries Json} {c : Config Float} {t : T}
    (hname : sections.lookup name = some fun es => Merge.within view put (x es))
    (hx : x entries ⟨view c, ws⟩ = (.ok (), ⟨t, ws'⟩)) (rest : Entries Json) :
    mergeSections ((name, .obj entries) :: rest) ⟨c, ws⟩ = mergeSections rest ⟨put c t, ws'⟩ := by
  have hwithin : Merge.within view put (x entries) ⟨c, ws⟩ = (.ok (), ⟨put c t, ws'⟩) := by
    rw [Merge.within, Run.on, hx]
  conv_lhs => unfold mergeSections
  dsimp only
  rw [hname]
  exact Run.bind_ok hwithin

theorem merge_providers {p : Providers} (hp : ProvidersStorable p) :
    mergeEntries providerFields "providers"
      [("primary", .str p.primary), ("fallback", .arr p.fallback), ("models", .obj p.models),
       ("local", .obj
        [("endpoint", .str p.ownMachine.endpoint), ("model", .str p.ownMachine.model),
         ("temperature", numberJson p.ownMachine.temperature),
         ("max_tokens", .int p.ownMachine.maxTokens), ("enabled", .bool p.ownMachine.enabled)])]
      ⟨{}, ws⟩ = (.ok (), ⟨{ p with apiKeys := [] }, ws⟩) := by
  obtain ⟨primary, fallback, keys, models, ⟨endpoint, model, temperature, maxTokens, enabled⟩⟩ := p
  obtain ⟨x, hx⟩ := hp.ownMachine.temperature
  cases hx
  -- the table of models is set in the empty one, entry by entry
  have hmodels : Entries.putAll [] models = models := Entries.putAll_eq_append hp.keys
  calc
    _ = (Except.ok (), Merging.mk (Providers.mk primary fallback [] (Entries.putAll [] models)
          ⟨endpoint, model, .real x, maxTokens, enabled⟩) ws) := rfl
    _ = _ := by rw [hmodels]

theorem merge_caching (c : Caching Float) :
    mergeEntries cachingFields "caching"
      [("enabled", .bool c.enabled), ("max_size", .int c.maxSize),
       ("ttl_seconds", numberJson c.lifetime)] ⟨{}, ws⟩ =
    (.ok (), ⟨{ c with lifetime := lifetimeAgain c.lifetime },
      lifetimeWarnings c.lifetime ++ ws⟩) := by
  obtain ⟨enabled, maxSize, n | x⟩ := c
  · rfl
  · rfl

theorem merge_budget (b v : Budget Float) :
    mergeEntries budgetFields "budget"
      [("max_cost_per_transpilation", .float b.perConversion), ("daily_budget", .float b.perDay),
       ("prefer_local", .bool b.preferLocal)] ⟨v, ws⟩ = (.ok (), ⟨b, ws⟩) := (rfl)

theorem merge_quality (q v : Quality Float) :
    mergeEntries qualityFields "quality"
      [("min_score", .float q.minScore), ("require_validation", .bool q.review),
       ("enable_learning", .bool q.learning)] ⟨v, ws⟩ = (.ok (), ⟨q, ws⟩) := (rfl)

theorem merge_project (r v : ProjectRules) :
    mergeEntries projectFields "project"
      [("chunk_size", .int r.chunkSize), ("max_file_size", .int r.maxFileSize),
       ("enable_modular_build", .bool r.modular)] ⟨v, ws⟩ = (.ok (), ⟨r, ws⟩) := (rfl)

theorem merge_tools (t v : Tools) :
    mergeEntries toolFields "toolchain"
      [("gbdk_path", .str t.libraryPath), ("transpiler", .str t.translator),
       ("ts2c_command", .str t.ts2cCommand), ("gbdk_url", .str t.libraryUrl),
       ("request_timeout", .float t.timeout)] ⟨v, ws⟩ = (.ok (), ⟨t, ws⟩) := (rfl)

/-- What the document of a configuration makes of the initial one. -/
theorem mergeDocument_toJson {c : Config Float} (hc : Storable c) (d : Disk) (path : String)
    (origin : Option String) :
    mergeDocument path (toJson c) { value := { initial d with path := origin } } =
      (.ok (),
        { value :=
            { c with
              providers := { c.providers with apiKeys := [] }
              caching := { c.caching with lifetime := lifetimeAgain c.caching.lifetime }
              path := origin }
          warnings := lifetimeWarnings c.caching.lifetime }) := by
  unfold toJson mergeDocument
  dsimp only
  refine Eq.trans (mergeSections_cons rfl (merge_providers hc.providers) _) ?_
  refine Eq.trans (mergeSections_cons rfl (merge_caching c.caching) _) ?_
  refine Eq.trans (mergeSections_cons rfl (merge_budget c.budget _) _) ?_
  refine Eq.trans (mergeSections_cons rfl (merge_quality c.quality _) _) ?_
  refine Eq.trans (mergeSections_cons rfl (merge_project c.project _) _) ?_
  refine Eq.trans (mergeSections_cons rfl (merge_tools c.tools _) _) ?_
  rw [List.append_nil]
  rfl

/-! ## Loading what was saved -/

theorem mergeFileIfThere_of_text {d : Disk} {file : Path} {text : String} {j : Json}
    (hthere : d.has file = .ok true) (htext : d.readText file = .ok text)
    (hread : Json.read text = .ok j) :
    mergeFileIfThere d file = mergeDocument file.toString j := by
  rw [mergeFileIfThere, hthere]
  show mergeFile d file = _
  unfold mergeFile
  rw [htext]
  dsimp only
  rw [hread]

/-- A document that was written is merged from its file. -/
theorem mergeFileIfThere_of_written {d d' : Disk} {file : Path} {j : Json}
    (hj : Readable depthLimit j) (hread : d.Unlocked file)
    (h : Disk.writeText file j.document d = (.ok (), d')) :
    mergeFileIfThere d' file = mergeDocument file.toString j := by
  obtain ⟨htext, hthere⟩ := Disk.readText_writeText hread h fun hmem =>
    ne_return_of_mem_document hmem rfl
  exact mergeFileIfThere_of_text hthere htext (read_document hj)

/-- A configuration that was loaded and saved is loaded again as it was, but for the keys of
providers and a time for which results are kept that is not whole. Of such a time a warning is
given, and nothing is reported else. -/
theorem load_saved [EnvFile.Reader] {d d₁ d₂ : Disk} {env env' env'' : Environment}
    {configPath configPath' envPath envPath' given : Option String} {console console₁ : Console}
    {c : Config Float} {file : Path}
    (hload : load d env configPath envPath console = (.ok c, console₁))
    (hsave : save c given d₁ = (.ok file, d₂)) (hread : d₁.Unlocked file)
    (hpath : pathOr d₂ configPath' fileName = file)
    (henv : environment d₂ env' envPath' = .ok env'')
    (hunset : ∀ name ∈ Variable.names, value? env'' name = none) (console' : Console) :
    load d₂ env' configPath' envPath' console' =
      (.ok { c with
          providers := { c.providers with apiKeys := [] }
          caching := { c.caching with lifetime := lifetimeAgain c.caching.lifetime }
          path := some file.toString },
        console'.warnAll ((lifetimeWarnings c.caching.lifetime).map (·.message))) := by
  have hstorable := storable_of_load hload
  have hon : OwnMachineOn c := by
    obtain ⟨_, _, -, hc⟩ := load_ok hload
    exact on_of_withEnvironment hc
  obtain ⟨_, _, hget, hsave⟩ := bind_eq_ok hsave
  cases hget
  obtain ⟨_, _, hwrite, hdone⟩ := bind_eq_ok hsave
  cases hdone
  rw [load, henv]
  dsimp only
  rw [hpath, mergeFileIfThere_of_written (readable_toJson hstorable) hread hwrite,
    mergeDocument_toJson hstorable]
  dsimp only
  rw [withEnvironment_of_unset hunset, withOwnMachine_of_on]
  · cases c.caching.lifetime <;> rfl
  · exact hon

/-- The configuration file of a user who keeps results for an hour. -/
def hourly : Json := .obj [("caching", .obj [("ttl", .int 3600000)])]

/-- A disk with nothing but this file. -/
def hourlyDisk : Disk :=
  ⟨.folder [(fileName, .file hourly.document.toUTF8 FileTree.fileMode)] FileTree.folderMode, []⟩

theorem readable_hourly : Readable depthLimit hourly := by
  show Readable (entryRoom + 3) hourly
  refine .obj (by simp [Entries.names]) ?_
  simp only [List.forall_mem_cons, List.not_mem_nil, false_imp_iff, implies_true, and_true]
  refine .obj (by simp [Entries.names]) ?_
  simp only [List.forall_mem_cons, List.not_mem_nil, false_imp_iff, implies_true, and_true]
  exact .int (by decide)

/-- A time in milliseconds makes seconds that are not whole. -/
theorem merge_milliseconds {n : Int} {x : Float} (h : Merge.real n 1000 = .ok x) :
    mergeEntries cachingFields "caching" [("ttl", .int n)] ⟨{}, ws⟩ =
      (.ok (), ⟨{ lifetime := .real x }, ws⟩) := by
  have htake : takeLifetime (fun n => (Merge.real n 1000).map .real) (· / 1000.0) "caching.ttl"
      (.int n) ⟨{}, ws⟩ = (.ok (), ⟨{ lifetime := .real x }, ws⟩) := by
    show (do
      let l ← Run.ofExcept ((Merge.real n 1000).map Number.real)
      Merge.set fun s => { s with lifetime := l } : Merge (Caching Float) Unit) ⟨{}, ws⟩ = _
    rw [h]
    rfl
  exact Run.bind_ok htake

/-- What is loaded from it. -/
def hourlyConfig : Config Float :=
  { initial hourlyDisk with
    caching := { lifetime := .real (Quantity.ofNat 3600) }
    path := some (hourlyDisk.current.child fileName).toString }

theorem load_hourly : load hourlyDisk [] none none {} = (.ok hourlyConfig, {}) := by
  have hwritten : Disk.writeText (hourlyDisk.current.child fileName) hourly.document
      ⟨.folder [] FileTree.folderMode, []⟩ = (.ok (), hourlyDisk) := by rfl
  have hratio : Quantity.ofRatio? 3600000 1000 = some (Quantity.ofNat 3600 : Float) := by
    decide +kernel
  have hhour : Merge.real 3600000 1000 = .ok (Quantity.ofNat 3600 : Float) := by
    rw [Merge.real, hratio]
  have hasks : OwnMachineOn hourlyConfig := by
    rintro (h | h)
    · exact absurd h (by decide)
    · cases h
  rw [load, show environment hourlyDisk [] none = .ok [] by rfl]
  dsimp only
  rw [show pathOr hourlyDisk none fileName = hourlyDisk.current.child fileName from rfl,
    mergeFileIfThere_of_written readable_hourly (Disk.unlocked_newFolder [] _) hwritten]
  unfold hourly mergeDocument
  dsimp only
  rw [Eq.trans (mergeSections_cons rfl (merge_milliseconds hhour) []) rfl]
  dsimp only
  rw [withEnvironment_of_unset fun _ _ => rfl]
  exact congrArg (fun c => (Except.ok c, _)) (withOwnMachine_of_on hasks)

theorem unlocked_hourly : hourlyDisk.Unlocked (hourlyDisk.current.child fileName) := by
  intro t ht
  cases ht
  exact FileTree.allows_read_fileMode _

/-- The hour is saved, and then refused. -/
theorem load_saved_of_hourly : ∃ d,
    load hourlyDisk [] none none {} = (.ok hourlyConfig, {}) ∧
    save hourlyConfig none hourlyDisk = (.ok (hourlyDisk.current.child fileName), d) ∧
    load d [] none none {} =
      (.ok { hourlyConfig with caching := { lifetime := .whole 86400 } },
        ({} : Console).warn
          "Config key 'caching.ttl_seconds' should be int, got float; keeping 86400") := by
  have hsave : save hourlyConfig none hourlyDisk = (.ok (hourlyDisk.current.child fileName),
    hourlyDisk.putAt [fileName] (.file hourlyConfig.toJson.document.toUTF8 FileTree.fileMode)) := by
    rfl
  have henv : environment (hourlyDisk.putAt [fileName]
    (.file hourlyConfig.toJson.document.toUTF8 FileTree.fileMode)) [] none = .ok [] := by rfl
  refine ⟨_, load_hourly, hsave, ?_⟩
  rw [load_saved load_hourly hsave unlocked_hourly rfl henv (fun _ _ => rfl)]
  rfl

end Cartridge.Config
