import Cartridge.Proofs.Config.Secrets
import Cartridge.Proofs.FileTree.Growth
import Cartridge.Proofs.Workshop

/-!
# What a saved configuration tells

The configuration that a run writes does not depend on the keys of providers: two runs whose
configuration files differ in keys alone, and in which the environment together with its file
decides the same on all but keys, write the same file. An environment file can break this, since it
may set another variable to the value of a key.

* `SettingsAlike`: environments that decide the same on all but keys, each with its file.
* `settingsAlike_of_unset`, `settingsAlike_of_set`: environments that do so, whatever their keys.
* `saved_of_alike`: two runs that differ in keys alone write the same file.
* `saved_key_of_leaking`: an environment file that takes a key for something else.
-/

namespace Cartridge

namespace Config

open Json Run CommandLine

/-! ## Environments that differ in keys -/

/-- Two environments, each with its environment file, decide alike on all but keys. -/
def SettingsAlike [EnvFile.Reader] (d : Disk) (env : Environment) (d' : Disk) (env' : Environment) :
    Prop :=
  ∀ all all', environment d env none = .ok all → environment d' env' none = .ok all' →
    AlikeButKeys all all'

/-- Without environment files it is enough that the environments differ in keys alone. -/
theorem settingsAlike_of_unset [EnvFile.Reader] {d d' : Disk} {env env' : Environment}
    (h : AlikeButKeys env env') (hfile : envFile? d none = none) (hfile' : envFile? d' none = none) :
    SettingsAlike d env d' env' := by
  intro all all' hall hall'
  rw [environment_of_none hfile] at hall
  rw [environment_of_none hfile'] at hall'
  cases hall
  cases hall'
  exact h

/-- With any environment files it is enough that the environments decide on all but keys. -/
theorem settingsAlike_of_set [EnvFile.Reader] {d d' : Disk} {env env' : Environment}
    (h : AlikeButKeys env env')
    (hset : ∀ name ∈ Variable.names, name ∉ Variable.keys → env.has name ∧ env'.has name) :
    SettingsAlike d env d' env' := by
  intro all all' hall hall' name hmem hkey
  have hhas := hset name hmem hkey
  have hsame := h name hmem hkey
  unfold value? at hsame ⊢
  rw [get?_environment_of_has hall hhas.1, get?_environment_of_has hall' hhas.2]
  exact hsame

/-! ## Configurations that are loaded -/

theorem pathOr_congr {d d' : Disk} (h : d.here = d'.here) (given : Option String) (name : String) :
    pathOr d given name = pathOr d' given name := by
  rw [pathOr, pathOr, Disk.current, Disk.current, h]

/-- Two configurations that are loaded differ in their keys alone if all that they are made of
does. -/
theorem loaded_alike [EnvFile.Reader] {d d' : Disk} {env env' : Environment}
    {configPath : Option String}
    {console console' after after' : Console} {c c' : Config Float} (hhere : d.here = d'.here)
    (hfile : SameButKeys d d' (pathOr d configPath fileName))
    (hsettings : SettingsAlike d env d' env')
    (h : load d env configPath none console = (.ok c, after))
    (h' : load d' env' configPath none console' = (.ok c', after')) :
    withoutKeys c = withoutKeys c' := by
  obtain ⟨all, merged, hall, hmerged, hset⟩ := loaded h
  obtain ⟨all', merged', hall', hmerged', hset'⟩ := loaded h'
  have hinitial : initial d' = initial d := by
    rw [initial, initial, Disk.current, Disk.current, hhere]
  rw [hinitial, ← pathOr_congr hhere] at hmerged'
  obtain ⟨-, hvalue⟩ := mergeFileIfThere_alike hfile _ _ rfl
  rw [hmerged, hmerged'] at hvalue
  have hboth := withEnvironment_alike (hsettings all all' hall hall') hvalue
  rw [hset, hset'] at hboth
  exact Except.ok.inj hboth

/-! ## Runs that save -/

/-- A configuration is written as a document. -/
theorem written_of_save {c : Config Float} {given : Option String} {d d' : Disk} {file : Path}
    (h : c.save given d = (.ok file, d')) :
    Disk.writeText (c.savePath d given) c.toJson.document d = (.ok (), d') := by
  obtain ⟨_, _, hget, h⟩ := bind_eq_ok h
  cases hget
  obtain ⟨_, _, hwrite, h⟩ := bind_eq_ok h
  cases h
  exact hwrite

theorem not_finished_of_fail {text : String} {w w' : Workshop Float} :
    fail text w ≠ (.ok (.finished 0), w') := by
  intro h
  cases h

/-- A run that saves goes by a configuration, and writes it. -/
theorem written_of_program [EnvFile.Reader] {env : Environment} {arguments : List String}
    {a : Arguments}
    {w w' : Workshop Float} (ha : understand arguments = .ok (.work a))
    (hsave : a.saveConfig = true) (h : program env arguments w = (.ok (.finished 0), w')) :
    ∃ c console, configure env a w = (.ok (.ok c), heard w console) ∧
      Disk.writeText (c.savePath w.disk none) c.toJson.document w.disk = (.ok (), w'.disk) := by
  unfold program at h
  rw [ha] at h
  dsimp only at h
  unfold perform at h
  cases hmeant : a.meant? with
  | none =>
    rw [hmeant] at h
    exact absurd h not_finished_of_fail
  | some command =>
    rw [hmeant] at h
    obtain ⟨outcome, w₁, hconfigure, h⟩ := bind_eq_ok h
    cases outcome with
    | error wrong =>
      obtain ⟨_, _, -, h⟩ := bind_eq_ok h
      obtain ⟨_, _, -, h⟩ := bind_eq_ok h
      cases h
    | ok c =>
      obtain ⟨loaded, console, -, rfl, -, -⟩ := configure_ok hconfigure
      dsimp only at h
      rw [if_pos hsave] at h
      refine ⟨c, console, hconfigure, ?_⟩
      obtain ⟨file, w₂, hchange, h⟩ := bind_eq_ok h
      obtain ⟨_, w₃, hsay, h⟩ := bind_eq_ok h
      cases h
      obtain ⟨d, hsaved, rfl⟩ := Workshop.change_ok hchange
      obtain ⟨studio, rfl⟩ := Workshop.inStudio_ok hsay
      exact written_of_save hsaved

/-- Two runs that save write the same into the same file if they have the same arguments, their
configuration files differ in keys alone, and each environment together with its file decides the
same on all but keys. -/
theorem saved_of_alike [EnvFile.Reader] {env env' : Environment} {arguments : List String}
    {a : Arguments} {w w' v v' : Workshop Float} (ha : understand arguments = .ok (.work a))
    (hsave : a.saveConfig = true) (hhere : w.disk.here = v.disk.here)
    (hfile : SameButKeys w.disk v.disk (pathOr w.disk a.config fileName))
    (hsettings : SettingsAlike w.disk env v.disk env')
    (hw : program env arguments w = (.ok (.finished 0), w'))
    (hv : program env' arguments v = (.ok (.finished 0), v')) :
    ∃ file text, Disk.writeText file text w.disk = (.ok (), w'.disk) ∧
      Disk.writeText file text v.disk = (.ok (), v'.disk) ∧
      w'.disk.HasText file text ∧ v'.disk.HasText file text := by
  obtain ⟨c, console, hconfigure, hwrite⟩ := written_of_program ha hsave hw
  obtain ⟨c', console', hconfigure', hwrite'⟩ := written_of_program ha hsave hv
  obtain ⟨loaded, _, hload, -, rfl, -⟩ := configure_ok hconfigure
  obtain ⟨loaded', _, hload', -, rfl, -⟩ := configure_ok hconfigure'
  have halike : withoutKeys (a.overridden loaded) = withoutKeys (a.overridden loaded') := by
    rw [overridden_withoutKeys, overridden_withoutKeys,
      loaded_alike hhere hfile hsettings hload hload']
  obtain ⟨hdocument, hpath⟩ := written_alike halike
  have hplace : (a.overridden loaded').savePath v.disk none =
      (a.overridden loaded).savePath w.disk none := by
    show pathOr _ _ _ = pathOr _ _ _
    rw [← pathOr_congr hhere, hpath]
  rw [← hdocument, hplace] at hwrite'
  exact ⟨_, _, hwrite, hwrite', Disk.hasText_of_writeText hwrite,
    Disk.hasText_of_writeText hwrite'⟩

/-! ## Two runs with different keys -/

/-- The run of a program that saves, once its configuration is found. -/
theorem program_of_configure [EnvFile.Reader] {env : Environment} {arguments : List String}
    {a : Arguments}
    {command : Command} {w : Workshop Float} {c : Config Float} {console : Console} {d : Disk}
    (ha : understand arguments = .ok (.work a)) (hmeant : a.meant? = some command)
    (hsave : a.saveConfig = true) (hconfigure : configure env a w = (.ok (.ok c), heard w console))
    (hwrite : Disk.writeText (c.savePath w.disk none) c.toJson.document w.disk = (.ok (), d)) :
    ∃ w', program env arguments w = (.ok (.finished 0), w') ∧ w'.disk = d := by
  have hsaved : c.save none w.disk = (.ok (c.savePath w.disk none), d) :=
    (bind_ok rfl).trans (bind_ok hwrite)
  unfold program
  rw [ha]
  dsimp only
  unfold perform
  rw [hmeant]
  dsimp only
  rw [bind_ok hconfigure]
  dsimp only
  rw [if_pos hsave, CommandLine.save]
  have hchanged : (Workshop.change (c.save none) : Workshop.Task Float Path) (heard w console) =
      (.ok (c.savePath w.disk none), { heard w console with disk := d }) :=
    Workshop.change_of_ok hsaved
  rw [bind_ok hchanged]
  exact ⟨_, rfl, rfl⟩

theorem understand_save : understand ["--save-config"] = .ok (.work { saveConfig := true }) := rfl

/-- An environment file that takes one key for another. -/
def lending : String := "OPENROUTER_API_KEY=$\x7bCLAUDE_API_KEY\x7d\n"

/-- A configuration file with a key. -/
def keyed (key : String) : Json :=
  .obj [("providers", .obj [("apiKeys", .obj [("openai", .str key)])])]

/-- A disk with nothing but these files. -/
def keyedDisk (key : String) : Disk where
  root := .folder
    [(envFileName, .file lending.toUTF8 FileTree.fileMode),
     (fileName, .file (keyed key).document.toUTF8 FileTree.fileMode)] FileTree.folderMode
  here := []

/-- Where the configuration file is. -/
def keyedPlace : Path := Path.child ⟨"/", []⟩ fileName

/-- The variables of a user with a key. -/
def keyedVariables (key : String) : Environment := [("CLAUDE_API_KEY", key)]

/-- These variables with those of the environment file. -/
def lent (key : String) : Environment := [("CLAUDE_API_KEY", key), ("OPENROUTER_API_KEY", key)]

/-- Where this disk is, with nothing else. -/
def keyedWorkshop (key : String) : Workshop Float where
  studio := { config := initial (keyedDisk key), session := { clock := 0, today := "" } }
  disk := keyedDisk key
  tools := fun _ => .cannotStart ""

/-- What the file makes of the configuration. -/
def keyedFile (key : String) : Config Float :=
  { initial (keyedDisk key) with
    providers := { apiKeys := [("openai", .str key)] }
    path := some keyedPlace.toString }

/-- What the environment and its file make of it. -/
def keyedConfig (key : String) : Config Float :=
  { keyedFile key with
    providers :=
      { apiKeys := [("openai", .str key), ("claude", .str key), ("openrouter", .str key)] } }

/-- The disk after this configuration was saved. -/
def keyedAfter (key : String) : Disk :=
  (keyedDisk key).putAt [fileName]
    (.file (keyedConfig key).toJson.document.toUTF8 FileTree.fileMode)

theorem readable_keyed (key : String) : Readable depthLimit (keyed key) := by
  show Readable (entryRoom + 3) (keyed key)
  refine .obj (by simp [Entries.names]) ?_
  simp only [List.forall_mem_cons, List.not_mem_nil, false_imp_iff, implies_true, and_true]
  refine .obj (by simp [Entries.names]) ?_
  simp only [List.forall_mem_cons, List.not_mem_nil, false_imp_iff, implies_true, and_true]
  refine .obj (by simp [Entries.names]) ?_
  simp only [List.forall_mem_cons, List.not_mem_nil, false_imp_iff, implies_true, and_true]
  exact .str _ _

/-- The disk without its configuration file. -/
def lendingDisk : Disk :=
  ⟨.folder [(envFileName, .file lending.toUTF8 FileTree.fileMode)] FileTree.folderMode, []⟩

theorem unlocked_lendingDisk : lendingDisk.Unlocked keyedPlace := Disk.unlocked_of_error rfl

theorem keyedDisk_written (key : String) :
    Disk.writeText keyedPlace (keyed key).document lendingDisk = (.ok (), keyedDisk key) := rfl

theorem readText_keyed (key : String) :
    (keyedDisk key).readText keyedPlace = .ok (keyed key).document :=
  (Disk.readText_writeText unlocked_lendingDisk (keyedDisk_written key)
    fun hmem => ne_return_of_mem_document hmem rfl).1

theorem textOf_lending : Disk.textOf (.file lending.toUTF8 FileTree.fileMode) = .ok lending :=
  Disk.textOf_plain rfl (by simp [lending])

/-- An environment file that is found on a disk gives the key to another provider. -/
theorem environment_lent {d : Disk}
    (h : envFile? d none = some (.file lending.toUTF8 FileTree.fileMode)) {key : String}
    (hkey : EnvFile.extend (keyedVariables key) lending = .ok (lent key)) :
    environment d (keyedVariables key) none = .ok (lent key) := by
  rw [environment_of_some h, textOf_lending]
  exact hkey

theorem mergeDocument_keyed (key : String) : mergeDocument keyedPlace.toString (keyed key)
    ⟨{ initial (keyedDisk key) with path := some keyedPlace.toString }, []⟩ =
      (.ok (), ⟨keyedFile key, []⟩) := rfl

theorem problems_keyed (key : String) : (keyedConfig key).problems = [] :=
  (problems_congr rfl rfl rfl rfl rfl).trans (problems_initial (keyedDisk key))

theorem program_keyed {key : String}
    (henv : environment (keyedDisk key) (keyedVariables key) none = .ok (lent key))
    (hset : withEnvironment (lent key) (keyedFile key) = .ok (keyedConfig key))
    (hwrite : Disk.writeText keyedPlace (keyedConfig key).toJson.document (keyedDisk key) =
      (.ok (), keyedAfter key)) : ∃ w',
      program (keyedVariables key) ["--save-config"] (keyedWorkshop key) =
        (.ok (.finished 0), w') := by
  have hfile : pathOr (keyedDisk key) none fileName = keyedPlace := rfl
  have hload := load_of_written hfile (readable_keyed key) unlocked_lendingDisk
    (keyedDisk_written key) henv (mergeDocument_keyed key) hset {}
  have hconfigure := configure_of_load (a := { saveConfig := true }) (w := keyedWorkshop key)
    hload (problems_keyed key)
  obtain ⟨w', hw', -⟩ := program_of_configure understand_save rfl rfl hconfigure hwrite
  exact ⟨w', hw'⟩

theorem sameButKeys_keyed {key key' : String} (h : redacted (keyed key) = redacted (keyed key')) :
    SameButKeys (keyedDisk key) (keyedDisk key') keyedPlace :=
  .inr ⟨_, _, _, _, readText_keyed key, readText_keyed key', read_document (readable_keyed key),
    read_document (readable_keyed key'), h⟩

theorem alikeButKeys_lent : AlikeButKeys (lent "one") (lent "two") := by
  unfold AlikeButKeys
  decide

/-- Two users with other keys, in the file and in the environment, save the same. -/
theorem saved_of_keyed : ∃ w' v' file text,
    SameButKeys (keyedDisk "one") (keyedDisk "two") keyedPlace ∧
    SettingsAlike (keyedDisk "one") (keyedVariables "one") (keyedDisk "two")
      (keyedVariables "two") ∧
    program (keyedVariables "one") ["--save-config"] (keyedWorkshop "one") =
      (.ok (.finished 0), w') ∧
    program (keyedVariables "two") ["--save-config"] (keyedWorkshop "two") =
      (.ok (.finished 0), v') ∧
    w'.disk.HasText file text ∧ v'.disk.HasText file text := by
  have henv : environment (keyedDisk "one") (keyedVariables "one") none = .ok (lent "one") :=
    environment_lent rfl rfl
  have henv' : environment (keyedDisk "two") (keyedVariables "two") none = .ok (lent "two") :=
    environment_lent rfl rfl
  obtain ⟨w', hw⟩ : ∃ w', program (keyedVariables "one") ["--save-config"] (keyedWorkshop "one") =
      (.ok (.finished 0), w') := program_keyed henv rfl rfl
  obtain ⟨v', hv⟩ : ∃ v', program (keyedVariables "two") ["--save-config"] (keyedWorkshop "two") =
      (.ok (.finished 0), v') := program_keyed henv' rfl rfl
  have hfile : SameButKeys (keyedDisk "one") (keyedDisk "two") keyedPlace := sameButKeys_keyed rfl
  have hsettings : SettingsAlike (keyedDisk "one") (keyedVariables "one") (keyedDisk "two")
      (keyedVariables "two") := by
    intro all all' hall hall'
    rw [henv] at hall
    rw [henv'] at hall'
    cases hall
    cases hall'
    exact alikeButKeys_lent
  have hhere (key : String) : (keyedWorkshop key).disk.here = [] := rfl
  obtain ⟨file, text, -, -, htext, htext'⟩ := saved_of_alike understand_save rfl
    ((hhere "one").trans (hhere "two").symm) hfile hsettings hw hv
  exact ⟨w', v', file, text, hfile, hsettings, hw, hv, htext, htext'⟩

/-! ## A key that is saved -/

/-- An environment file that takes a key for the name of a provider. -/
def leaking : String := "GBTS_AI_PROVIDER=$\x7bCLAUDE_API_KEY\x7d\n"

/-- A disk with nothing but this file. -/
def leakingDisk : Disk where
  root := .folder [(envFileName, .file leaking.toUTF8 FileTree.fileMode)] FileTree.folderMode
  here := []

/-- Where this disk is, with nothing else. -/
def leakingWorkshop : Workshop Float where
  studio := { config := initial leakingDisk, session := { clock := 0, today := "" } }
  disk := leakingDisk
  tools := fun _ => .cannotStart ""

/-- What the environment and its file make of the configuration. -/
def leakingConfig (key : String) : Config Float :=
  { initial leakingDisk with
    providers := { primary := key, apiKeys := [("claude", .str key)] }
    path := some (leakingDisk.current.child fileName).toString }

/-- Two configurations of which the same is written have the same primary provider. -/
theorem primary_of_document {c c' : Config Float} (hc : Storable c) (hc' : Storable c')
    (h : c.toJson.document = c'.toJson.document) : c.providers.primary = c'.providers.primary := by
  have hread := read_document (readable_toJson hc)
  rw [h, read_document (readable_toJson hc')] at hread
  have hjson : c'.toJson = c.toJson := Except.ok.inj hread
  have hfirst (c : Config Float) : ∃ rest others, c.toJson =
      .obj (("providers", .obj (("primary", .str c.providers.primary) :: rest)) :: others) :=
    ⟨_, _, rfl⟩
  obtain ⟨rest, others, hleft⟩ := hfirst c
  obtain ⟨rest', others', hright⟩ := hfirst c'
  rw [hleft, hright] at hjson
  simp only [Json.obj.injEq, List.cons.injEq, Prod.mk.injEq, Json.str.injEq] at hjson
  exact hjson.1.2.1.2.symm

theorem writeText_leaking (text : String) : Disk.writeText keyedPlace text leakingDisk =
    (.ok (), leakingDisk.putAt [fileName] (.file text.toUTF8 FileTree.fileMode)) := rfl

/-- The run of a user with this environment file: the configuration is written, with the key. -/
theorem program_leaking {key : String}
    (hload : load leakingDisk (keyedVariables key) none none {} = (.ok (leakingConfig key), {})) :
    ∃ w', program (keyedVariables key) ["--save-config"] leakingWorkshop = (.ok (.finished 0), w') ∧
      w'.disk.HasText keyedPlace (leakingConfig key).toJson.document := by
  have hproblems : (leakingConfig key).problems = [] :=
    (problems_congr rfl rfl rfl rfl rfl).trans (problems_initial leakingDisk)
  have hconfigure := configure_of_load (a := { saveConfig := true }) (w := leakingWorkshop)
    hload hproblems
  have hwrite := writeText_leaking (leakingConfig key).toJson.document
  obtain ⟨w', hw', hdisk⟩ := program_of_configure understand_save rfl rfl hconfigure hwrite
  refine ⟨w', hw', ?_⟩
  rw [hdisk]
  exact Disk.hasText_of_writeText hwrite

/-- A variable that mentions a key gives it to the file that is saved. -/
theorem saved_key_of_leaking : ∃ w' v' file text text',
    program (keyedVariables "one") ["--save-config"] leakingWorkshop =
      (.ok (.finished 0), w') ∧
    program (keyedVariables "two") ["--save-config"] leakingWorkshop =
      (.ok (.finished 0), v') ∧
    w'.disk.HasText file text ∧ v'.disk.HasText file text' ∧ text ≠ text' := by
  have hload : load leakingDisk (keyedVariables "one") none none {} =
      (.ok (leakingConfig "one"), {}) := rfl
  have hload' : load leakingDisk (keyedVariables "two") none none {} =
      (.ok (leakingConfig "two"), {}) := rfl
  obtain ⟨w', hw, htext⟩ := program_leaking hload
  obtain ⟨v', hv, htext'⟩ := program_leaking hload'
  refine ⟨w', v', keyedPlace, _, _, hw, hv, htext, htext', fun hsame => ?_⟩
  have hprimary := primary_of_document (storable_of_load hload) (storable_of_load hload') hsame
  exact absurd hprimary (by decide)

end Config

end Cartridge
