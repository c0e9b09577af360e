import Cartridge.Proofs.Config.Veiled

/-!
# What the log tells of keys

Two runs that differ in the keys of providers, in the environment and in the configuration file, end
in the same way and show the same messages, with one exception: where something else than a table is
given for keys in the file, a warning shows the table of those that were given before it.

* `SameUpToKeys`, `mergeFileIfThere_matched`: configuration files.
* `DifferInKeys`, `load_paired`: configurations that are loaded.
* `configure_paired`, `perform_paired`, `program_paired`: runs.
* `log_of_keys`: the messages of two runs.
-/

namespace Cartridge.Config

open Json Run CommandLine Workshop

variable {hide : Warning → Warning} {d d' : Disk} {env env' : Environment} {file : Path}

/-! ## Configuration files -/

/-- Two disks have the same at a path, or texts there that are documents and differ in the keys of
providers alone: there are the same keys, and the same ones are empty. -/
def SameUpToKeys (d d' : Disk) (file : Path) : Prop :=
  d.entry file = d'.entry file ∨
    ∃ text text' j j', d.readText file = .ok text ∧ d'.readText file = .ok text' ∧
      Json.read text = .ok j ∧ Json.read text' = .ok j' ∧ veiledDocument j = veiledDocument j'

/-- The entries about providers of the document at a path, if there is one. -/
def fileEntries (d : Disk) (file : Path) : Entries Json :=
  match d.readText file with
  | .ok text =>
    match Json.read text with
    | .ok j => documentEntries j
    | .error _ => []
  | .error _ => []

theorem fileEntries_of_text {text : String} {j : Json} (htext : d.readText file = .ok text)
    (hread : Json.read text = .ok j) : fileEntries d file = documentEntries j := by
  unfold fileEntries
  rw [htext]
  dsimp only
  rw [hread]

theorem MergingsAlike.finish {entries : Entries Json} {m m' : Merging (Config Float)}
    (h : MergingsAlike hide entries m m') : MergingsAlike hide [] m m' where
  value := h.value
  warnings := h.warnings
  safe := h.safe.imp_right fun _ => ⟨.nil, .inr fun _ he => by cases he⟩

theorem mergeFile_matched :
    Matched (WarningsAlike hide) (MergingsAlike hide (fileEntries d file)) Eq
      (MergingsAlike hide []) (mergeFile d file) (mergeFile d file) := by
  have hpasses {w : Warning} {x : Merge (Config Float) Unit} (h : Passes x (· = w)) :
      Matched (WarningsAlike hide) (MergingsAlike hide (fileEntries d file)) Eq
        (MergingsAlike hide []) x x := fun m m' hm => passes_matched h m m' hm.finish
  have hstops (e : Fault) :
      Matched (WarningsAlike hide) (MergingsAlike hide (fileEntries d file)) Eq
        (MergingsAlike hide []) (Run.stop e : Merge _ Unit) (Run.stop e) :=
    .stop (fun _ _ hm => hm.warnings) e
  unfold mergeFile
  dsimp only
  cases htext : d.readText file with
  | error e =>
    dsimp only
    split
    · exact hpasses (w := .unreadable _ _) fun m => ⟨_, rfl, rfl⟩
    · exact hstops e
  | ok text =>
    cases hread : Json.read text with
    | ok j =>
      dsimp only
      rw [hread, fileEntries_of_text htext hread]
      exact mergeDocument_matched _ rfl
    | error e =>
      dsimp only
      rw [hread]
      cases e with
      | malformed => exact hpasses (w := .unreadable _ _) fun m => ⟨_, rfl, rfl⟩
      | oversized => exact hstops _
      | tooDeep => exact hstops _

theorem mergeFileIfThere_matched (h : SameUpToKeys d d' file) :
    Matched (WarningsAlike hide) (MergingsAlike hide (fileEntries d file)) Eq
      (MergingsAlike hide []) (mergeFileIfThere d file) (mergeFileIfThere d' file) := by
  obtain hentry | ⟨text, text', j, j', htext, htext', hread, hread', hsame⟩ := h
  · have hhas : d'.has file = d.has file := by
      rw [Disk.has, Disk.has, Disk.holds, Disk.holds, hentry]
    have hfile : mergeFile d' file = mergeFile d file := by
      unfold mergeFile Disk.readText
      rw [hentry]
    unfold mergeFileIfThere
    rw [hhas, hfile]
    cases d.has file with
    | error e => exact fun m m' hm => .error hm.warnings
    | ok isThere =>
      cases isThere with
      | true => exact mergeFile_matched
      | false => exact fun m m' hm => .ok rfl hm.finish
  · rw [mergeFileIfThere_of_text (has_of_readText htext) htext hread,
      mergeFileIfThere_of_text (has_of_readText htext') htext' hread',
      fileEntries_of_text htext hread]
    exact mergeDocument_matched _ hsame

/-! ## The environment -/

theorem veiled_eq {c c' : Config Float} (h : withoutKeys c = withoutKeys c')
    (hkeys : c.providers.apiKeys.mapped blanked = c'.providers.apiKeys.mapped blanked) :
    c.veiled = c'.veiled :=
  congrArg₂ (fun (c : Config Float) keys =>
    { c with providers := { c.providers with apiKeys := keys } }) h hkeys

theorem withoutKeys_of_veiled {c c' : Config Float} (h : c.veiled = c'.veiled) :
    withoutKeys c = withoutKeys c' := (congrArg withoutKeys h :)

/-- Two environments decide alike but for the values of keys: they have values for the same keys. -/
structure AlikeUpToKeys (env env' : Environment) : Prop where
  butKeys : AlikeButKeys env env'
  keys : ∀ name ∈ Variable.keys, (value? env name).isSome = (value? env' name).isSome

/-- Of the keys of the environment is told only which ones there are. -/
theorem keysFrom_veiled (h : AlikeUpToKeys env env') {keys keys' : Entries Json}
    (hkeys : keys.mapped blanked = keys'.mapped blanked) :
    (keysFrom env keys).mapped blanked = (keysFrom env' keys').mapped blanked := by
  have hset (env : Environment) (keys : Entries Json) (kind : Provider.Kind) :
      (setKey env keys kind).mapped blanked =
        if (kind.keyVariable?.bind (value? env)).isSome then
          (keys.mapped blanked).put kind.name (.bool true)
        else keys.mapped blanked := by
    unfold setKey
    cases hkey : kind.keyVariable?.bind (value? env) with
    | none => rfl
    | some key =>
      obtain ⟨name, -, hvalue⟩ := Option.bind_eq_some_iff.mp hkey
      have hnotEmpty : key ≠ "" := by simpa using (Option.filter_eq_some_iff.mp hvalue).2
      have hblank : blanked (.str key) = .bool true := by
        simp [blanked, isTruthy, hnotEmpty]
      rw [Entries.mapped_put, hblank]
      rfl
  have hsome (kind : Provider.Kind) : (kind.keyVariable?.bind (value? env)).isSome =
      (kind.keyVariable?.bind (value? env')).isSome := by
    cases hname : kind.keyVariable? with
    | none => rfl
    | some name =>
      have hkey : name ∈ Variable.keys := by
        cases kind <;> cases hname <;> decide
      exact h.keys name hkey
  rw [keysFrom_eq, keysFrom_eq]
  suffices ∀ kinds : List Provider.Kind, ∀ keys keys' : Entries Json,
      keys.mapped blanked = keys'.mapped blanked →
      (kinds.foldl (setKey env) keys).mapped blanked =
        (kinds.foldl (setKey env') keys').mapped blanked from this _ _ _ hkeys
  intro kinds
  induction kinds with
  | nil => exact fun keys keys' hkeys => hkeys
  | cons kind rest ih =>
    intro keys keys' hkeys
    apply ih
    rw [hset, hset, hsome, hkeys]

theorem withEnvironment_veiled (h : AlikeUpToKeys env env') {c c' : Config Float}
    (hc : c.veiled = c'.veiled) :
    (withEnvironment env c).map veiled = (withEnvironment env' c').map veiled := by
  have hrest := withEnvironment_alike h.butKeys (withoutKeys_of_veiled hc)
  obtain ⟨c₁, c₁', hleft, hright, hsame⟩ | ⟨e, hleft, hright⟩ := map_eq_map hrest
  · rw [hleft, hright]
    refine congrArg Except.ok (veiled_eq hsame ?_)
    rw [(parts_of_withEnvironment hleft).apiKeys, (parts_of_withEnvironment hright).apiKeys]
    exact keysFrom_veiled h (congrArg (fun c : Config Float => c.providers.apiKeys) hc)
  · rw [hleft, hright]

/-! ## Loading -/

/-- What is reported about the configuration file of a run, in order. -/
def fileWarnings [EnvFile.Reader] (d : Disk) (env : Environment) (configPath : Option String) :
    List Warning :=
  match environment d env none with
  | .error _ => []
  | .ok _ =>
    let file := pathOr d configPath fileName
    (mergeFileIfThere d file { value := { initial d with path := some file.toString } }).2.warnings.reverse

/-- What has to be the same for two runs whose keys differ: the files but for the keys, and what
each environment together with its file decides but for the values of keys. -/
structure DifferInKeys [EnvFile.Reader] (d : Disk) (env : Environment) (d' : Disk)
    (env' : Environment) (configPath : Option String) : Prop where
  here : d.here = d'.here
  file : SameUpToKeys d d' (pathOr d configPath fileName)
  settings : (∃ e, environment d env none = .error e ∧ environment d' env' none = .error e) ∨
    ∃ all all', environment d env none = .ok all ∧ environment d' env' none = .ok all' ∧
      AlikeUpToKeys all all'

variable {configPath : Option String}

theorem DifferInKeys.merged [EnvFile.Reader] (h : DifferInKeys d env d' env' configPath)
    (hsafe : Loud hide ∨ (fileEntries d (pathOr d configPath fileName)).Pairwise KeysBefore) :
    let file := pathOr d configPath fileName
    let file' := pathOr d' configPath fileName
    Paired (WarningsAlike hide) Eq (MergingsAlike hide [])
      (mergeFileIfThere d file { value := { initial d with path := some file.toString } })
      (mergeFileIfThere d' file' { value := { initial d' with path := some file'.toString } }) := by
  have hinitial : initial d' = initial d := by
    rw [initial, initial, Disk.current, Disk.current, h.here]
  dsimp only
  rw [hinitial, ← pathOr_congr h.here]
  refine mergeFileIfThere_matched h.file _ _ ⟨rfl, rfl, hsafe.imp_right fun hpairs => ⟨hpairs, ?_⟩⟩
  exact .inl rfl

/-- The same is reported but for what is hidden. -/
theorem DifferInKeys.fileWarnings [EnvFile.Reader] (h : DifferInKeys d env d' env' configPath)
    (hsafe : Loud hide ∨ (fileEntries d (pathOr d configPath fileName)).Pairwise KeysBefore) :
    (fileWarnings d env configPath).map hide =
      (Config.fileWarnings d' env' configPath).map hide := by
  obtain ⟨e, hleft, hright⟩ | ⟨all, all', hleft, hright, -⟩ := h.settings
  · rw [Config.fileWarnings, Config.fileWarnings, hleft, hright]
  · have hmerged := h.merged hsafe
    rw [Config.fileWarnings, Config.fileWarnings, hleft, hright]
    dsimp only at hmerged ⊢
    rw [List.map_reverse, List.map_reverse]
    generalize mergeFileIfThere d _ _ = first at hmerged ⊢
    generalize mergeFileIfThere d' _ _ = second at hmerged ⊢
    cases hmerged with
    | ok _ hstate => exact congrArg List.reverse hstate.warnings
    | error hstate => exact congrArg List.reverse hstate

/-- Two runs that load configurations are both stopped for one reason, or both load a configuration
that differs in keys alone; each has said what is reported about its file. -/
theorem load_paired [EnvFile.Reader] (h : DifferInKeys d env d' env' configPath)
    (console : Console) :
    let heardBoth (c c' : Console) : Prop :=
      c = console.warnAll ((fileWarnings d env configPath).map (·.message)) ∧
        c' = console.warnAll ((fileWarnings d' env' configPath).map (·.message))
    Paired heardBoth (fun c c' : Config Float => c.veiled = c'.veiled) heardBoth
      (load d env configPath none console) (load d' env' configPath none console) := by
  dsimp only
  obtain ⟨e, hleft, hright⟩ | ⟨all, all', hleft, hright, halike⟩ := h.settings
  · unfold load Config.fileWarnings
    rw [hleft, hright]
    exact .error ⟨rfl, rfl⟩
  · have hmerged := h.merged (.inl loud_veiled)
    unfold load Config.fileWarnings
    rw [hleft, hright]
    dsimp only at hmerged ⊢
    generalize mergeFileIfThere d _ _ = first at hmerged ⊢
    generalize mergeFileIfThere d' _ _ = second at hmerged ⊢
    cases hmerged with
    | error hstate => exact .error ⟨rfl, rfl⟩
    | @ok _ _ m m' _ hstate =>
      dsimp only
      obtain ⟨c, c', hc, hc', hveiled⟩ | ⟨wrong, hc, hc'⟩ :=
        map_eq_map (withEnvironment_veiled halike hstate.value)
      · rw [hc, hc']
        exact .ok hveiled ⟨rfl, rfl⟩
      · rw [hc, hc']
        exact .error ⟨rfl, rfl⟩

/-! ## Runs -/

theorem overridden_veiled (a : Arguments) (c : Config Float) :
    (a.overridden c).veiled = a.overridden c.veiled := by
  unfold Arguments.overridden
  dsimp only
  cases a.provider.filter (· ≠ "") <;> cases a.transpiler <;> cases a.noCache <;> rfl

/-- What was shown when some warnings were reported, latest first. -/
def shownAfter (warnings : List Warning) (shown : List Message) : List Message :=
  (warnings.map fun w => ⟨.error, "⚠ " ++ w.message⟩).reverse ++ shown

theorem warnAll_eq (c : Console) (warnings : List Warning) :
    c.warnAll (warnings.map (·.message)) = { c with shown := shownAfter warnings c.shown } := by
  induction warnings generalizing c with
  | nil => rfl
  | cons w rest ih =>
    refine (ih (c.warn w.message)).trans ?_
    simp [shownAfter, Console.warn, Console.show_]

/-- The sources at the path of a run are the same on both disks. -/
def SameSources (a : Arguments) (d d' : Disk) : Prop :=
  ∀ path, a.path = some path → Build.SourcesAlike path d d'

variable {w : Workshop Float} {a : Arguments}

/-- What the console of a run has shown once its configuration file was read. -/
def shownOfFile [EnvFile.Reader] (env : Environment) (configPath : Option String)
    (w : Workshop Float) :
    List Message :=
  shownAfter (fileWarnings w.disk env configPath) w.studio.session.console.shown

theorem configure_paired [EnvFile.Reader] (h : DifferInKeys w.disk env d' env' a.config)
    (hhollow : w.disk.hollow = d'.hollow) (hsources : SameSources a w.disk d') :
    let old := shownOfFile env a.config w
    let old' := shownOfFile env' a.config { w with disk := d' }
    Paired (Twin old old' AnyDisks) (fun r r' => r.map veiled = r'.map veiled)
      (Twin old old' (SameSources a)) (configure env a w)
      (configure env' a { w with disk := d' }) := by
  dsimp only
  have hload := load_paired h w.studio.session.console
  dsimp only at hload
  have htwin {console console' : Console}
      (hconsole : console = w.studio.session.console.warnAll
        ((fileWarnings w.disk env a.config).map (·.message)))
      (hconsole' : console' = w.studio.session.console.warnAll
        ((fileWarnings d' env' a.config).map (·.message))) :
      Twin (shownOfFile env a.config w) (shownOfFile env' a.config { w with disk := d' })
        (SameSources a) (heard w console) (heard { w with disk := d' } console') := by
    have hstudio (old : List Message) : ∀ s : Studio Float,
        Studio.veiled [] { s with session := { s.session with console :=
          { s.session.console with shown := old } } } = Studio.veiled old { s with session :=
            { s.session with console := { s.session.console with shown := [] } } } := by
      intro s
      simp [Studio.veiled, Session.behind, Console.behind]
    rw [hconsole, hconsole', warnAll_eq, warnAll_eq]
    exact ⟨⟨_, hstudio _ w.studio, hstudio _ w.studio⟩, hhollow, hsources, rfl, rfl, rfl⟩
  rw [configure_apply, configure_apply]
  dsimp only
  generalize load w.disk env a.config none w.studio.session.console = first at hload ⊢
  generalize load d' env' a.config none w.studio.session.console = second at hload ⊢
  cases hload with
  | @ok c c' _ _ hveiled hstate =>
    refine .ok ?_ (htwin hstate.1 hstate.2)
    have hover : (a.overridden c).veiled = (a.overridden c').veiled := by
      rw [overridden_veiled, hveiled, overridden_veiled]
    have hproblems : (a.overridden c).problems = (a.overridden c').problems :=
      problems_congr (congrArg Config.budget hover :) (congrArg Config.quality hover :)
        (congrArg (fun c : Config Float => c.caching.maxSize) hover :)
        (congrArg Config.project hover :)
        (congrArg (fun c : Config Float => c.tools.translator) hover :)
    rw [hproblems]
    split
    · exact congrArg Except.ok hover
    · rfl
  | @error e _ _ hstate =>
    have hafter := htwin hstate.1 hstate.2
    cases e with
    | broken fault => exact .error hafter.any
    | failed why =>
      cases why with
      | configuration wrong => exact .ok rfl hafter
      | _ => exact .error hafter.any

/-- The same comes of two runs whose keys differ. -/
theorem perform_paired [EnvFile.Reader] {c : Command} (hmeant : a.meant? = some c)
    (h : DifferInKeys w.disk env d' env' a.config) (hhollow : w.disk.hollow = d'.hollow)
    (hsources : SameSources a w.disk d') :
    let old := shownOfFile env a.config w
    let old' := shownOfFile env' a.config { w with disk := d' }
    Paired (Twin old old' AnyDisks) Eq (Twin old old' AnyDisks) (perform env a w)
      (perform env' a { w with disk := d' }) := by
  dsimp only
  unfold perform
  rw [hmeant]
  dsimp only
  refine (configure_paired h hhollow hsources).bind fun r r' hr => ?_
  obtain ⟨config, config', rfl, rfl, hveiled⟩ | ⟨wrong, rfl, rfl⟩ := map_eq_map hr
  · dsimp only
    refine .ite (save_matches hveiled) ?_
    cases hpath : a.path.filter (· ≠ "") with
    | none => exact fun w v hwv => fail_matches _ w v hwv.any
    | some path =>
      have hgiven : a.path = some path := (Option.filter_eq_some_iff.mp hpath).1
      refine .bind (matches_say (Console.writes_info _)) fun _ _ _ w v hwv => ?_
      exact work_matches hveiled c path w v { hwv with disks := hwv.disks path hgiven }
  · refine fun w v hwv => Matched.bind (matches_say (Console.writes_error _)) (fun _ _ _ =>
      .bind (.each (fun problem => matches_say (Console.writes_error _)) wrong)
        fun _ _ _ => .done rfl) w v hwv.any

/-! ## The log -/

variable {w v : Workshop Float} {old old' : List Message} {K : Disk → Disk → Prop}

/-- Two runs that did the same have shown the same if they had before. -/
theorem messages_twin (h : Twin old old' K w v) : w.messages = v.messages ↔ old = old' := by
  obtain ⟨s, hw, hv⟩ := h.studio
  have hshown := congrArg (fun s : Studio Float => s.session.console.shown) hw
  have hshown' := congrArg (fun s : Studio Float => s.session.console.shown) hv
  have hleft : w.studio.session.console.shown = s.session.console.shown ++ old :=
    (List.append_nil _).symm.trans hshown
  have hright : v.studio.session.console.shown = s.session.console.shown ++ old' :=
    (List.append_nil _).symm.trans hshown'
  rw [Workshop.messages, Workshop.messages, Console.messages, Console.messages, hleft, hright,
    List.reverse_inj, List.append_cancel_left_eq]

/-- Of a warning is known all but the table that it shows. -/
theorem Warning.veiled_eq {x y : Warning} (h : x.veiled = y.veiled) :
    x = y ∨ ∃ place given kept kept',
      x = .wrongKind place "dict" given kept ∧ y = .wrongKind place "dict" given kept' := by
  cases x with
  | wrongKind place wanted given kept =>
    cases y with
    | wrongKind place' wanted' given' kept' =>
      simp only [veiled, wrongKind.injEq] at h
      obtain ⟨rfl, rfl, rfl, hkept⟩ := h
      by_cases hdict : wanted = "dict"
      · exact .inr ⟨place, given, kept, kept', by rw [hdict], by rw [hdict]⟩
      · rw [if_neg hdict, if_neg hdict] at hkept
        exact .inl (by rw [hkept])
    | _ => cases h
  | _ =>
    cases y with
    | wrongKind place wanted given kept => cases h
    | _ => exact .inl h

/-- Warnings of which all else is the same are the same if they show the same tables. -/
theorem messages_inj {xs ys : List Warning} (h : xs.map Warning.veiled = ys.map Warning.veiled) :
    xs.map (·.message) = ys.map (·.message) ↔
      xs.filterMap Warning.table? = ys.filterMap Warning.table? := by
  induction xs generalizing ys with
  | nil =>
    obtain rfl : ys = [] := by simpa using h.symm
    exact iff_of_true rfl rfl
  | cons x xs ih =>
    cases ys with
    | nil => cases h
    | cons y ys =>
      obtain ⟨hfirst, hrest⟩ := List.cons.inj h
      rw [List.map_cons, List.map_cons, List.cons.injEq, ih hrest]
      obtain rfl | ⟨place, given, kept, kept', rfl, rfl⟩ := Warning.veiled_eq hfirst
      · rw [List.filterMap_cons, List.filterMap_cons]
        cases x.table? <;> simp
      · have htable (kept : String) :
            (Warning.wrongKind place "dict" given kept).table? = some kept := by
          simp [Warning.table?]
        have hmessage : (Warning.wrongKind place "dict" given kept).message =
            (Warning.wrongKind place "dict" given kept').message ↔ kept = kept' :=
          String.append_right_inj _
        rw [List.filterMap_cons_some (htable kept), List.filterMap_cons_some (htable kept'),
          List.cons.injEq, hmessage]

theorem shownAfter_inj {xs ys : List Warning} (h : xs.map Warning.veiled = ys.map Warning.veiled)
    (shown : List Message) : shownAfter xs shown = shownAfter ys shown ↔
      xs.filterMap Warning.table? = ys.filterMap Warning.table? := by
  have hline : Function.Injective fun text : String => (⟨.error, "⚠ " ++ text⟩ : Message) := by
    intro text text' h
    exact String.append_right_inj _ |>.mp (Message.mk.inj h).2
  rw [← messages_inj h, shownAfter, shownAfter, List.append_cancel_right_eq, List.reverse_inj,
    ← (List.map_injective_iff.mpr hline).eq_iff, List.map_map, List.map_map]
  rfl

/-- The tables of keys and of models that a run shows because something else is given for one. -/
def tablesShown [EnvFile.Reader] (d : Disk) (env : Environment) (arguments : List String) :
    List String :=
  match understand arguments with
  | .ok (.work a) =>
    if a.meant?.isSome then (fileWarnings d env a.config).filterMap Warning.table? else []
  | _ => []

theorem program_paired [EnvFile.Reader] {arguments : List String}
    (hkeys : ∀ a, understand arguments = .ok (.work a) → DifferInKeys w.disk env d' env' a.config)
    (hsources : ∀ a, understand arguments = .ok (.work a) → SameSources a w.disk d')
    (hhollow : w.disk.hollow = d'.hollow) : ∃ old old',
    Paired (Twin old old' AnyDisks) Eq (Twin old old' AnyDisks) (program env arguments w)
      (program env' arguments { w with disk := d' }) ∧
    (old = old' ↔ tablesShown w.disk env arguments = tablesShown d' env' arguments) ∧
    ((∀ a, understand arguments = .ok (.work a) →
      (fileEntries w.disk (pathOr w.disk a.config fileName)).Pairwise KeysBefore) → old = old') := by
  have hsame : Twin [] [] AnyDisks w { w with disk := d' } :=
    ⟨⟨w.studio, rfl, rfl⟩, hhollow, trivial, rfl, rfl, rfl⟩
  have hshow (stream : Stream) (text : String) : Console.Writes (·.show_ stream text) :=
    fun _ _ => rfl
  have hdismiss (stream : Stream) (text : String) (code : Nat) :
      Matches (R := Float) [] [] AnyDisks Eq AnyDisks
        (Workshop.say (·.show_ stream text) >>= fun _ => Run.done (Ending.dismissed code))
        (Workshop.say (·.show_ stream text) >>= fun _ => Run.done (Ending.dismissed code)) :=
    .bind (matches_say (hshow stream text)) fun _ _ _ => .done rfl
  unfold program tablesShown
  cases hunderstood : understand arguments with
  | error problem => exact ⟨[], [], hdismiss _ _ _ _ _ hsame, by simp, by simp⟩
  | ok wish =>
    cases wish with
    | help => exact ⟨[], [], hdismiss _ _ _ _ _ hsame, by simp, by simp⟩
    | version => exact ⟨[], [], hdismiss _ _ _ _ _ hsame, by simp, by simp⟩
    | work a =>
      dsimp only
      cases hmeant : a.meant? with
      | none =>
        refine ⟨[], [], ?_, by simp, by simp⟩
        unfold perform
        rw [hmeant]
        exact fail_matches _ _ _ hsame
      | some c =>
        have hdiffer := hkeys a hunderstood
        refine ⟨_, _, perform_paired hmeant hdiffer hhollow (hsources a hunderstood), ?_, ?_⟩
        · rw [Option.isSome_some, if_pos rfl, if_pos rfl]
          exact shownAfter_inj (hdiffer.fileWarnings (.inl loud_veiled)) _
        · intro hpairs
          have hwarnings : (fileWarnings w.disk env a.config).map id =
              (Config.fileWarnings d' env' a.config).map id :=
            hdiffer.fileWarnings (.inr (hpairs a rfl))
          rw [List.map_id, List.map_id] at hwarnings
          rw [shownOfFile, shownOfFile, hwarnings]

/-- Runs whose keys differ end in the same way. Their logs are the same if the same tables are
shown in them because something else is given for one, and only then. None with keys is shown
unless, in the configuration file, something else is given for the table of keys after keys were
given. -/
theorem log_of_keys [EnvFile.Reader] {arguments : List String}
    (hkeys : ∀ a, understand arguments = .ok (.work a) → DifferInKeys w.disk env d' env' a.config)
    (hsources : ∀ a, understand arguments = .ok (.work a) → SameSources a w.disk d')
    (hhollow : w.disk.hollow = d'.hollow) :
    (program env arguments w).1 = (program env' arguments { w with disk := d' }).1 ∧
    ((program env arguments w).2.messages =
        (program env' arguments { w with disk := d' }).2.messages ↔
      tablesShown w.disk env arguments = tablesShown d' env' arguments) ∧
    ((∀ a, understand arguments = .ok (.work a) →
        (fileEntries w.disk (pathOr w.disk a.config fileName)).Pairwise KeysBefore) →
      (program env arguments w).2.messages =
        (program env' arguments { w with disk := d' }).2.messages) := by
  obtain ⟨old, old', hpaired, htables, hpairs⟩ := program_paired hkeys hsources hhollow
  generalize program env arguments w = first at hpaired ⊢
  generalize program env' arguments { w with disk := d' } = second at hpaired ⊢
  cases hpaired with
  | ok hvalue hstate =>
    refine ⟨congrArg Except.ok hvalue, (messages_twin hstate).trans htables, fun h => ?_⟩
    exact (messages_twin hstate).mpr (hpairs h)
  | error hstate =>
    refine ⟨rfl, (messages_twin hstate).trans htables, fun h => ?_⟩
    exact (messages_twin hstate).mpr (hpairs h)

/-! ## Keys that are shown -/

/-- A configuration file that gives a number for keys after it gave some. -/
def telling (key : String) : Json :=
  .obj [("providers", .obj [("apiKeys", .obj [("openai", .str key)]), ("api_keys", .int 5)])]

/-- A disk with a configuration file, and with an environment file that takes one key for
another. -/
def notedDisk (j : Json) : Disk where
  root := .folder
    [(envFileName, .file lending.toUTF8 FileTree.fileMode),
     (fileName, .file j.document.toUTF8 FileTree.fileMode)] FileTree.folderMode
  here := []

/-- Where this disk is, with nothing else. -/
def notedWorkshop (j : Json) : Workshop Float where
  studio := { config := initial (notedDisk j), session := { clock := 0, today := "" } }
  disk := notedDisk j
  tools := fun _ => .cannotStart ""

theorem hollow_noted (j j' : Json) : (notedDisk j).hollow = (notedDisk j').hollow := by
  simp only [Disk.hollow, notedDisk, FileTree.hollow_folder, Entries.mapped, Entries.mappedBy,
    List.map_cons, List.map_nil, FileTree.hollow]

theorem readText_noted (j : Json) : (notedDisk j).readText keyedPlace = .ok j.document := by
  have hwritten : Disk.writeText keyedPlace j.document lendingDisk = (.ok (), notedDisk j) := rfl
  exact (Disk.readText_writeText unlocked_lendingDisk hwritten
    fun hmem => ne_return_of_mem_document hmem rfl).1

theorem readable_telling (key : String) : Readable depthLimit (telling key) := by
  show Readable (entryRoom + 3) (telling key)
  refine .obj (by simp [Entries.names]) ?_
  simp only [List.forall_mem_cons, List.not_mem_nil, false_imp_iff, implies_true, and_true]
  refine .obj (by simp [Entries.names]) ?_
  simp only [List.forall_mem_cons, List.not_mem_nil, false_imp_iff, implies_true, and_true]
  refine ⟨.obj (by simp [Entries.names]) ?_, .int (by decide)⟩
  simp only [List.forall_mem_cons, List.not_mem_nil, false_imp_iff, implies_true, and_true]
  exact .str _ _

theorem alikeUpToKeys_lent : AlikeUpToKeys (lent "one") (lent "two") :=
  ⟨alikeButKeys_lent, by decide⟩

theorem differInKeys_noted {j j' : Json} (hj : Readable depthLimit j) (hj' : Readable depthLimit j')
    (henv : environment (notedDisk j) (keyedVariables "one") none = .ok (lent "one"))
    (henv' : environment (notedDisk j') (keyedVariables "two") none = .ok (lent "two"))
    (h : veiledDocument j = veiledDocument j') :
    DifferInKeys (notedDisk j) (keyedVariables "one") (notedDisk j') (keyedVariables "two")
      none where
  here := rfl
  file := .inr ⟨_, _, _, _, readText_noted j, readText_noted j', read_document hj,
    read_document hj', h⟩
  settings := .inr ⟨_, _, henv, henv', alikeUpToKeys_lent⟩

theorem tablesShown_telling {key : String}
    (henv : environment (notedDisk (telling key)) (keyedVariables key) none = .ok (lent key)) :
    tablesShown (notedDisk (telling key)) (keyedVariables key) ["--save-config"] =
      [(Json.obj [("openai", .str key)]).shown] := by
  have htext := readText_noted (telling key)
  have hread := read_document (readable_telling key)
  have hmerge : mergeFileIfThere (notedDisk (telling key)) keyedPlace =
      mergeDocument keyedPlace.toString (telling key) :=
    mergeFileIfThere_of_text (has_of_readText htext) htext hread
  have hwarnings : fileWarnings (notedDisk (telling key)) (keyedVariables key) none =
      [.wrongKind "providers.api_keys" "dict" "int" (Json.obj [("openai", .str key)]).shown] := by
    unfold fileWarnings
    rw [henv]
    dsimp only
    rw [show pathOr (notedDisk (telling key)) none fileName = keyedPlace from rfl, hmerge]
    rfl
  unfold tablesShown
  rw [understand_save]
  dsimp only
  rw [hwarnings]
  rfl

/-- Two users with other keys are shown the same, unless one of their configuration files gives
something else for keys after it gave some: then they are shown their keys. -/
theorem log_of_noted :
    (program (keyedVariables "one") ["--save-config"] (notedWorkshop (keyed "one"))).2.messages =
      (program (keyedVariables "two") ["--save-config"]
        { notedWorkshop (keyed "one") with disk := notedDisk (keyed "two") }).2.messages ∧
    (program (keyedVariables "one") ["--save-config"] (notedWorkshop (telling "one"))).2.messages ≠
      (program (keyedVariables "two") ["--save-config"]
        { notedWorkshop (telling "one") with disk := notedDisk (telling "two") }).2.messages := by
  have hunderstood {a : Arguments} (ha : understand ["--save-config"] = .ok (.work a)) :
      a = { saveConfig := true } := by
    rw [understand_save] at ha
    cases ha
    rfl
  have hkeys {j j' : Json} (h : DifferInKeys (notedDisk j) (keyedVariables "one") (notedDisk j')
      (keyedVariables "two") none) (a : Arguments)
      (ha : understand ["--save-config"] = .ok (.work a)) :
      DifferInKeys (notedDisk j) (keyedVariables "one") (notedDisk j') (keyedVariables "two")
        a.config := by
    rw [hunderstood ha]
    exact h
  have hsources (d d' : Disk) (a : Arguments) (ha : understand ["--save-config"] = .ok (.work a)) :
      SameSources a d d' := by
    rw [hunderstood ha]
    intro path hpath
    cases hpath
  have hkeyed := differInKeys_noted (readable_keyed "one") (readable_keyed "two")
    (environment_lent rfl rfl) (environment_lent rfl rfl) rfl
  have henv : environment (notedDisk (telling "one")) (keyedVariables "one") none =
      .ok (lent "one") := environment_lent rfl rfl
  have henv' : environment (notedDisk (telling "two")) (keyedVariables "two") none =
      .ok (lent "two") := environment_lent rfl rfl
  have htelling :=
    differInKeys_noted (readable_telling "one") (readable_telling "two") henv henv' rfl
  obtain ⟨-, -, hsame⟩ := log_of_keys (w := notedWorkshop (keyed "one")) (hkeys hkeyed)
    (hsources _ _) (hollow_noted _ _)
  obtain ⟨-, htables, -⟩ := log_of_keys (w := notedWorkshop (telling "one")) (hkeys htelling)
    (hsources _ _) (hollow_noted _ _)
  refine ⟨hsame fun a ha => ?_, fun hmessages => ?_⟩
  · rw [hunderstood ha]
    have hentries :
        fileEntries (notedDisk (keyed "one")) keyedPlace = documentEntries (keyed "one") :=
      fileEntries_of_text (readText_noted _) (read_document (readable_keyed "one"))
    show (fileEntries (notedDisk (keyed "one")) keyedPlace).Pairwise KeysBefore
    rw [hentries]
    exact List.pairwise_singleton _ _
  · have hshown := htables.mp hmessages
    rw [show (notedWorkshop (telling "one")).disk = notedDisk (telling "one") from rfl,
      tablesShown_telling henv, tablesShown_telling henv'] at hshown
    exact absurd hshown (by decide)

end Cartridge.Config
