import Cartridge.CommandLine.Program
import Cartridge.Proofs.Config.Secrets
import Cartridge.Proofs.Project.Veiled

/-!
# Workshops that differ in keys

Every step of the program comes to the same in two workshops that differ in the keys of providers,
in what was said before, and in what files hold: it ends in the same way, says the same, and calls
the same tools, and the workshops still differ in this alone. Only a source has to be the same on
both disks for as long as it is still to be read.

* `Workshop.Twin`: workshops that differ in this alone.
* `Workshop.matches_inStudio`, `Workshop.matches_look`, `Workshop.matches_change`,
  `Workshop.matches_run`: single steps.
* `Build.transpile_matches`, `Build.compileAll_matches`: the steps from a source to an image.
* `CommandLine.run_matches`, `CommandLine.work_matches`, `CommandLine.save_matches`: what a run does
  once it has its configuration.
-/

namespace Cartridge

open Run

variable {R α : Type} {old old' : List Message} {K K' : Disk → Disk → Prop}

namespace Workshop

/-- Two workshops that differ in the keys of providers, in what was said before and in what files
hold alone; the disks are in a relation. -/
structure Twin (old old' : List Message) (K : Disk → Disk → Prop) (w v : Workshop R) : Prop where
  studio : ∃ s : Studio R, w.studio.veiled [] = s.veiled old ∧ v.studio.veiled [] = s.veiled old'
  hollow : w.disk.hollow = v.disk.hollow
  disks : K w.disk v.disk
  onWindows : w.onWindows = v.onWindows
  tools : w.tools = v.tools
  toolCalls : w.toolCalls = v.toolCalls

/-- Disks that may be any. -/
def AnyDisks (_ _ : Disk) : Prop := True

/-- A task comes to the same in two workshops that differ in keys, and they still do. -/
abbrev Matches (old old' : List Message) (K : Disk → Disk → Prop) (A : α → α → Prop)
    (K' : Disk → Disk → Prop) (x y : Task R α) : Prop :=
  Matched (Twin old old' AnyDisks) (Twin old old' K) A (Twin old old' K') x y

namespace Twin

variable {w v : Workshop R}

theorem any (h : Twin old old' K w v) : Twin old old' AnyDisks w v := { h with disks := trivial }

theorem config (h : Twin old old' K w v) : w.studio.config.veiled = v.studio.config.veiled := by
  obtain ⟨s, hw, hv⟩ := h.studio
  exact (congrArg Studio.config hw).trans (congrArg Studio.config hv).symm

end Twin

theorem matches_stop (why : Stop R) {A : α → α → Prop} :
    Matches old old' K A K' (Run.stop why : Task R α) (Run.stop why) :=
  .stop (fun _ _ h => h.any) why

/-! ## Steps -/

/-- What is done in a studio and takes no account of keys. -/
theorem matches_inStudio {g : α → α} {task : Studio.Task R α}
    (h : ∀ old, Carried (Studio.veiled old) g task task) :
    Matches old old' K (fun a b => g a = g b) K (inStudio task) (inStudio task) := by
  intro w v hwv
  obtain ⟨s, hw, hv⟩ := hwv.studio
  have hleft : ((task w.studio).1.map g, (task w.studio).2.veiled []) =
      ((task s).1.map g, (task s).2.veiled old) := by
    rw [← h [] w.studio, ← h old s, hw]
  have hright : ((task v.studio).1.map g, (task v.studio).2.veiled []) =
      ((task s).1.map g, (task s).2.veiled old') := by
    rw [← h [] v.studio, ← h old' s, hv]
  have hafter : Twin old old' K ((inStudio task w).2) ((inStudio task v).2) :=
    { hwv with studio := ⟨(task s).2, congrArg Prod.snd hleft, congrArg Prod.snd hright⟩ }
  have hresult : (task w.studio).1.map g = (task v.studio).1.map g :=
    (congrArg Prod.fst hleft).trans (congrArg Prod.fst hright).symm
  show Paired _ _ _ ((task w.studio).1, _) ((task v.studio).1, _)
  obtain ⟨a, b, hfirst, hsecond, hab⟩ | ⟨e, hfirst, hsecond⟩ := map_eq_map hresult
  · rw [hfirst, hsecond]
    exact .ok hab hafter
  · rw [hfirst, hsecond]
    exact .error hafter.any

theorem matches_say {write : Console → Console} (h : Console.Writes write) :
    Matches (R := R) old old' K Eq K (say write) (say write) :=
  matches_inStudio fun _ => Studio.say_veils h

/-- What is read from disks and comes to the same. -/
theorem matches_look {read : Disk → Except Fault α}
    (h : ∀ d d' : Disk, d.hollow = d'.hollow → K d d' → read d = read d') :
    Matches (R := R) old old' K Eq K (look read) (look read) := by
  intro w v hwv
  unfold look
  rw [h _ _ hwv.hollow hwv.disks]
  cases read v.disk with
  | ok a => exact .ok rfl hwv
  | error e => exact .error hwv.any

/-- What is seen of disks without reading files. -/
theorem matches_see {read : Disk → Except Fault α} (h : ∀ d, read d.hollow = read d) :
    Matches (R := R) old old' K Eq K (look read) (look read) :=
  matches_look fun _ _ hhollow _ => Disk.congr_of_hollow h hhollow

/-- What is done to disks and does not depend on what files hold. -/
theorem matches_disk {task : Run Disk (Stop R) α} (h : Alike Disk.hollow task task) :
    Matches old old' K Eq AnyDisks
      (Run.on (·.disk) (fun disk (w : Workshop R) => { w with disk }) task)
      (Run.on (·.disk) (fun disk w => { w with disk }) task) := by
  intro w v hwv
  obtain ⟨hresult, hhollow⟩ := h _ _ hwv.hollow
  have hafter : Twin old old' AnyDisks { w with disk := (task w.disk).2 }
      { v with disk := (task v.disk).2 } := { hwv with hollow := hhollow, disks := trivial }
  show Paired _ _ _ ((task w.disk).1, _) ((task v.disk).1, _)
  rw [← hresult]
  cases (task w.disk).1 with
  | ok a => exact .ok rfl hafter
  | error e => exact .error hafter

theorem matches_change {task : Disk.Task α} (h : Disk.Blind task) :
    Matches (R := R) old old' K Eq AnyDisks (change task) (change task) :=
  matches_disk (h.mapError _)

/-! ## Tools -/

theorem matches_call (command : List String) (directory : Path) :
    Matches (R := R) old old' K Eq K (call command directory) (call command directory) := by
  intro w v hwv
  have hcalls := congrArg (⟨command, directory.toString⟩ :: ·) hwv.toolCalls
  refine .ok ?_ { hwv with toolCalls := hcalls }
  rw [hwv.tools, hwv.toolCalls]

theorem alike_make (directory : Path) (tool : String) (change : Change) :
    Alike Disk.hollow (change.make directory tool) (change.make directory tool) := by
  cases change with
  | write name bytes => exact (Disk.blind_write (directory.child name) bytes).mapError _
  | put place new =>
    refine .update fun d d' h => ?_
    rw [Disk.hollow_putAt, Disk.hollow_putAt, h]
  | erase place =>
    refine .update fun d d' h => ?_
    rw [Disk.hollow_eraseAt, Disk.hollow_eraseAt, h]

/-- The changes of a tool are made on both disks. -/
theorem alike_makeAll (directory : Path) (tool : String) (changes : List Change) :
    Alike Disk.hollow (Change.makeAll directory tool changes)
      (Change.makeAll directory tool changes) := by
  induction changes with
  | nil => exact .ofExcept (.ok ())
  | cons change rest ih => exact .bind (alike_make directory tool change) fun _ => ih

/-- A tool does the same whatever files hold. -/
theorem matches_run (tool : String) (arguments : List String) (directory : Path) :
    Matches (R := R) old old' K Eq AnyDisks (run tool arguments directory)
      (run tool arguments directory) := by
  unfold run
  refine .bind (matches_call _ _) fun outcome outcome' houtcome => ?_
  subst houtcome
  cases outcome with
  | cannotStart reason => exact matches_stop _
  | worked changes result =>
    refine .bind (matches_disk ((alike_makeAll directory tool changes).mapError _)) fun _ _ _ => ?_
    cases result with
    | error fault => exact matches_stop _
    | ok ended =>
      obtain ⟨code, complaint⟩ := ended
      dsimp only
      cases failureOf? tool code complaint with
      | some why => exact matches_stop _
      | none => exact .done rfl

end Workshop

open Workshop

namespace Project

theorem writeOutput_matches (folder : Path) (given : Entries String) (o : Output) :
    Matches (R := R) old old' K Eq AnyDisks (writeOutput folder given o)
      (writeOutput folder given o) := by
  unfold writeOutput
  refine .bind (matches_say (Console.writes_warnAll _)) fun _ _ _ => ?_
  refine .bind (matches_change (Disk.blind_writeText _ _)) fun _ _ _ => ?_
  exact .bind (matches_say (Console.writes_info _)) fun _ _ _ => .done rfl

theorem writeOutputs_matches (folder : Path) (given : Entries String) (outputs : List Output) :
    Matches (R := R) old old' AnyDisks Eq AnyDisks (writeOutputs folder given outputs)
      (writeOutputs folder given outputs) := by
  induction outputs generalizing given with
  | nil => exact .done rfl
  | cons o rest ih =>
    rw [writeOutputs]
    refine .bind (writeOutput_matches _ _ _) fun path path' hpath => ?_
    refine .bind (ih _) fun paths paths' hpaths => .done ?_
    rw [hpath, hpaths]

theorem writeResult_matches (r : ProjectResult R) (folder : Path) :
    Matches old old' K Eq AnyDisks (writeResult r folder) (writeResult r folder) := by
  unfold writeResult
  refine .bind (matches_change (Disk.blind_makeFolders _)) fun _ _ _ => .get_bind fun w v hwv => ?_
  have hmodular : w.studio.config.project.modular = v.studio.config.project.modular :=
    (congrArg (fun c : Config R => c.project.modular) hwv.config :)
  rw [hmodular]
  refine .bind (writeOutputs_matches _ _ _) fun paths paths' hpaths => ?_
  subst hpaths
  exact .bind (matches_change (Disk.blind_writeText _ _)) fun _ _ _ => .done rfl

end Project

namespace Build

theorem translate_matches (source : Path) :
    Matches (R := R) old old' K Eq AnyDisks (translate source) (translate source) := by
  unfold translate
  refine .bind (matches_say (Console.writes_start _)) fun _ _ _ => .get_bind fun w v hwv => ?_
  have htool : w.studio.config.tools.ts2cCommand = v.studio.config.tools.ts2cCommand :=
    (congrArg (fun c : Config R => c.tools.ts2cCommand) hwv.config :)
  rw [htool]
  refine .bind (matches_run _ _ _).attempt fun r r' hr => ?_
  subst hr
  split
  · exact matches_say (Console.writes_success _)
  · exact matches_stop _
  · exact matches_stop _

/-! ## From C to an image -/

theorem makeLibrary_matches :
    Matches (R := R) old old' K Eq AnyDisks makeLibrary makeLibrary := by
  unfold makeLibrary
  refine .get_bind fun w v hwv => ?_
  have hlibrary : library w.studio.config = library v.studio.config :=
    (congrArg (fun c : Config R => library c) hwv.config :)
  dsimp only
  rw [hlibrary]
  refine .bind (matches_see (·.hasFolder_hollow _)) fun isFolder _ hfolder => ?_
  subst hfolder
  refine .ite ?_ (matches_stop _)
  refine .bind (matches_say (Console.writes_start _)) fun _ _ _ => ?_
  refine .bind (matches_run _ _ _) fun _ _ _ => ?_
  exact matches_say (Console.writes_success _)

theorem artifacts_hollow (source : Path) (suffix : String) (d : Disk) :
    artifacts source suffix d.hollow = artifacts source suffix d := by
  unfold artifacts
  simp only [d.hasFolder_hollow, d.has_hollow, d.endingWith_hollow]

theorem folderOf_hollow (source : Path) (d : Disk) :
    folderOf source d.hollow = folderOf source d := by
  unfold folderOf
  rw [d.hasFolder_hollow]

theorem imageName_hollow (source : Path) (d : Disk) :
    imageName source d.hollow = imageName source d := by
  unfold imageName
  rw [d.hasFolder_hollow]
  rfl

theorem script_twin {w v : Workshop R} (h : Twin old old' K w v) (name : String) :
    script w name = script v name := by
  have hlibrary : library w.studio.config = library v.studio.config :=
    (congrArg (fun c : Config R => library c) h.config :)
  unfold script
  rw [hlibrary, h.onWindows]

theorem compile_matches (path : String) :
    Matches (R := R) old old' AnyDisks Eq AnyDisks (compile path) (compile path) := by
  unfold compile
  refine .get_bind fun w v hwv => ?_
  rw [script_twin hwv]
  refine .bind (matches_see (artifacts_hollow _ _)) fun files _ hfiles => ?_
  subst hfiles
  refine .ite (matches_stop _) ?_
  refine .bind (matches_see (folderOf_hollow _)) fun folder _ hfolder => ?_
  subst hfolder
  refine .bind (matches_say (Console.writes_start _)) fun _ _ _ => ?_
  refine .bind (.each (fun file => matches_run _ _ _) _) fun _ _ _ => ?_
  exact matches_say (Console.writes_success _)

theorem link_matches (path : String) :
    Matches (R := R) old old' AnyDisks Eq AnyDisks (link path) (link path) := by
  unfold link
  refine .get_bind fun w v hwv => ?_
  rw [script_twin hwv]
  refine .bind (matches_see (artifacts_hollow _ _)) fun files _ hfiles => ?_
  subst hfiles
  refine .ite (matches_stop _) ?_
  refine .bind (matches_see (folderOf_hollow _)) fun folder _ hfolder => ?_
  subst hfolder
  refine .bind (matches_see (imageName_hollow _)) fun name _ hname => ?_
  subst hname
  refine .bind (matches_say (Console.writes_start _)) fun _ _ _ => ?_
  refine .bind (matches_run _ _ _) fun _ _ _ => ?_
  exact matches_say (Console.writes_success _)

theorem makeImage_matches (path : String) :
    Matches (R := R) old old' K Eq AnyDisks (makeImage path) (makeImage path) := by
  unfold makeImage
  refine .get_bind fun w v hwv => ?_
  rw [script_twin hwv]
  refine .bind (matches_see (folderOf_hollow _)) fun folder _ hfolder => ?_
  subst hfolder
  refine .bind (matches_see (imageName_hollow _)) fun name _ hname => ?_
  subst hname
  refine .bind (matches_see (·.has_hollow _)) fun isThere _ hthere => ?_
  subst hthere
  refine .ite ?_ (matches_stop _)
  refine .bind (matches_say (Console.writes_start _)) fun _ _ _ => ?_
  refine .bind (matches_run _ _ _) fun _ _ _ => ?_
  exact matches_say (Console.writes_success _)

theorem compileAll_matches (path : String) :
    Matches (R := R) old old' K Eq AnyDisks (compileAll path) (compileAll path) :=
  .bind makeLibrary_matches fun _ _ _ => .bind (compile_matches path) fun _ _ _ =>
    .bind (link_matches path) fun _ _ _ => makeImage_matches path

end Build

/-! ## From a source to C -/

variable [Quantity R] [Inhabited R]

theorem Project.convertAt_matches {path : String} {o : Project.Settings}
    (hscan : ∀ rules d d', K d d' → Project.scan rules d (Path.ofString path) =
      Project.scan rules d' (Path.ofString path)) :
    Matches (R := R) old old' K Eq K (Project.convertAt path o)
      (Project.convertAt path o) := by
  unfold Project.convertAt
  refine .get_bind fun w v hwv => ?_
  have hrules : w.studio.config.project = v.studio.config.project :=
    (congrArg (fun c : Config R => c.project) hwv.config :)
  rw [hrules, hscan _ _ _ hwv.disks]
  exact matches_inStudio fun _ => Project.convert_veils (fun r => Workbench.transpile_veils r) _ _ _

namespace Build

/-- What is read as source is the same on both disks. -/
structure SourcesAlike (path : String) (d d' : Disk) : Prop where
  text : d.readText (Path.ofString path) = d'.readText (Path.ofString path)
  project : ∀ rules, Project.scan rules d (Path.ofString (Path.ofString path).toString) =
    Project.scan rules d' (Path.ofString (Path.ofString path).toString)

theorem report_writes (r : Conversion R) (output : Path) : Console.Writes (report r output) := by
  have hfirst := (Console.writes_success "🎉 AI transpilation completed!").andThen
    (Console.writes_info ("Provider: " ++ r.provider ++ if r.fromCache then " (cached)" else ""))
  exact (((hfirst.andThen (Console.writes_info _)).andThen (Console.writes_info _)).andThen
    (Console.writes_warnAll _)).andThen (Console.writes_info _)

theorem convertFile_matches {path : String} :
    Matches (R := R) old old' (SourcesAlike path) Eq AnyDisks (convertFile (Path.ofString path))
      (convertFile (Path.ofString path)) := by
  unfold convertFile
  refine .bind (matches_say (Console.writes_start _)) fun _ _ _ => ?_
  refine .bind (matches_inStudio fun _ => Studio.ready_veils) fun _ _ _ => ?_
  refine .bind (matches_look fun _ _ _ h => h.text) fun text text' htext => ?_
  subst htext
  refine .get_bind fun w v hwv => ?_
  have htarget : w.studio.config.target = v.studio.config.target :=
    (congrArg (fun c : Config R => c.target) hwv.config :)
  rw [htarget]
  refine .bind (matches_inStudio fun _ => Studio.work_veils (Workbench.transpile_veils _))
    fun r r' hr => ?_
  obtain rfl : r = r' := hr
  refine .bind (matches_change (Disk.blind_writeText _ _)) fun _ _ _ => ?_
  exact matches_say (report_writes r _)

theorem convertFolder_matches {path : String} :
    Matches (R := R) old old' (SourcesAlike path) Eq AnyDisks (convertFolder (Path.ofString path))
      (convertFolder (Path.ofString path)) := by
  unfold convertFolder
  refine .get_bind fun w v hwv => ?_
  have htranslator : w.studio.config.tools.translator = v.studio.config.tools.translator :=
    (congrArg (fun c : Config R => c.tools.translator) hwv.config :)
  have htarget : w.studio.config.target = v.studio.config.target :=
    (congrArg (fun c : Config R => c.target) hwv.config :)
  dsimp only
  rw [htranslator, htarget]
  refine .ite (matches_stop _) ?_
  refine .bind (matches_inStudio fun _ => Studio.ready_veils) fun _ _ _ => ?_
  refine .bind (Project.convertAt_matches fun rules _ _ h => h.project rules) fun r r' hr => ?_
  subst hr
  refine .bind (Project.writeResult_matches r _) fun _ _ _ => ?_
  exact matches_say (Console.writes_warnAll _)

theorem transpile_matches (path : String) :
    Matches (R := R) old old' (SourcesAlike path) Eq AnyDisks (transpile path)
      (transpile path) := by
  unfold transpile
  refine .bind (matches_see (·.hasFolder_hollow _)) fun isFolder _ hfolder => ?_
  subst hfolder
  refine .ite convertFolder_matches ?_
  refine .bind (matches_see (·.has_hollow _)) fun isThere _ hthere => ?_
  subst hthere
  refine .ite (matches_stop _) (.get_bind fun w v hwv => ?_)
  have htranslator : w.studio.config.tools.translator = v.studio.config.tools.translator :=
    (congrArg (fun c : Config R => c.tools.translator) hwv.config :)
  rw [htranslator]
  exact .ite (translate_matches _) convertFile_matches

theorem all_matches (path : String) :
    Matches (R := R) old old' (SourcesAlike path) Eq AnyDisks (all path) (all path) :=
  .bind (transpile_matches path) fun _ _ _ => compileAll_matches path

end Build

namespace Config

theorem save_congr {c c' : Config Float} (hjson : c.toJson = c'.toJson) (hpath : c.path = c'.path) :
    c.save none = c'.save none := by
  unfold save savePath
  rw [hjson, hpath]

/-- What is saved, and where, does not depend on what files hold. -/
theorem blind_save (c : Config Float) (given : Option String) : Disk.Blind (c.save given) := by
  intro d d' h
  have hread (d : Disk) : savePath d.hollow c given = savePath d c given := rfl
  have hpath : savePath d c given = savePath d' c given := by rw [← hread d, h, hread d']
  have hsave : Disk.Blind (Disk.writeText (savePath d c given) c.toJson.document >>= fun _ =>
      Run.done (savePath d c given)) :=
    Run.Alike.bind (Disk.blind_writeText _ _) fun _ => Run.Alike.ofExcept (.ok _)
  have halike := hsave d d' h
  refine ⟨halike.1.trans ?_, halike.2.trans ?_⟩
  all_goals
    rw [hpath]
    rfl

end Config

namespace CommandLine

theorem run_matches (c : Command) (path : String) :
    Matches old old' (Build.SourcesAlike path) Eq AnyDisks (c.run path) (c.run path) := by
  cases c with
  | all => exact Build.all_matches path
  | transpile => exact Build.transpile_matches path
  | compile => exact Build.compileAll_matches path
  | build => exact Build.makeImage_matches path

theorem fail_matches (text : String) : Matches old old' K Eq K (fail text) (fail text) :=
  .bind (matches_say (Console.writes_error _)) fun _ _ _ => .done rfl

/-- With configurations that differ in keys the same comes of a command. -/
theorem work_matches {config config' : Config Float} (hconfig : config.veiled = config'.veiled)
    (c : Command) (path : String) :
    Matches old old' (Build.SourcesAlike path) Eq AnyDisks (work config c path)
      (work config' c path) := by
  have hupdate : Matches old old' (Build.SourcesAlike path) Eq (Build.SourcesAlike path)
      (Run.update fun w => { w with studio := { w.studio with config, transpiler? := none } })
      (Run.update fun w =>
        { w with studio := { w.studio with config := config', transpiler? := none } }) := by
    intro w v hwv
    obtain ⟨s, hw, hv⟩ := hwv.studio
    refine .ok rfl { hwv with studio := ⟨{ s with config, transpiler? := none }, ?_, ?_⟩ }
    · exact congrArg (fun s : Studio Float =>
        { s with config := config.veiled, transpiler? := none }) hw
    · have hkept := congrArg (fun s : Studio Float =>
        { s with config := config'.veiled, transpiler? := none }) hv
      exact hkept.trans (congrArg (fun c : Config Float =>
        { config := c, session := s.session.behind old' : Studio Float }) hconfig.symm)
  unfold work
  refine .bind hupdate fun _ _ _ => .bind (run_matches c path).attempt fun r r' hr => ?_
  subst hr
  match r with
  | .error (.broken e) => exact matches_stop _
  | .error (.failed why) =>
    exact .bind (matches_say Console.writes_stop) fun _ _ _ => fail_matches _
  | .ok () =>
    refine .ite (.bind (matches_say (Console.writes_success _)) fun _ _ _ => .done rfl) (.done rfl)

/-- With configurations that differ in keys the same is saved. -/
theorem save_matches {c c' : Config Float} (hconfig : c.veiled = c'.veiled) :
    Matches old old' K Eq AnyDisks (save c) (save c') := by
  have hsame : Config.withoutKeys c = Config.withoutKeys c' :=
    (congrArg Config.withoutKeys hconfig :)
  obtain ⟨hjson, hpath⟩ := Config.written_alike hsame
  unfold save
  rw [Config.save_congr hjson hpath]
  refine .bind (matches_change (c'.blind_save none)) fun file _ hfile => ?_
  subst hfile
  exact .bind (matches_say (Console.writes_success _)) fun _ _ _ => .done rfl

end CommandLine

end Cartridge
