import Cartridge.CommandLine.Program
import Cartridge.Proofs.Toolchain.Tools

/-!
# What a build leaves

A build trusts its tools: a tool that ends with code zero is taken to have done its work, and only
the next step looks for the file that it was to leave. So in a build that ends the C file was there
before it was compiled, the object file before it was linked, and the linked file before the image
was made. If the tools only write files these three are there at the end. After the last step nobody
looks. The image is there only if it was there before or if some tool left it.

* `not_same_place`: the C file of a source and its image are different files.
* `has_of_compile`, `has_of_link`, `has_of_makeImage`: what each step looks for.
* `artifacts_of_all`: what a build that ends has left.
* `work_finished_iff`: a build that ends is reported as one that made an image.
-/

namespace Cartridge

open Run Workshop

namespace Disk

variable {d : Disk} {p : Path} {place : List String}

/-- The C file of a source and its image are different files. -/
theorem not_same_place (h : d.locate (p.withSuffix ".c") = .ok place) :
    d.locate (p.withSuffix ".gb") ≠ .ok place :=
  locate_ne_of_last rfl rfl (Path.append_ne_dots _ rfl (by decide))
    (Path.append_ne_dots _ rfl (by decide)) (Path.append_ne_append _ _ _ _ rfl rfl (by decide)) h

end Disk

namespace Build

variable {R : Type} {w w' : Workshop R} {d : Disk} {source : Path} {suffix : String}

open Disk

/-- The folder of the artifacts of a source is the source or the folder that it is in. -/
theorem normal_of_folderOf (hsource : Path.Normal source) {folder : Path}
    (h : folderOf source d = .ok folder) : Path.Normal folder := by
  unfold folderOf at h
  cases hfolder : d.hasFolder source with
  | error e =>
    rw [hfolder] at h
    cases h
  | ok isFolder =>
    rw [hfolder] at h
    cases isFolder with
    | true =>
      cases h
      exact hsource
    | false =>
      cases h
      exact hsource.parent

theorem folderOf_of_noFolder (h : d.hasFolder source = .ok false) :
    folderOf source d = .ok source.parent := by
  rw [folderOf, h]
  rfl

theorem imageName_of_noFolder (h : d.hasFolder source = .ok false) :
    imageName source d = .ok source.stem := by
  rw [imageName, h]
  rfl

/-- The artifact of a source that is no folder is looked for under its name. -/
theorem artifacts_of_noFolder (h : d.hasFolder source = .ok false) (suffix : String) :
    artifacts source suffix d = (d.has (source.withSuffix suffix)).map fun isThere =>
      if isThere then [source.withSuffix suffix] else [] := by
  rw [artifacts, h]
  show (d.has (source.withSuffix suffix) >>= fun isThere => pure _) = _
  cases d.has (source.withSuffix suffix) <;> rfl

theorem has_of_artifacts (h : d.hasFolder source = .ok false) {files : List Path}
    (hfiles : artifacts source suffix d = .ok files) (hne : files ≠ []) :
    d.has (source.withSuffix suffix) = .ok true := by
  rw [artifacts_of_noFolder h] at hfiles
  cases hhas : d.has (source.withSuffix suffix) with
  | error e =>
    rw [hhas] at hfiles
    cases hfiles
  | ok isThere =>
    rw [hhas] at hfiles
    cases isThere with
    | true => rfl
    | false =>
      cases hfiles
      exact absurd rfl hne

/-! ## From C to an image -/

section Steps

variable {path : String} (own : List Path)

theorem makeLibrary_advances : Advances own (makeLibrary : Workshop.Task R Unit) := by
  refine .bind (.of_keeps .get) fun w => .bind (.of_keeps (look_keeps _)) fun isThere => ?_
  split
  · exact .bind (.of_keeps (inStudio_keeps _)) fun _ =>
      .bind (.run _ _ (Path.normal_ofString _)) fun _ => .of_keeps (inStudio_keeps _)
  · exact .of_keeps (.stop _)

/-- A step that looks for files of a suffix first, and then for the folder that its tools are called
in. -/
theorem advances_of_artifacts {why : BuildFailure} {step : List Path → Path → Workshop.Task R Unit}
    (hsource : Path.Normal source)
    (hstep : ∀ files folder, Path.Normal folder → Advances own (step files folder)) :
    Advances own (do
      let files ← look (artifacts source suffix)
      if files.isEmpty then refuse why
      else
        let folder ← look (folderOf source)
        step files folder : Workshop.Task R Unit) := by
  refine .bind (.of_keeps (look_keeps _)) fun files => ?_
  split
  · exact .of_keeps (.stop _)
  · exact .look_bind fun folder d hfolder => hstep files folder (normal_of_folderOf hsource hfolder)

theorem has_of_look_artifacts {why : BuildFailure} {step : List Path → Workshop.Task R Unit}
    (hfolder : w.disk.hasFolder source = .ok false)
    (h : (do
      let files ← look (artifacts source suffix)
      if files.isEmpty then refuse why else step files : Workshop.Task R Unit) w = (.ok (), w')) :
    w.disk.has (source.withSuffix suffix) = .ok true := by
  obtain ⟨files, _, hlook, h⟩ := bind_eq_ok h
  obtain ⟨hfiles, rfl⟩ := look_ok hlook
  cases files with
  | nil => cases h
  | cons first rest => exact has_of_artifacts hfolder hfiles (List.cons_ne_nil _ _)

theorem compile_advances : Advances own (compile path : Workshop.Task R Unit) := by
  refine .bind (.of_keeps .get) fun w => ?_
  refine advances_of_artifacts own (Path.normal_ofString path) fun files folder hnormal => ?_
  exact .bind (.of_keeps (inStudio_keeps _)) fun _ =>
    .bind (.each (fun _ => .run _ _ hnormal) _) fun _ => .of_keeps (inStudio_keeps _)

/-- A source is compiled only if its C file is there. -/
theorem has_of_compile (hfolder : w.disk.hasFolder (Path.ofString path) = .ok false)
    (h : compile path w = (.ok (), w')) :
    w.disk.has ((Path.ofString path).withSuffix ".c") = .ok true := by
  obtain ⟨_, _, hget, h⟩ := bind_eq_ok h
  cases hget
  exact has_of_look_artifacts hfolder h

theorem link_advances : Advances own (link path : Workshop.Task R Unit) := by
  refine .bind (.of_keeps .get) fun w => ?_
  refine advances_of_artifacts own (Path.normal_ofString path) fun files folder hnormal => ?_
  exact .bind (.of_keeps (look_keeps _)) fun _ => .bind (.of_keeps (inStudio_keeps _)) fun _ =>
    .bind (.run _ _ hnormal) fun _ => .of_keeps (inStudio_keeps _)

/-- A source is linked only if its object file is there. -/
theorem has_of_link (hfolder : w.disk.hasFolder (Path.ofString path) = .ok false)
    (h : link path w = (.ok (), w')) :
    w.disk.has ((Path.ofString path).withSuffix ".rel") = .ok true := by
  obtain ⟨_, _, hget, h⟩ := bind_eq_ok h
  cases hget
  exact has_of_look_artifacts hfolder h

theorem makeImage_advances : Advances own (makeImage path : Workshop.Task R Unit) := by
  refine .bind (.of_keeps .get) fun w => .look_bind fun folder d hfolder => ?_
  have hnormal := normal_of_folderOf (Path.normal_ofString path) hfolder
  refine .bind (.of_keeps (look_keeps _)) fun name => ?_
  refine .bind (.of_keeps (look_keeps _)) fun isThere => ?_
  split
  · exact .bind (.of_keeps (inStudio_keeps _)) fun _ =>
      .bind (.run _ _ hnormal) fun _ => .of_keeps (inStudio_keeps _)
  · exact .of_keeps (.stop _)

/-- An image is made only if the linked file is there. -/
theorem has_of_makeImage (hsource : w.disk.hasFolder (Path.ofString path) = .ok false)
    (h : makeImage path w = (.ok (), w')) :
    w.disk.has ((Path.ofString path).withSuffix ".ihx") = .ok true := by
  obtain ⟨_, _, hget, h⟩ := bind_eq_ok h
  cases hget
  obtain ⟨folder, _, hlook, h⟩ := bind_eq_ok h
  obtain ⟨hfolder, rfl⟩ := look_ok hlook
  obtain rfl := Except.ok.inj ((folderOf_of_noFolder hsource).symm.trans hfolder)
  obtain ⟨name, _, hlook, h⟩ := bind_eq_ok h
  obtain ⟨hname, rfl⟩ := look_ok hlook
  obtain rfl := Except.ok.inj ((imageName_of_noFolder hsource).symm.trans hname)
  obtain ⟨isThere, _, hlook, h⟩ := bind_eq_ok h
  obtain ⟨hthere, rfl⟩ := look_ok hlook
  have hnormal : Path.Normal (Path.ofString path) := Path.normal_ofString path
  rw [Path.child_stem hnormal (by decide) (by decide)] at hthere
  cases isThere with
  | false => cases h
  | true => exact hthere

/-! ## From a source to C -/

theorem translate_advances (hsource : Path.Normal source) :
    Advances own (translate source : Workshop.Task R Unit) := by
  refine .bind (.of_keeps (inStudio_keeps _)) fun _ => .bind (.of_keeps .get) fun w₀ => ?_
  intro w w' a h
  obtain ⟨result, w₁, hattempt, h⟩ := bind_eq_ok h
  have hrun : (Workshop.run w₀.studio.config.tools.ts2cCommand [source.name] source.parent :
      Workshop.Task R Unit) w = (result, w₁) := by
    exact Prod.ext (Except.ok.inj (congrArg Prod.fst hattempt)) (congrArg Prod.snd hattempt :)
  cases result with
  | ok done =>
    obtain ⟨made, hlater⟩ : ∃ made, Later own made w w₁ := ⟨_, later_of_run hsource.parent hrun⟩
    obtain ⟨studio, rfl⟩ := inStudio_ok h
    exact ⟨_, hlater.trans (.of_around rfl)⟩
  | error e =>
    cases e with
    | broken fault => cases h
    | failed why => cases why <;> cases h

variable [Quantity R] [Inhabited R]

theorem convertFile_advances {own : List Path} (hown : source.withSuffix ".c" ∈ own) :
    Advances own (convertFile source : Workshop.Task R Unit) := by
  refine .bind (.of_keeps (inStudio_keeps _)) fun _ => ?_
  refine .bind (.of_keeps (inStudio_keeps _)) fun _ => .bind (.of_keeps (look_keeps _)) fun _ => ?_
  refine .bind (.of_keeps .get) fun _ => ?_
  refine .bind (.of_keeps (inStudio_keeps _)) fun r => ?_
  exact .bind (.write hown _) fun _ => .of_keeps (inStudio_keeps _)

/-- A source that is no folder is converted only if it is a file. -/
theorem transpile_later (hfolder : w.disk.hasFolder (Path.ofString path) = .ok false)
    (h : transpile path w = (.ok (), w')) : w.disk.IsFile (Path.ofString path) ∧
      ∃ made, Later [(Path.ofString path).withSuffix ".c"] made w w' := by
  rw [transpile_apply, hfolder] at h
  dsimp only at h
  cases hthere : w.disk.has (Path.ofString path) with
  | error fault =>
    rw [hthere] at h
    cases h
  | ok isThere =>
    rw [hthere] at h
    cases isThere with
    | false => cases h
    | true =>
      refine ⟨isFile_of_has hthere hfolder, ?_⟩
      dsimp only at h
      split at h
      · exact translate_advances _ (Path.normal_ofString path) w w' _ h
      · exact convertFile_advances List.mem_cons_self w w' _ h

/-! ## The whole build -/

/-- The states of a workshop in a build that ends: before the sources are compiled, before they are
linked, before the image is made, and at the end. -/
structure Stages (path : String) (w v₁ v₂ v₃ w' : Workshop R) : Prop where
  library : (transpile path >>= fun _ => makeLibrary) w = (.ok (), v₁)
  compile : compile path v₁ = (.ok (), v₂)
  link : link path v₂ = (.ok (), v₃)
  image : makeImage path v₃ = (.ok (), w')

theorem stages_of_all (h : all path w = (.ok (), w')) : ∃ v₁ v₂ v₃, Stages path w v₁ v₂ v₃ w' := by
  obtain ⟨_, v, htranspile, h⟩ := bind_eq_ok h
  obtain ⟨_, v₁, hlibrary, h⟩ := bind_eq_ok h
  obtain ⟨_, v₂, hcompile, h⟩ := bind_eq_ok h
  obtain ⟨_, v₃, hlink, himage⟩ := bind_eq_ok h
  exact ⟨v₁, v₂, v₃, (bind_ok htranspile).trans hlibrary, hcompile, hlink, himage⟩

/-- In a build that ends the C file of the source was there when it was compiled, the object file
when it was linked, and the linked file when the image was made, unless a tool had made a folder of
the source by then. If the tools that were called only wrote files, these three are there at the
end, and the image is there exactly if it was there before, or if some tool left a file in its
place. -/
theorem artifacts_of_all (hfolder : w.disk.hasFolder (Path.ofString path) = .ok false)
    (h : all path w = (.ok (), w')) :
    let source := Path.ofString path
    let image := source.withSuffix ".gb"
    (∃ v₁ v₂ v₃, Stages path w v₁ v₂ v₃ w' ∧
      (v₁.disk.hasFolder source = .ok false → v₁.disk.has (source.withSuffix ".c") = .ok true) ∧
      (v₂.disk.hasFolder source = .ok false → v₂.disk.has (source.withSuffix ".rel") = .ok true) ∧
      (v₃.disk.hasFolder source = .ok false → v₃.disk.has (source.withSuffix ".ihx") = .ok true)) ∧
    ∃ made, w'.toolCalls = made ++ w.toolCalls ∧
      (OnlyWrites w.tools w.toolCalls made →
        w'.disk.has (source.withSuffix ".c") = .ok true ∧
        w'.disk.has (source.withSuffix ".rel") = .ok true ∧
        w'.disk.has (source.withSuffix ".ihx") = .ok true ∧
        (w'.disk.has image = .ok true ↔ w.disk.has image = .ok true ∨
          ∃ file ∈ leftSince w.tools w.toolCalls made, ∃ place,
            w.disk.locate file = .ok place ∧ w.disk.locate image = .ok place)) := by
  intro source image
  obtain ⟨v₁, v₂, v₃, hstages⟩ := stages_of_all h
  have hc := fun hsource => has_of_compile hsource hstages.compile
  have hrel := fun hsource => has_of_link hsource hstages.link
  have hihx := fun hsource => has_of_makeImage hsource hstages.image
  refine ⟨⟨v₁, v₂, v₃, hstages, hc, hrel, hihx⟩, ?_⟩
  obtain ⟨_, v, htranspile, hlibrary⟩ := bind_eq_ok hstages.library
  obtain ⟨hfile, made₀, hlater₀⟩ := transpile_later hfolder htranspile
  obtain ⟨made₁, hlater₁⟩ := makeLibrary_advances [source.withSuffix ".c"] v v₁ _ hlibrary
  obtain ⟨made₂, hlater₂⟩ := compile_advances [source.withSuffix ".c"] v₁ v₂ _ hstages.compile
  obtain ⟨made₃, hlater₃⟩ := link_advances [source.withSuffix ".c"] v₂ v₃ _ hstages.link
  obtain ⟨made₄, hlater₄⟩ := makeImage_advances [source.withSuffix ".c"] v₃ w' _ hstages.image
  have hfirst := hlater₀.trans hlater₁
  have hlater := ((hfirst.trans hlater₂).trans hlater₃).trans hlater₄
  refine ⟨_, hlater.calls, fun honly => ?_⟩
  -- What holds of all calls holds of those of each step.
  have h₃₄ := ((hfirst.trans hlater₂).trans hlater₃).onlyWrites_split honly
  have h₂₃ := (hfirst.trans hlater₂).onlyWrites_split h₃₄.1
  have h₁₂ := hfirst.onlyWrites_split h₂₃.1
  have hfile₁ := hfirst.isFile h₁₂.1 hfile
  have hfile₂ := hlater₂.isFile h₁₂.2 hfile₁
  have hfile₃ := hlater₃.isFile h₂₃.2 hfile₂
  refine ⟨hlater₄.has h₃₄.2 (hlater₃.has h₂₃.2 (hlater₂.has h₁₂.2 (hc hfile₁.hasFolder))),
    hlater₄.has h₃₄.2 (hlater₃.has h₂₃.2 (hrel hfile₂.hasFolder)),
    hlater₄.has h₃₄.2 (hihx hfile₃.hasFolder), ?_⟩
  obtain ⟨written, hwritten, hgrown⟩ := hlater.disk honly
  rw [hgrown.has]
  refine or_congr_right ⟨?_, ?_⟩
  · rintro ⟨file, hfile, place, hplace, himage⟩
    rcases List.mem_append.mp hfile with hleft | hown
    · exact ⟨file, hleft, place, hplace, himage⟩
    · rw [List.mem_singleton.mp (hwritten file hown)] at hplace
      exact absurd himage (not_same_place hplace)
  · rintro ⟨file, hleft, place, hplace, himage⟩
    exact ⟨file, List.mem_append_left _ hleft, place, hplace, himage⟩

end Steps

/-! ## Tools that leave no image -/

/-- The tools of a toolchain whose last one leaves nothing, and ends with code zero all the same. -/
def silentTools (calls : List ToolCall) : ToolOutcome :=
  .ended 0 "" <|
    match calls.length with
    | 1 => [("game.c", .empty)]
    | 3 => [("game.rel", .empty)]
    | 4 => [("game.ihx", .empty)]
    | _ => []

/-- A disk with a source and a toolchain. -/
def silentDisk : Disk where
  root := .folder
    [("game.ts", .file .empty FileTree.fileMode),
     ("bin", .folder [("gbdk-n-master", .newFolder)] FileTree.folderMode)] FileTree.folderMode
  here := []

/-- Where sources are converted without a provider, with these tools. -/
def silentWorkshop : Workshop Float where
  studio :=
    { config :=
        { Config.initial silentDisk with
          tools := { (Config.initial silentDisk).tools with translator := "ts2c" } }
      session := { clock := 0, today := "" } }
  disk := silentDisk
  tools := silentTools

theorem onlyWrites_ended (code : Int) (complaint : String) (files : List (String × ByteArray)) :
    (ToolOutcome.ended code complaint files).OnlyWrites := by
  intro change hchange
  obtain ⟨file, -, rfl⟩ := List.mem_map.mp hchange
  exact nofun

theorem all_silent : ∃ w', all "game.ts" silentWorkshop = (.ok (), w') ∧
    leftSince silentTools [] w'.toolCalls =
      [⟨"", ["game.ihx"]⟩, ⟨"", ["game.rel"]⟩, ⟨"", ["game.c"]⟩] := by
  have hends : (all "game.ts" silentWorkshop).1.toBool = true := by decide +kernel
  have hleft : leftSince silentTools [] (all "game.ts" silentWorkshop).2.toolCalls =
      [⟨"", ["game.ihx"]⟩, ⟨"", ["game.rel"]⟩, ⟨"", ["game.c"]⟩] := by decide +kernel
  generalize all "game.ts" silentWorkshop = outcome at hends hleft
  obtain ⟨result, w'⟩ := outcome
  cases result with
  | error e => cases hends
  | ok done => exact ⟨w', rfl, hleft⟩

/-- The build ends, and there is no image. -/
theorem artifacts_of_silent_tools : ∃ w', all "game.ts" silentWorkshop = (.ok (), w') ∧
    w'.disk.has ((Path.ofString "game.ts").withSuffix ".c") = .ok true ∧
    w'.disk.has ((Path.ofString "game.ts").withSuffix ".rel") = .ok true ∧
    w'.disk.has ((Path.ofString "game.ts").withSuffix ".ihx") = .ok true ∧
    w'.disk.has ((Path.ofString "game.ts").withSuffix ".gb") ≠ .ok true := by
  have hfolder : silentWorkshop.disk.hasFolder (Path.ofString "game.ts") = .ok false := rfl
  have himage : silentDisk.has ((Path.ofString "game.ts").withSuffix ".gb") = .ok false := rfl
  have hplace : silentDisk.locate ((Path.ofString "game.ts").withSuffix ".gb") =
      .ok ["game.gb"] := rfl
  obtain ⟨w', hrun, hleft⟩ := all_silent
  obtain ⟨-, made, hcalls, hwrites⟩ := artifacts_of_all hfolder hrun
  have honly : OnlyWrites silentTools [] made :=
    onlyWrites_of_forall (fun calls => onlyWrites_ended _ _ _) [] made
  obtain ⟨hc, hrel, hihx, hiff⟩ := hwrites honly
  refine ⟨w', hrun, hc, hrel, hihx, fun hthere => ?_⟩
  rw [show w'.toolCalls = made from hcalls.trans (List.append_nil made)] at hleft
  rcases hiff.mp hthere with hbefore | ⟨file, hfile, place, hfound, hsame⟩
  · rw [show silentWorkshop.disk = silentDisk from rfl, himage] at hbefore
    cases hbefore
  · have hfiles : file ∈ leftSince silentTools [] made := hfile
    rw [hleft] at hfiles
    obtain rfl := Except.ok.inj (hplace.symm.trans hsame)
    have helsewhere : ∀ name ∈ ["game.ihx", "game.rel", "game.c"],
        silentDisk.locate ⟨"", [name]⟩ = .ok [name] := by
      simp only [List.forall_mem_cons, List.not_mem_nil, false_imp_iff, implies_true, and_true]
      exact ⟨rfl, rfl, rfl⟩
    obtain ⟨name, hname, rfl⟩ : ∃ name ∈ ["game.ihx", "game.rel", "game.c"],
        file = ⟨"", [name]⟩ := by simpa using hfiles
    have hnames : [name] = ["game.gb"] :=
      Except.ok.inj ((helsewhere name hname).symm.trans hfound)
    rw [List.singleton_inj.mp hnames] at hname
    exact absurd hname (by decide)

end Build

namespace CommandLine

/-! ## What is reported -/

/-- A workshop in which the steps of a command are run with a configuration. -/
def prepared (config : Config Float) (w : Workshop Float) : Workshop Float :=
  { w with studio := { w.studio with config, transpiler? := none } }

/-- The program ends a command that gives an image with code zero, and reports the image, exactly if
the steps of the command end. -/
theorem work_finished_iff {config : Config Float} {c : Command} {path : String}
    {w w' : Workshop Float} (himage : c.givesImage = true) :
    work config c path w = (.ok (.finished 0), w') ↔ ∃ v,
      c.run path (prepared config w) = (.ok (), v) ∧
        Workshop.say (·.success "ROM built") v = ((.ok () : Except (Stop Float) Unit), w') := by
  unfold work
  rw [bind_apply]
  dsimp only [Run.update]
  cases hrun : c.run path (prepared config w) with
  | mk result v =>
    have hattempt : Run.attempt (c.run path) (prepared config w) = (.ok result, v) := by
      unfold Run.attempt
      rw [hrun]
    unfold prepared at hattempt
    rw [bind_ok hattempt]
    cases result with
    | ok done =>
      dsimp only
      rw [if_pos himage]
      constructor
      · intro h
        obtain ⟨_, _, hsay, h⟩ := bind_eq_ok h
        cases h
        exact ⟨v, rfl, hsay⟩
      · rintro ⟨_, hdone, hsay⟩
        cases hdone
        exact bind_ok hsay
    | error e =>
      refine iff_of_false (fun h => ?_) ?_
      · cases e <;> cases h
      · rintro ⟨_, hdone, -⟩
        cases hdone

end CommandLine

end Cartridge
