import Cartridge.Proofs.FileTree.Changes
import Cartridge.Proofs.Project.Kept
import Cartridge.Proofs.Project.Output
import Cartridge.Proofs.Project.Sources
import Cartridge.Proofs.Toolchain.Untouched
import Cartridge.Proofs.Transpiler.Reuse

/-!
# What a conversion leaves of its sources

The code of a project goes into the folder of its sources, under names that no source has, so each
source that was read is still there as it was. The code of a single file goes beside the file, under
its name with another suffix. A file that has this suffix already is replaced by its own code.

* `Spares`: a disk that differs only in what stands in a folder under names that no source has.
* `spares_of_writeResult`: so does one with the result of a project.
* `isSourceName_of_mem_placesOf`: the sources in a folder have the names of sources.
* `transpile_sources`: what a conversion leaves of what it read.
-/

namespace Cartridge

open FileTree Disk Cartridge.Path

variable {R : Type}

/-! ## Names -/

theorem isSourceName_of_last {name : String} {c : Char} (h : name.toList.getLast? = some c)
    (hc : c ≠ 's') : Source.isSourceName name = false := by
  have hend {suffix : String} (hlast : suffix.toList.getLast? = some 's') :
      Text.endsWith name suffix = false := by
    rw [Bool.eq_false_iff, ne_eq, Text.endsWith_iff]
    rintro ⟨front, rfl⟩
    rw [String.toList_append, List.getLast?_append, hlast] at h
    exact hc (Option.some.inj h).symm
  rw [Source.isSourceName, hend rfl, hend rfl]
  rfl

namespace Project

/-- A source that a folder holds itself has the name of one. -/
theorem isSourceName_of_mem_placesOf {t : FileTree} {name : String} (h : [name] ∈ placesOf t) :
    Source.isSourceName name = true := by
  cases t with
  | file bytes mode =>
    rw [placesOf, sourcesOf] at h
    cases h
  | folder es mode =>
    obtain ⟨-, ⟨name', heq, hown⟩ | ⟨name', below, t, heq, -, -, hbelow⟩⟩ :=
      mem_sourcesOf_folder_iff.mp h
    · obtain ⟨found, -, -, hnamed⟩ := mem_ownSources_iff.mp hown
      rw [List.singleton_inj.mp heq]
      exact hnamed
    · have hnone : below = [] := (List.cons.inj heq).2.symm
      exact absurd hnone (ne_nil_of_mem_sourcesOf hbelow)

end Project

/-! ## Projects -/

/-- A disk that differs from another one only in what stands in a folder under names that no source
has. -/
structure Disk.SparesSources (folder : List String) (d d' : Disk) : Prop where
  here : d'.here = d.here
  nodes : ∀ q, d'.root.nodeAt? q = d.root.nodeAt? q ∨
    ∃ name, Source.isSourceName name = false ∧ q = folder ++ [name]

namespace Disk.SparesSources

variable {folder : List String} {d d' d'' : Disk}

theorem refl (folder : List String) (d : Disk) : SparesSources folder d d :=
  ⟨rfl, fun _ => .inl rfl⟩

theorem trans (h : SparesSources folder d d') (h' : SparesSources folder d' d'') :
    SparesSources folder d d'' where
  here := h'.here.trans h.here
  nodes q := by
    rcases h'.nodes q with hsame | hnew
    · rw [hsame]
      exact h.nodes q
    · exact .inr hnew

theorem of_write {p : Path} {name : String} {bytes : ByteArray} (hname : Project.IsName name)
    (hsource : Source.isSourceName name = false)
    (h : write (p.child name) bytes d = (.ok (), d')) : SparesSources (d.placeOf p) d d' := by
  obtain ⟨-, -, mode, hset⟩ := write_sets h
  rw [placeOf_child d p hname.plain hname.dots] at hset
  refine ⟨hset.here, fun q => ?_⟩
  by_cases hq : q = d.placeOf p ++ [name]
  · exact .inr ⟨name, hsource, hq⟩
  · exact .inl (hset.same hq)

end Disk.SparesSources

namespace Project

open Run Workshop

variable {w w' : Workshop R} {folder : Path} {paths : List Path} {given : Entries String}
  {os : List Output} {r : ProjectResult R}

theorem isName_singleName : IsName singleName := ⟨⟨by decide, by decide, by decide⟩, by decide⟩

/-- The code of a project goes under names that no source has. -/
theorem name_of_mem_outputs {modular : Bool} {o : Output} (h : o ∈ outputs modular r) :
    IsName o.name ∧ Source.isSourceName o.name = false := by
  unfold outputs at h
  split at h
  · obtain ⟨f, -, rfl⟩ := List.mem_map.mp h
    exact ⟨isName_codeName f.path, isSourceName_of_last (last_append _ rfl) (by decide)⟩
  · rw [List.mem_singleton.mp h]
    exact ⟨isName_singleName, (by decide : Source.isSourceName singleName = false)⟩

theorem sparesSources_of_writeOutputs (h : writeOutputs folder given os w = (.ok paths, w'))
    (hnames : ∀ o ∈ os, IsName o.name ∧ Source.isSourceName o.name = false) :
    SparesSources (w.disk.placeOf folder) w.disk w'.disk := by
  induction os generalizing given w paths with
  | nil =>
    cases h
    exact .refl _ _
  | cons o os ih =>
    obtain ⟨_, w₁, hfirst, h⟩ := bind_eq_ok h
    obtain ⟨_, w₂, hrest, h⟩ := bind_eq_ok h
    cases h
    obtain ⟨hname, hsource⟩ := hnames o List.mem_cons_self
    have hfirst := SparesSources.of_write hname hsource (writeOutput_ok hfirst).1
    have hlater := ih hrest fun o ho => hnames o (List.mem_cons_of_mem _ ho)
    rw [placeOf_congr hfirst.here] at hlater
    exact hfirst.trans hlater

/-- In a folder that is there, the result of a project spares the sources. -/
theorem sparesSources_of_writeResult (hfolder : w.disk.hasFolder folder = .ok true)
    (h : writeResult r folder w = (.ok paths, w')) :
    SparesSources (w.disk.placeOf folder) w.disk w'.disk := by
  obtain ⟨_, w₁, hfolders, h⟩ := bind_eq_ok h
  obtain ⟨d, hmake, rfl⟩ := change_ok hfolders
  obtain ⟨_, _, hget, h⟩ := bind_eq_ok h
  cases hget
  obtain ⟨_, w₂, hwritten, h⟩ := bind_eq_ok h
  obtain ⟨_, w₃, hnotes, h⟩ := bind_eq_ok h
  obtain ⟨d', hwrite, rfl⟩ := change_ok hnotes
  cases h
  -- the folders on the way are there already
  have hmade : SparesSources (w.disk.placeOf folder) w.disk d := by
    have hmade := made_of_makeFolders hmake
    obtain ⟨hreaches, hthere⟩ := hasFolder_iff.mp hfolder
    refine ⟨hmade.here, fun q => .inl ?_⟩
    rcases hmade.nodes q with hsame | ⟨hnone, -, hq⟩
    · exact hsame
    · have hfolder : w.disk.root.FolderAt q := by
        rcases mem_reached hq with rfl | hq
        · exact hthere
        · exact (hreaches.enterable q hq).folderAt
      exact absurd hfolder (not_folderAt_of_none hnone)
  have houtputs := sparesSources_of_writeOutputs hwritten fun o ho => name_of_mem_outputs ho
  rw [placeOf_congr hmade.here] at houtputs
  have hall := hmade.trans houtputs
  have hlast := SparesSources.of_write isName_notesName (by decide) hwrite
  rw [placeOf_congr hall.here] at hlast
  exact hall.trans hlast

end Project

/-! ## Conversions -/

namespace Build

open Run Workshop

variable [Quantity R] [Inhabited R] {w w' : Workshop R} {source : Path} {path : String}

/-- The code of a file is written beside it, and nothing else is. -/
theorem convertFile_ok (h : convertFile source w = (.ok (), w')) :
    ∃ code, Disk.writeText (source.withSuffix ".c") code w.disk = (.ok (), w'.disk) := by
  obtain ⟨_, w₁, hsay, h⟩ := bind_eq_ok h
  obtain ⟨_, rfl⟩ := inStudio_ok hsay
  obtain ⟨_, w₂, hready, h⟩ := bind_eq_ok h
  obtain ⟨_, rfl⟩ := inStudio_ok hready
  obtain ⟨_, w₃, hlook, h⟩ := bind_eq_ok h
  obtain ⟨-, rfl⟩ := look_ok hlook
  obtain ⟨_, w₄, hget, h⟩ := bind_eq_ok h
  cases hget
  obtain ⟨r, w₅, hwork, h⟩ := bind_eq_ok h
  obtain ⟨_, rfl⟩ := inStudio_ok hwork
  obtain ⟨_, w₆, hchange, h⟩ := bind_eq_ok h
  obtain ⟨d, hwrite, rfl⟩ := change_ok hchange
  obtain ⟨_, rfl⟩ := inStudio_ok h
  exact ⟨r.code, hwrite⟩

theorem sparesSources_of_convertFolder (hfolder : w.disk.hasFolder source = .ok true)
    (h : convertFolder source w = (.ok (), w')) :
    SparesSources (w.disk.placeOf source) w.disk w'.disk := by
  obtain ⟨_, _, hget, h⟩ := bind_eq_ok h
  cases hget
  dsimp only at h
  split at h
  · cases h
  · obtain ⟨_, w₁, hready, h⟩ := bind_eq_ok h
    obtain ⟨studio, rfl⟩ := inStudio_ok hready
    obtain ⟨r, w₂, hconvert, h⟩ := bind_eq_ok h
    have hkeeps : w₂.disk = w.disk := by
      have haround := Project.convertAt_keeps source.toString
        { target := w.studio.config.target } { w with studio }
      rw [hconvert] at haround
      exact congrArg (fun rest : Studio R → Workshop R => (rest studio).disk) haround
    obtain ⟨paths, w₃, hwrite, h⟩ := bind_eq_ok h
    obtain ⟨_, rfl⟩ := inStudio_ok h
    have hspares := Project.sparesSources_of_writeResult (by rw [hkeeps]; exact hfolder) hwrite
    rw [hkeeps] at hspares
    exact hspares

/-- A file is where its path says, and the file with another suffix is beside it. -/
theorem file_place {d d' : Disk} {bytes : ByteArray} (hsource : Normal source)
    (hfile : d.hasFolder source = .ok false) (hthere : d.has source = .ok true)
    (hwrite : Disk.write (source.withSuffix ".c") bytes d = (.ok (), d')) :
    ∃ place name old mode mode', d.placeOf source = place ++ [name] ∧
      d.root.nodeAt? (place ++ [name]) = some (.file old mode) ∧
      SetAt (place ++ [stemOf name ++ ".c"]) (some (.file bytes mode')) d d' := by
  obtain ⟨found, hlocate, hkind⟩ := isFile_of_has hthere hfile
  obtain ⟨rfl, -⟩ := locate_eq.mp hlocate
  obtain ⟨old, mode, hold⟩ : d.root.FileAt (d.placeOf source) := by
    unfold kindAt? at hkind
    cases hat : d.root.at? (d.placeOf source) with
    | none =>
      rw [hat] at hkind
      cases hkind
    | some t =>
      rw [hat] at hkind
      cases t with
      | file old mode => exact ⟨old, mode, nodeAt?_eq_file.mpr hat⟩
      | folder es mode => cases hkind
  obtain ⟨hreaches, -, mode', hset⟩ := write_sets hwrite
  have hplain : Plain (source.stem ++ ".c") := plain_stem hsource (by decide) (by decide)
  rw [← child_stem hsource (by decide) (by decide)] at hreaches hset
  have hfolder : d.root.FolderAt (d.placeOf source.parent) := by
    refine (hreaches.enterable _ ?_).folderAt
    rw [d.whole_child _ hplain, passed_append]
    exact List.mem_append_right _ (List.mem_singleton_self _)
  obtain ⟨-, hplace⟩ := placeOf_parent hfolder (by
    rintro ⟨bits, hbits⟩
    rw [hold] at hbits
    cases hbits)
  rw [d.placeOf_child _ hplain (append_ne_dots _ rfl (by decide))] at hset
  exact ⟨_, _, old, mode, mode', hplace, hplace ▸ hold, hset⟩

/-- A conversion leaves each source of a folder as it was. That of a file leaves everything as it was
but the file with its code, and so the source too unless the two are one. -/
theorem transpile_sources (htranslator : w.studio.config.tools.translator ≠ "ts2c")
    (h : transpile path w = (.ok (), w')) :
    (∀ t, w.disk.entry (ofString path) = .ok t → t.isFolder = true →
      ∀ names ∈ Project.placesOf t,
        w'.disk.root.nodeAt? (w.disk.placeOf (ofString path) ++ names) =
          w.disk.root.nodeAt? (w.disk.placeOf (ofString path) ++ names)) ∧
    (w.disk.hasFolder (ofString path) = .ok false →
      ∃ place name old mode code mode', w.disk.placeOf (ofString path) = place ++ [name] ∧
        w.disk.root.nodeAt? (place ++ [name]) = some (.file old mode) ∧
        SetAt (place ++ [stemOf name ++ ".c"]) (some (.file code mode')) w.disk w'.disk ∧
        ((∃ bits, w'.disk.root.nodeAt? (place ++ [name]) = some (.file old bits)) ↔
          stemOf name ++ ".c" ≠ name ∨ code = old)) := by
  rw [transpile_apply] at h
  refine ⟨fun t hentry hfolder names hnames => ?_, fun hfile => ?_⟩
  · have hsource : w.disk.hasFolder (ofString path) = .ok true := by
      rw [Disk.hasFolder, Disk.holds, hentry]
      exact congrArg Except.ok hfolder
    rw [hsource] at h
    have hspares := sparesSources_of_convertFolder hsource h
    rcases hspares.nodes (w.disk.placeOf (ofString path) ++ names) with
      hsame | ⟨name, hname, heq⟩
    · exact hsame
    · rw [List.append_cancel_left_eq] at heq
      rw [heq] at hnames
      rw [Project.isSourceName_of_mem_placesOf hnames] at hname
      cases hname
  · rw [hfile] at h
    dsimp only at h
    split at h
    · cases h
    · cases h
    · rename_i hthere
      rw [if_neg htranslator] at h
      obtain ⟨code, hwrite⟩ := convertFile_ok h
      obtain ⟨place, name, old, mode, mode', hplace, hold, hset⟩ :=
        file_place (normal_ofString path) hfile hthere hwrite
      refine ⟨place, name, old, mode, _, mode', hplace, hold, hset, ?_⟩
      by_cases hsame : stemOf name ++ ".c" = name
      · rw [hsame] at hset
        rw [hset.self, or_iff_right (not_not_intro hsame)]
        constructor
        · rintro ⟨bits, hbits⟩
          cases hbits
          rfl
        · rintro rfl
          exact ⟨mode', rfl⟩
      · refine iff_of_true ⟨mode, ?_⟩ (.inl hsame)
        rw [hset.same, hold]
        rw [ne_eq, List.append_cancel_left_eq, List.singleton_inj]
        exact Ne.symm hsame

/-- A result. -/
def codeResult : Conversion ℚ where
  code := "int y;"
  provider := "steady"
  duration := 0
  cost := 0
  quality := 1
  fromCache := false
  notes :=
    { sourceSize := 6, codeSize := 6, romSize := 0, ramUsage := 0, warnings := [],
      optimizations := [] }

/-- A transpiler that knows the result for a key. -/
def knowing (key : String) : Transpiler ℚ where
  config := .standard "gbdk"
  providers := []
  cache := { maxSize := 1000, lifetime := .whole 86400, entries := [⟨key, 0, codeResult⟩] }
  spent := 0
  day := "2024-01-01"

theorem get_knowing (key : String) : ((knowing key).cache.get key 0).1 = some codeResult := by
  have hfresh : (knowing key).cache.expired 0 0 = false := by
    rw [Cache.expired, sub_self]
    exact (by decide : (!(Number.whole 86400 : Number ℚ).isZero &&
      (Number.whole 86400).isBelow (0 : ℚ)) = false)
  have hfind : (knowing key).cache.find? key = some ⟨key, 0, codeResult⟩ :=
    List.find?_cons_of_pos (by simp)
  rw [Cache.get, hfind]
  dsimp only
  rw [hfresh]
  rfl

/-- A request for a file that is C already. -/
def codeRequest : Request := { source := "int x;" }

/-- The file of the request, and a transpiler that knows the result. -/
def codeWorkshop : Workshop ℚ where
  studio :=
    { config := .standard "gbdk"
      session := { clock := 0, today := "2024-01-01" }
      transpiler? := some (knowing codeRequest.key) }
  disk := ⟨.folder [("game.c", .file "int x;".toUTF8 fileMode)] folderMode, []⟩
  tools := fun _ => .cannotStart ""

/-- The result that is known is given, whatever was said before. -/
theorem work_codeWorkshop (before : Console → Console) :
    (Studio.work (Workbench.transpile codeRequest) (codeWorkshop.studio.said before)).1 =
      .ok (Workbench.again codeResult) := by
  have htranspiler : (codeWorkshop.studio.said before).transpiler? = some (knowing codeRequest.key) :=
    rfl
  generalize hsession : (codeWorkshop.studio.said before).session = session
  have hclock : session.clock = 0 := by rw [← hsession]; rfl
  have htoday : session.today = "2024-01-01" := by rw [← hsession]; rfl
  have hopened : Workbench.opened codeRequest ⟨session, knowing codeRequest.key⟩ =
      ⟨session, knowing codeRequest.key⟩ :=
    if_neg (by rw [Workbench.resets, htoday, show (knowing _).day = "2024-01-01" from rfl]; simp)
  have hknown : Workbench.known? codeRequest ⟨session, knowing codeRequest.key⟩ =
      some codeResult := by
    rw [Workbench.known?, if_pos (show Workbench.usesCache codeRequest _ = true from rfl), hclock]
    exact get_knowing codeRequest.key
  obtain ⟨console, hdone⟩ := Workbench.transpile_of_known (rfl : codeRequest.target.problems.isEmpty)
    (by rw [hopened]; exact (by decide : Quantity.upTo (5 : ℚ) 0 = false)) (by decide) hknown
  rw [Studio.work_of_some htranspiler, hsession, hdone]

/-- The conversion writes the result that is known over the file. -/
theorem convertFile_codeWorkshop {d : Disk}
    (hwrite : Disk.writeText ((ofString "/game.c").withSuffix ".c") "int y;" codeWorkshop.disk =
      (.ok (), d)) :
    ∃ w', convertFile (ofString "/game.c") codeWorkshop = (.ok (), w') ∧ w'.disk = d := by
  have hread : codeWorkshop.disk.readText (ofString "/game.c") = .ok "int x;" := by decide +kernel
  let said : Workshop ℚ := (Workshop.say
    (·.start "🤖 Starting AI-powered transpilation TypeScript → GameBoy C") codeWorkshop).2
  have hready : inStudio Studio.ready said = (.ok (knowing codeRequest.key), said) := rfl
  have hlook : (look (·.readText (ofString "/game.c")) : Workshop.Task ℚ String) said =
      (.ok "int x;", said) := look_of_ok hread
  obtain ⟨w₁, hwork, hdisk⟩ := inStudio_of_ok (w := said) (work_codeWorkshop _)
  have hchange : (change (Disk.writeText ((ofString "/game.c").withSuffix ".c") "int y;") :
      Workshop.Task ℚ Unit) w₁ = (.ok (), { w₁ with disk := d }) :=
    change_of_ok (by rw [hdisk]; exact hwrite)
  refine ⟨(Workshop.say (report (Workbench.again codeResult) ((ofString "/game.c").withSuffix ".c"))
    { w₁ with disk := d }).2, ?_, rfl⟩
  rw [convertFile, bind_ok (show Workshop.say _ codeWorkshop = (.ok (), said) from rfl),
    bind_ok hready, bind_ok hlook, bind_ok (show Run.get said = (.ok said, said) from rfl),
    show ({ source := "int x;", target := said.studio.config.target } : Request) = codeRequest from
      rfl, bind_ok hwork]
  exact bind_ok hchange

/-- A file that is C already is lost. -/
theorem transpile_sources_of_code_file :
    codeWorkshop.studio.config.tools.translator ≠ "ts2c" ∧
    ∃ w', transpile "/game.c" codeWorkshop = (.ok (), w') ∧
      (∃ bits, codeWorkshop.disk.root.nodeAt? ["game.c"] = some (.file "int x;".toUTF8 bits)) ∧
      ¬ ∃ bits, w'.disk.root.nodeAt? ["game.c"] = some (.file "int x;".toUTF8 bits) := by
  have htranslator : codeWorkshop.studio.config.tools.translator ≠ "ts2c" := by decide
  have hfile : codeWorkshop.disk.hasFolder (ofString "/game.c") = .ok false := by decide +kernel
  have hthere : codeWorkshop.disk.has (ofString "/game.c") = .ok true := by decide +kernel
  have hwritten : (Disk.writeText ((ofString "/game.c").withSuffix ".c") "int y;"
      codeWorkshop.disk).1.toBool = true := by decide +kernel
  obtain ⟨d, hwrite⟩ : ∃ d, Disk.writeText ((ofString "/game.c").withSuffix ".c") "int y;"
      codeWorkshop.disk = (.ok (), d) := by
    generalize Disk.writeText _ _ _ = written at hwritten
    obtain ⟨r, d⟩ := written
    cases r with
    | error e => cases hwritten
    | ok done => exact ⟨d, rfl⟩
  obtain ⟨w', hconvert, hdisk⟩ := convertFile_codeWorkshop hwrite
  have hends : transpile "/game.c" codeWorkshop = (.ok (), w') := by
    rw [transpile_apply, hfile, hthere]
    dsimp only
    rw [if_neg htranslator, hconvert]
  have hbefore : codeWorkshop.disk.root.nodeAt? ["game.c"] =
      some (.file "int x;".toUTF8 fileMode) := rfl
  refine ⟨htranslator, w', hends, ⟨fileMode, hbefore⟩, fun hkept => ?_⟩
  obtain ⟨place, name, old, mode, code, mode', hplace, hold, hset, hiff⟩ :=
    (transpile_sources htranslator hends).2 hfile
  have hgame : codeWorkshop.disk.placeOf (ofString "/game.c") = [] ++ ["game.c"] := by
    decide +kernel
  obtain ⟨rfl, hname⟩ := List.append_inj' (hplace.symm.trans hgame) rfl
  obtain rfl := List.singleton_inj.mp hname
  cases hold.symm.trans hbefore
  obtain ⟨-, -, bits, hnew⟩ := write_sets hwrite
  have houtput : codeWorkshop.disk.placeOf ((ofString "/game.c").withSuffix ".c") =
      [] ++ [stemOf "game.c" ++ ".c"] := by decide +kernel
  rw [houtput, ← hdisk] at hnew
  cases hset.self.symm.trans hnew.self
  rcases hiff.mp hkept with hother | hsame
  · exact hother (by decide +kernel)
  · exact absurd hsame (by decide)

end Build

end Cartridge
