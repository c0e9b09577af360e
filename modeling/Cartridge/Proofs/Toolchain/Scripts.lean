import Cartridge.Proofs.FileTree.Trails
import Cartridge.Proofs.Toolchain.Chain

/-!
# Where scripts are looked for

The toolchain is looked for from the current folder, but its scripts are looked for from the folder
of the source, in which they are run. An absolute path of the toolchain means the same from both. A
relative one means the same only if both folders are in one, as far up as the path climbs: for a path
that does not climb, if they are the same folder.

* `Disk.enter`: the disk as it is seen from another folder.
* `LeadsAlike`, `placeOf_enter_iff`: when a path means the same place from there.
* `script_of_ready`: what a step runs is a script of the toolchain.
* `scripts_found_iff`: when the scripts are found where the toolchain was.
-/

namespace Cartridge

open Disk Cartridge.Path

/-- The disk as it is seen from another folder. -/
def Disk.enter (d : Disk) (folder : Path) : Disk := { d with here := d.placeOf folder }

/-- Parts that lead from a place without double dots lead to one. -/
theorem Path.dots_not_mem_lead {place : List String} (parts : List String) (h : ".." ∉ place) :
    ".." ∉ lead place parts := by
  induction parts generalizing place with
  | nil => exact h
  | cons part rest ih =>
    refine ih ?_
    unfold onward
    split
    · exact fun hmem => h (List.dropLast_subset place hmem)
    · rename_i hpart
      rw [List.mem_append, List.mem_singleton, not_or]
      exact ⟨h, fun heq => hpart heq.symm⟩

/-- A path is absolute, or a folder and the current one are in the same folder, as far up as the path
climbs. -/
def Disk.LeadsAlike (d : Disk) (folder p : Path) : Prop :=
  p.isAbsolute = true ∨ above (climb p.parts) (d.placeOf folder) =
    above (climb p.parts) (d.placeOf (ofString "."))

/-- A path means the same place from a folder as from the current one exactly if it leads alike. -/
theorem Disk.placeOf_enter_iff (d : Disk) (folder p : Path) :
    (d.enter folder).placeOf p = d.placeOf p ↔ d.LeadsAlike folder p := by
  by_cases habsolute : p.isAbsolute = true
  · rw [placeOf, placeOf, whole, whole, if_pos habsolute, if_pos habsolute]
    exact iff_of_true rfl (.inl habsolute)
  · have hstart : lead [] (d.placeOf folder) = d.placeOf folder :=
      lead_names (dots_not_mem_lead _ List.not_mem_nil) []
    have hcurrent : d.placeOf (ofString ".") = lead [] d.here := by
      show lead [] (d.here ++ []) = _
      rw [List.append_nil]
    rw [LeadsAlike, or_iff_right habsolute, placeOf, placeOf, whole, whole, if_neg habsolute,
      if_neg habsolute, lead_append, lead_append, enter, hstart, lead_eq_lead_iff, hcurrent]

namespace Path

theorem Normal.child {p : Path} (h : Normal p) {name : String} (hname : Plain name) :
    Normal (p.child name) := by
  rw [child_of_plain p hname]
  refine ⟨h.root, fun part hpart => ?_⟩
  rcases List.mem_append.mp hpart with hpart | hpart
  · exact h.parts part hpart
  · rw [List.mem_singleton.mp hpart]
    exact hname

end Path

namespace Build

open Workshop

variable {R : Type} {tools : List ToolCall → ToolOutcome} {before calls made : List ToolCall}
  {d d' : Disk} {why : Option Trouble} {w : Workshop R} {path : String} {step : Step}

/-- The calls that are made are the first ones. -/
theorem made_first (h : InTurn tools before d calls why made d') : made <+: calls := by
  induction h with
  | done before d => exact List.prefix_refl []
  | failed hcall => exact (List.prefix_cons_inj _).mpr List.nil_prefix
  | next hcall hrest ih => exact (List.prefix_cons_inj _).mpr ih

/-- The scripts of the toolchain that the steps run. -/
def scriptNames : List String := ["gbdk-n-compile", "gbdk-n-link", "gbdk-n-make-rom"]

theorem plain_scriptFile {name suffix : String} (hname : name ∈ scriptNames)
    (hsuffix : suffix ∈ [".bat", ".sh"]) : Plain (name ++ suffix) ∧ name ++ suffix ≠ ".." := by
  have hall : ∀ name ∈ scriptNames, ∀ suffix ∈ [".bat", ".sh"],
      ('/' ∉ (name ++ suffix).toList ∧ name ++ suffix ≠ "" ∧ name ++ suffix ≠ ".") ∧
        name ++ suffix ≠ ".." := by decide
  obtain ⟨⟨hslash, hempty, hdot⟩, hdots⟩ := hall name hname suffix hsuffix
  exact ⟨⟨hslash, hempty, hdot⟩, hdots⟩

/-- Seen from anywhere, a script is in the folder of scripts that the path of the toolchain leads
to from there. -/
theorem placeOf_script [Quantity R] [Inhabited R] (w : Workshop R) {name : String}
    (hname : name ∈ scriptNames) (d : Disk) :
    (d.placeOf (ofString (script w name))).dropLast =
      d.placeOf (library w.studio.config) ++ ["bin"] := by
  have hsuffix : (if w.onWindows then ".bat" else ".sh") ∈ [".bat", ".sh"] := by split <;> decide
  have hplain := plain_scriptFile hname hsuffix
  have hbin : Plain "bin" := ⟨by decide, by decide, by decide⟩
  have hnormal : Normal (((library w.studio.config).child "bin").child
      (name ++ if w.onWindows then ".bat" else ".sh")) :=
    ((normal_ofString _).child hbin).child hplain.1
  show (d.placeOf (ofString (Path.toString _))).dropLast = _
  rw [ofString_toString hnormal, placeOf_child d _ hplain.1 hplain.2, List.dropLast_concat,
    placeOf_child d _ hbin (by decide)]

/-- A step that compiles, links or makes an image runs scripts, in the folder of the source. -/
theorem script_of_ready [Quantity R] [Inhabited R]
    (hready : Ready (kit w) (ofString path) w.disk step calls)
    (hstep : step ∈ [.compile, .link, .image]) {c : ToolCall} (hc : c ∈ calls) :
    folderOf (ofString path) w.disk = .ok c.folder ∧ ∃ name ∈ scriptNames, c.tool = script w name := by
  have hfolder {folder : Path} (h : folderOf (ofString path) w.disk = .ok folder) :
      ofString folder.toString = folder :=
    ofString_toString (normal_of_folderOf (normal_ofString path) h)
  cases hready with
  | translate hsource => exact absurd hstep (by decide)
  | make hlibrary => exact absurd hstep (by decide)
  | compile hfiles hsome =>
    obtain ⟨file, -, rfl⟩ := List.mem_map.mp hc
    have hplace := (found_iff.mp hfiles).2
    exact ⟨hplace.trans (congrArg Except.ok (hfolder hplace).symm), _, by decide, rfl⟩
  | link hfiles hsome hname =>
    rw [List.mem_singleton.mp hc]
    have hplace := (found_iff.mp hfiles).2
    exact ⟨hplace.trans (congrArg Except.ok (hfolder hplace).symm), _, by decide, rfl⟩
  | image hplace hname hlinked =>
    rw [List.mem_singleton.mp hc]
    exact ⟨hplace.trans (congrArg Except.ok (hfolder hplace).symm), _, by decide, rfl⟩

theorem scripts_of_performs [Quantity R] [Inhabited R] {x : Task R Unit}
    (h : Performs path step x w) (hstep : step ∈ [.compile, .link, .image]) :
    ∃ made, (x w).2.toolCalls = made ++ w.toolCalls ∧ ∀ c ∈ made,
      folderOf (ofString path) w.disk = .ok c.folder ∧
      (((w.disk.enter c.folder).placeOf (ofString c.tool)).dropLast =
          w.disk.placeOf (library w.studio.config) ++ ["bin"] ↔
        w.disk.LeadsAlike c.folder (library w.studio.config)) := by
  cases h with
  | cut hlacks hcut hx hleaves =>
    obtain ⟨studio, -, -, rfl⟩ := hleaves
    rw [hx]
    exact ⟨[], rfl, fun c hc => by cases hc⟩
  | calls hready hcalls hx hleaves =>
    rename_i calls made why d w'
    obtain ⟨studio, -, -, rfl⟩ := hleaves
    rw [hx]
    refine ⟨made.reverse, rfl, fun c hc => ?_⟩
    obtain ⟨hfolder, name, hname, htool⟩ := script_of_ready hready hstep
      ((made_first hcalls).subset (List.mem_reverse.mp hc))
    refine ⟨hfolder, ?_⟩
    rw [htool, placeOf_script w hname, List.append_left_inj, placeOf_enter_iff]

/-- Where the toolchain is found, compiling, linking and making an image run its scripts from there
exactly if its path leads from the folder of the source to the same place as from the current one. -/
theorem scripts_found_iff [Quantity R] [Inhabited R] (path : String) {w : Workshop R}
    (hlibrary : w.disk.hasFolder (library w.studio.config) = .ok true) :
    ∃ place, w.disk.locate (library w.studio.config) = .ok place ∧ w.disk.root.FolderAt place ∧
      ∀ x ∈ [compile path, link path, makeImage path],
        ∃ made, (x w).2.toolCalls = made ++ w.toolCalls ∧ ∀ c ∈ made,
          folderOf (ofString path) w.disk = .ok c.folder ∧
          (((w.disk.enter c.folder).placeOf (ofString c.tool)).dropLast = place ++ ["bin"] ↔
            w.disk.LeadsAlike c.folder (library w.studio.config)) := by
  obtain ⟨hreaches, hfolder⟩ := hasFolder_iff.mp hlibrary
  refine ⟨_, locate_eq.mpr ⟨rfl, hreaches⟩, hfolder, ?_⟩
  simp only [List.forall_mem_cons, List.not_mem_nil, false_imp_iff, implies_true, and_true]
  exact ⟨scripts_of_performs (compile_performs path w) (by decide),
    scripts_of_performs (link_performs path w) (by decide),
    scripts_of_performs (makeImage_performs path w) (by decide)⟩

/-- A source in a folder of its own, and the toolchain beside that folder. -/
def besideWorkshop : Workshop Float where
  studio := { config := .standard "gbdk", session := { clock := 0, today := "" } }
  disk :=
    { root := .folder [("game", .folder [("main.c", .file .empty FileTree.fileMode)]
        FileTree.folderMode), ("gbdk", .newFolder)] FileTree.folderMode
      here := [] }
  tools := fun _ => .ended 0 "" []

/-- The toolchain is found from the current folder, its script is looked for in that of the source. -/
theorem scripts_found_iff_of_relative_path :
    besideWorkshop.disk.hasFolder (library besideWorkshop.studio.config) = .ok true ∧
    besideWorkshop.disk.locate (library besideWorkshop.studio.config) = .ok ["gbdk"] ∧
    ∃ c, (compile "game/main.c" besideWorkshop).2.toolCalls = [c] ∧
      c.command = ["gbdk/bin/gbdk-n-compile.sh", "main.c"] ∧
      ((besideWorkshop.disk.enter c.folder).placeOf (ofString c.tool)).dropLast ≠
        ["gbdk", "bin"] := by
  have hlibrary : besideWorkshop.disk.hasFolder (library besideWorkshop.studio.config) = .ok true :=
    by decide +kernel
  have hcalls : (compile "game/main.c" besideWorkshop).2.toolCalls =
      [⟨["gbdk/bin/gbdk-n-compile.sh", "main.c"], "game"⟩] := by decide +kernel
  obtain ⟨place, hplace, -, hscripts⟩ := scripts_found_iff "game/main.c" hlibrary
  obtain ⟨made, hmade, hfound⟩ := hscripts _ List.mem_cons_self
  have hgbdk : besideWorkshop.disk.locate (library besideWorkshop.studio.config) = .ok ["gbdk"] := by
    decide +kernel
  cases hplace.symm.trans hgbdk
  rw [hcalls, show besideWorkshop.toolCalls = [] from rfl, List.append_nil] at hmade
  subst hmade
  refine ⟨hlibrary, hgbdk, _, hcalls, rfl, fun hbin => ?_⟩
  have halike := (hfound _ (List.mem_singleton_self _)).2.mp hbin
  exact absurd halike (by unfold Disk.LeadsAlike; decide +kernel)

end Build

end Cartridge
