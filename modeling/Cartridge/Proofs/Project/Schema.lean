import Cartridge.Project.Schema
import Cartridge.Proofs.Entries
import Cartridge.Proofs.Pattern.Groups
import Mathlib.Data.List.Flatten
import Mathlib.Data.List.Nodup

/-!
# Declarations of whole projects

The declarations of a whole project stand under the path of their file, a colon and their name. A
path may have colons, but a name is a word, so the last colon tells where the path ends and no entry
takes the place of another one.

* `WellNamed`: entries under different words.
* `wellNamed_types`, `wellNamed_functions`, `wellNamed_bindings`: so are the declarations of a file.
* `globalName_inj`: a name in the whole project has one path and one name.
* `Gathers`: the entries of a project are those of its files, each of them once.
* `ofProject_gathers`: so are its types, its functions and its variables.
-/

namespace Cartridge

/-- Characters of which a word consists. -/
def IsWord (cs : List Char) : Prop := ∀ c ∈ cs, Text.isWord c = true

/-- Entries under names that are different and consist of word characters. -/
structure WellNamed {α : Type} (entries : Entries α) : Prop where
  distinct : entries.names.Nodup
  words : ∀ name ∈ entries.names, IsWord name.toList

namespace WellNamed

variable {α β : Type}

theorem nil : WellNamed ([] : Entries α) := ⟨List.nodup_nil, fun _ h => nomatch h⟩

theorem put {entries : Entries α} (h : WellNamed entries) {name : String}
    (hname : IsWord name.toList) (value : α) : WellNamed (entries.put name value) := by
  refine ⟨Entries.nodup_put h.distinct name value, fun other hother => ?_⟩
  rw [Entries.names_put] at hother
  split at hother
  · exact h.words other hother
  · rcases List.mem_append.mp hother with hold | hnew
    · exact h.words other hold
    · rw [List.mem_singleton.mp hnew]
      exact hname

/-- Steps that keep names in order keep them so one after another. -/
theorem foldl {entries : Entries α} (h : WellNamed entries) {f : Entries α → β → Entries α}
    {items : List β} (hf : ∀ all, WellNamed all → ∀ b ∈ items, WellNamed (f all b)) :
    WellNamed (items.foldl f entries) :=
  List.foldlRecOn items f h hf

end WellNamed

/-! ## The names that files declare -/

namespace Source

open Pattern

theorem remembers_name : Remembers 1 IsWord (.group 1 name) := by
  refine remembers_group fun before piece after hspelled => ?_
  exact hspelled.2

theorem remembers_interface : Remembers 1 IsWord interfaceDeclaration :=
  remembers_next _ <| remembers_next _ <| remembers_next_of_no_group remembers_name rfl

theorem remembers_alias : Remembers 1 IsWord typeAlias :=
  remembers_next _ <| remembers_next _ <| remembers_next_of_no_group remembers_name rfl

theorem remembers_signature : Remembers 1 IsWord signature :=
  remembers_next_of_no_group remembers_name rfl

theorem remembers_function : Remembers 1 IsWord functionDeclaration :=
  remembers_next _ <| remembers_next _ <| remembers_next _ <| remembers_next _ remembers_signature

theorem remembers_method : Remembers 1 IsWord methodDeclaration :=
  remembers_next _ <| remembers_next _ <| remembers_next _ remembers_signature

theorem remembers_variable : Remembers 1 IsWord variableDeclaration :=
  remembers_next _ <| remembers_next _ <| remembers_next _ <|
    remembers_next_of_no_group remembers_name rfl

/-- The name of a declaration that is found is a word. -/
theorem isWord_of_found {p : Pattern} (hp : Remembers 1 IsWord p) {m : Found} {cs : List Char}
    (h : m ∈ p.findAll cs) : IsWord (m.groupString 1).toList := by
  rw [Found.groupString, String.toList_ofList]
  exact group_of_mem_findAll hp h

theorem wellNamed_types (path : String) (cs : List Char) : WellNamed (declaredTypes path cs) := by
  refine WellNamed.nil.foldl fun all hall t ht => hall.put ?_ t
  rcases List.mem_append.mp ht with hinterface | halias
  · obtain ⟨found, hfound, hsome⟩ := List.mem_filterMap.mp hinterface
    by_cases hbody : trimmed found 2 = ""
    · cases (if_pos hbody).symm.trans hsome
    · cases (if_neg hbody).symm.trans hsome
      exact isWord_of_found remembers_interface hfound
  · obtain ⟨found, hfound, rfl⟩ := List.mem_map.mp halias
    exact isWord_of_found remembers_alias hfound

theorem wellNamed_functions (path : String) (cs : List Char) :
    WellNamed (declaredFunctions path cs) := by
  refine WellNamed.foldl ?_ fun all hall found hfound => ?_
  · exact WellNamed.nil.foldl fun all hall found hfound =>
      hall.put (isWord_of_found remembers_function hfound) _
  · dsimp only
    split
    · exact hall
    · exact hall.put (isWord_of_found remembers_method hfound) _

theorem wellNamed_bindings (cs : List Char) : WellNamed (declaredVariables cs) :=
  WellNamed.nil.foldl fun _ hall _ hfound =>
    hall.put (isWord_of_found remembers_variable hfound) _

end Source

/-! ## Names in a whole project -/

namespace Schema

open Source

variable {α : Type}

theorem colon_not_mem {name : String} (h : IsWord name.toList) : ':' ∉ name.toList :=
  fun hmem => absurd (h ':' hmem) (by decide +kernel)

/-- A name in the whole project ends with the name in its file, behind the last colon. -/
theorem globalName_inj {path path' name name' : String} (hname : ':' ∉ name.toList)
    (hname' : ':' ∉ name'.toList) (h : globalName path name = globalName path' name') :
    path = path' ∧ name = name' := by
  have hlists : path.toList ++ ':' :: name.toList = path'.toList ++ ':' :: name'.toList := by
    simpa [globalName] using congrArg String.toList h
  have hback : name.toList.reverse ++ ':' :: path.toList.reverse =
      name'.toList.reverse ++ ':' :: path'.toList.reverse := by
    simpa using congrArg List.reverse hlists
  obtain ⟨hnames, hpaths⟩ :=
    Text.append_cons_inj (by simpa using hname) (by simpa using hname') hback
  exact ⟨String.toList_inj.mp (List.reverse_inj.mp hpaths),
    String.toList_inj.mp (List.reverse_inj.mp hnames)⟩

/-- The entries of a file under their names in the whole project. -/
def globalEntries (path : String) (own : Entries α) : Entries α :=
  own.map fun e => (globalName path e.1, e.2)

theorem names_globalEntries (path : String) (own : Entries α) :
    (globalEntries path own).names = own.names.map (globalName path) := by
  rw [globalEntries, Entries.names, List.map_map, Entries.names, List.map_map]
  rfl

theorem putGlobal_eq (path : String) (all own : Entries α) :
    putGlobal path all own = all.putAll (globalEntries path own) := by
  rw [putGlobal, Entries.putAll, globalEntries, List.foldl_map]

/-- The entries of several files, one file after another. -/
def gathered (own : SourceFile → Entries α) (files : List SourceFile) : Entries α :=
  files.flatMap fun f => globalEntries f.path (own f)

theorem names_gathered (own : SourceFile → Entries α) (files : List SourceFile) :
    (gathered own files).names =
      files.flatMap fun f => (own f).names.map (globalName f.path) := by
  rw [gathered, Entries.names, List.map_flatMap]
  exact List.flatMap_congr fun f _ => names_globalEntries f.path (own f)

/-- The names in a whole project are different if the paths are. -/
theorem nodup_gathered {own : SourceFile → Entries α} {files : List SourceFile}
    (hpaths : (files.map (·.path)).Nodup) (hown : ∀ f ∈ files, WellNamed (own f)) :
    (gathered own files).names.Nodup := by
  rw [names_gathered, List.nodup_flatMap]
  constructor
  · intro f hf
    refine (hown f hf).distinct.map_on fun name hname other hother h => ?_
    have hwords := (hown f hf).words
    exact (globalName_inj (colon_not_mem (hwords name hname)) (colon_not_mem (hwords other hother))
      h).2
  · refine List.Pairwise.imp_of_mem (fun {f g} hf hg hne => ?_) (List.pairwise_map.mp hpaths)
    intro _ hmem hmem'
    obtain ⟨name, hname, rfl⟩ := List.mem_map.mp hmem
    obtain ⟨other, hother, hsame⟩ := List.mem_map.mp hmem'
    exact hne (globalName_inj (colon_not_mem ((hown g hg).words other hother))
      (colon_not_mem ((hown f hf).words name hname)) hsame).1.symm

/-- Files whose names in the whole project are different are put one behind another. -/
theorem foldl_putGlobal {own : SourceFile → Entries α} {files : List SourceFile}
    {all : Entries α}
    (h : Entries.names (all ++ gathered own files) |>.Nodup) :
    files.foldl (fun all f => putGlobal f.path all (own f)) all = all ++ gathered own files := by
  induction files generalizing all with
  | nil => exact (List.append_nil all).symm
  | cons f files ih =>
    have hsplit : gathered own (f :: files) =
        globalEntries f.path (own f) ++ gathered own files := List.flatMap_cons
    rw [hsplit, ← List.append_assoc] at h ⊢
    have hfirst : (Entries.names (all ++ globalEntries f.path (own f))).Nodup := by
      rw [Entries.names, List.map_append] at h
      exact (List.nodup_append.mp h).1
    rw [List.foldl_cons, putGlobal_eq, Entries.putAll_eq_append hfirst, ih h]

/-! ## What a project gathers -/

/-- The entries of a whole project are those of its files: one for each of them, under names that
are all different. -/
structure Gathers (files : List SourceFile) (own : SourceFile → Entries α) (all : Entries α) :
    Prop where
  entries : all = gathered own files
  distinct : all.names.Nodup
  found : ∀ f ∈ files, ∀ e ∈ own f, all.get? (globalName f.path e.1) = some e.2

/-- A part of a schema into which each file puts its own entries gathers them. -/
theorem gathers_foldl {own : SourceFile → Entries α} {files : List SourceFile}
    (hpaths : (files.map (·.path)).Nodup) (hown : ∀ f, WellNamed (own f))
    (view : Schema → Entries α)
    (hview : ∀ s f, putGlobal f.path (view s) (own f) = view (addFile s f)) {start : Schema}
    (hstart : view start = []) : Gathers files own (view (files.foldl addFile start)) := by
  have hdistinct := nodup_gathered hpaths fun f _ => hown f
  have hfold : view (files.foldl addFile start) =
      files.foldl (fun all f => putGlobal f.path all (own f)) (view start) :=
    (List.foldl_hom view hview).symm
  rw [hfold, hstart, foldl_putGlobal (by simpa using hdistinct), List.nil_append]
  refine ⟨rfl, hdistinct, fun f hf e he => Entries.get?_of_mem hdistinct ?_⟩
  exact List.mem_flatMap.mpr ⟨f, hf, List.mem_map.mpr ⟨e, he, rfl⟩⟩

theorem files_foldl {files : List SourceFile} (hpaths : (files.map (·.path)).Nodup) :
    files.foldl (fun all f => Entries.put all f.path (declarations f)) [] =
      files.map fun f => (f.path, declarations f) := by
  have hput : files.foldl (fun all f => Entries.put all f.path (declarations f)) [] =
      Entries.putAll [] (files.map fun f => (f.path, declarations f)) := by
    rw [Entries.putAll, List.foldl_map]
  rw [hput, Entries.putAll_eq_append, List.nil_append]
  simpa [Entries.names, Function.comp_def] using hpaths

/-- The schema of a project whose paths are different has the declarations of each file, and each of
them under its name in the whole project. -/
theorem ofProject_gathers (p : Project) (hpaths : (p.files.map (·.path)).Nodup) :
    let s := ofProject p
    s.files = (p.files.map fun f => (f.path, declarations f)) ∧
      Gathers p.files (fun f => (declarations f).types) s.types ∧
      Gathers p.files (fun f => (declarations f).functions) s.functions ∧
      Gathers p.files (fun f => (declarations f).bindings) s.bindings := by
  intro s
  refine ⟨?_, ?_, ?_, ?_⟩
  · rw [← files_foldl hpaths]
    exact (List.foldl_hom Schema.files fun _ _ => rfl).symm
  · exact gathers_foldl hpaths (fun f => wellNamed_types _ _) types (fun _ _ => rfl) rfl
  · exact gathers_foldl hpaths (fun f => wellNamed_functions _ _) functions
      (fun _ _ => rfl) rfl
  · exact gathers_foldl hpaths (fun f => wellNamed_bindings _) bindings
      (fun _ _ => rfl) rfl

/-- The path of one file is how a name of the other begins in the whole project. -/
theorem ofProject_gathers_of_colons :
    let first : SourceFile := { location := "/p/a", path := "a", content := "let x: b;" }
    let second : SourceFile := { location := "/p/a:x", path := "a:x", content := "let x: c;" }
    let p : Project := { files := [first, second] }
    (p.files.map (·.path)).Nodup ∧ (ofProject p).bindings = [("a:x", "b"), ("a:x:x", "c")] ∧
      Gathers p.files (fun f => (declarations f).bindings) (ofProject p).bindings := by
  intro first second p
  have hpaths : (p.files.map (·.path)).Nodup := by decide
  have hgathers := (ofProject_gathers p hpaths).2.2.2
  refine ⟨hpaths, hgathers.entries.trans ?_, hgathers⟩
  have hfirst : (declarations first).bindings = [("x", "b")] := by decide +kernel
  have hsecond : (declarations second).bindings = [("x", "c")] := by decide +kernel
  rw [gathered, List.flatMap_cons, List.flatMap_singleton, hfirst, hsecond]
  rfl

end Schema

end Cartridge
