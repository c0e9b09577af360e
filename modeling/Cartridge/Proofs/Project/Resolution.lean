import Cartridge.Project.Resolve
import Cartridge.Proofs.Entries
import Cartridge.Proofs.Project.Order
import Mathlib.Data.List.Induction

/-!
# What imports resolve to

An import may mean several files of a project: the module as it is written, with a source suffix,
or the index file of a folder. A file needs the first of them for each of its imports, as long as
no import goes astray: one whose first file is needed already goes on to the next that is not.

* `offered`, `meant?`, `meantOnce`: the files that imports may mean, and those that they mean.
* `resolveImport_eq`: one more import adds the first of its files that is not there.
* `resolved_eq_meantOnce_iff`: the imports that mean one file each.
* `dependencies_single_iff`: what a project's files need.
-/

namespace Cartridge.Project

/-- The path of the file at a location, the last one if there are several. An empty path is no
file's. -/
def fileAt? (files : List SourceFile) (location : String) : Option String :=
  ((files.reverse.find? fun f => Path.normalName f.location = location).map (·.path)).filter
    (· ≠ "")

/-- The paths of the project's files that a file's import may mean, first choice first. -/
def offered (files : List SourceFile) (f : SourceFile) (i : Source.Import) : List String :=
  if i.isRelative then
    (candidates (Path.directoryName f.location) i.module).filterMap (fileAt? files)
  else []

/-- The path of the file that an import means. -/
def meant? (files : List SourceFile) (f : SourceFile) (i : Source.Import) : Option String :=
  (offered files f i).head?

/-- The paths of the files that imports mean, in the order of the imports and without repeats. -/
def meantOnce (files : List SourceFile) (f : SourceFile) (imports : List Source.Import) :
    List String :=
  (imports.filterMap (meant? files f)).eraseDups

/-- The file that the import means is among those before it, and another one that it may mean is
not. -/
def Astray (files : List SourceFile) (f : SourceFile) (before : List Source.Import)
    (i : Source.Import) : Prop :=
  (∃ path, meant? files f i = some path ∧ path ∈ meantOnce files f before) ∧
    ∃ other ∈ offered files f i, other ∉ meantOnce files f before

variable {files : List SourceFile} {f : SourceFile} {i : Source.Import} {found : List String}

/-! ## One import -/

theorem get?_byLocation (files : List SourceFile) (location : String) :
    (byLocation files).get? location =
      (files.reverse.find? fun f => Path.normalName f.location = location).map (·.path) := by
  rw [byLocation, List.foldl_eq_foldr_reverse]
  induction files.reverse with
  | nil => rfl
  | cons f rest ih =>
    rw [List.foldr_cons, List.find?_cons]
    by_cases h : Path.normalName f.location = location
    · subst h
      rw [Entries.get?_put_self]
      simp
    · rw [Entries.get?_put_of_ne _ _ (Ne.symm h), ih]
      simp [h]

theorem findSome?_filter {α β : Type} (g : α → Option β) (p : β → Bool) (xs : List α) :
    xs.findSome? (fun a => (g a).filter p) = (xs.filterMap g).find? p := by
  induction xs with
  | nil => rfl
  | cons a xs ih =>
    rw [List.findSome?_cons, List.filterMap_cons, ih]
    cases g a with
    | none => rfl
    | some b =>
      rw [Option.filter_some, List.find?_cons]
      cases p b <;> rfl

/-- One more import adds the first of the files it may mean that is not there. -/
theorem resolveImport_eq (files : List SourceFile) (f : SourceFile) (found : List String)
    (i : Source.Import) :
    resolveImport (byLocation files) (Path.directoryName f.location) found i =
      found ++ ((offered files f i).find? (· ∉ found)).toList := by
  have hsame (pick : String → Option String)
      (hpick : ∀ path, pick path = (fileAt? files path).filter (· ∉ found)) (paths : List String) :
      paths.findSome? pick = (paths.filterMap (fileAt? files)).find? (· ∉ found) := by
    rw [← findSome?_filter, funext hpick]
  rw [resolveImport, offered]
  by_cases hrelative : i.isRelative = true
  · rw [if_pos hrelative, if_pos hrelative]
    dsimp only
    rw [hsame]
    · generalize List.find? _ _ = new
      cases new with
      | none => exact (List.append_nil found).symm
      | some path => rfl
    · intro candidate
      rw [get?_byLocation, fileAt?]
      cases (files.reverse.find? fun f => Path.normalName f.location = candidate).map (·.path) with
      | none => rfl
      | some path =>
        by_cases hempty : path = ""
        · simp [Option.filter, hempty]
        · by_cases hfound : path ∈ found <;> simp [Option.filter, hempty, hfound]
  · rw [if_neg hrelative, if_neg hrelative]
    exact (List.append_nil found).symm

theorem resolved_append (files : List SourceFile) (f : SourceFile) (before : List Source.Import)
    (i : Source.Import) :
    resolved (byLocation files) { f with imports := before ++ [i] } =
      resolved (byLocation files) { f with imports := before } ++ ((offered files f i).find?
        (· ∉ resolved (byLocation files) { f with imports := before })).toList := by
  rw [resolved, List.foldl_append, List.foldl_cons, List.foldl_nil, resolveImport_eq]
  rfl

theorem meantOnce_append (files : List SourceFile) (f : SourceFile) (before : List Source.Import)
    (i : Source.Import) :
    meantOnce files f (before ++ [i]) =
      meantOnce files f before ++ ((meant? files f i).filter
        (· ∉ meantOnce files f before)).toList := by
  rw [meantOnce, List.filterMap_append, List.eraseDups_append, meantOnce]
  generalize before.filterMap (meant? files f) = others
  rw [List.filterMap_cons, List.filterMap_nil]
  cases meant? files f i with
  | none => simp [List.removeAll]
  | some path =>
    by_cases h : path ∈ others <;>
      simp [Option.filter, List.removeAll, h, List.eraseDups_cons]

/-! ## All imports of a file -/

/-- Imports that mean one file each, and none goes astray. -/
theorem resolved_eq_meantOnce_iff (files : List SourceFile) (f : SourceFile) :
    (∀ imports, imports <+: f.imports →
        resolved (byLocation files) { f with imports } = meantOnce files f imports) ↔
      ∀ before i after, f.imports = before ++ i :: after → ¬ Astray files f before i := by
  constructor
  · rintro hsame before i after hsplit ⟨⟨path, hmeant, hthere⟩, other, hoffered, hnew⟩
    have hbefore := hsame before (hsplit ▸ List.prefix_append before (i :: after))
    have hafter := hsame (before ++ [i]) ⟨after, by rw [hsplit, List.append_assoc]; rfl⟩
    rw [resolved_append, meantOnce_append, hbefore, hmeant] at hafter
    have hadded := List.append_cancel_left hafter
    rw [Option.filter_some, if_neg (by simpa using hthere)] at hadded
    have hnone := List.find?_eq_none.mp (Option.toList_eq_nil_iff.mp hadded) other hoffered
    exact hnone (by simpa using hnew)
  · intro hstraight imports
    induction imports using List.reverseRecOn with
    | nil => exact fun _ => rfl
    | append_singleton before i ih =>
      rintro ⟨after, hsplit⟩
      have hcut : f.imports = before ++ i :: after := by rw [← hsplit, List.append_assoc]; rfl
      have hbefore := ih ⟨i :: after, hcut.symm⟩
      have hnot := hstraight before i after hcut
      rw [resolved_append, meantOnce_append, hbefore]
      congr 2
      rw [Astray, not_and] at hnot
      rw [meant?] at hnot ⊢
      cases hoffered : offered files f i with
      | nil => rfl
      | cons path others =>
        rw [List.head?_cons, Option.filter_some, List.find?_cons]
        by_cases hthere : path ∈ meantOnce files f before
        · have hall := hnot ⟨path, by rw [hoffered]; rfl, hthere⟩
          rw [if_neg (by simpa using hthere)]
          simp only [hthere, not_true_eq_false, decide_false]
          refine List.find?_eq_none.mpr fun other hother hnew => ?_
          have hoffer : other ∈ offered files f i := hoffered ▸ List.mem_cons_of_mem path hother
          exact hall ⟨other, hoffer, by simpa using hnew⟩
        · simp [hthere]

theorem nodup_resolved (files : List SourceFile) (f : SourceFile) (imports : List Source.Import) :
    (resolved (byLocation files) { f with imports }).Nodup := by
  induction imports using List.reverseRecOn with
  | nil => exact List.nodup_nil
  | append_singleton before i ih =>
    rw [resolved_append]
    cases hfind : (offered files f i).find?
        (· ∉ resolved (byLocation files) { f with imports := before }) with
    | none => simpa using ih
    | some path =>
      have hnew := List.find?_some hfind
      rw [Option.toList_some, List.nodup_append]
      refine ⟨ih, List.nodup_singleton path, ?_⟩
      rintro known hknown new hmem rfl
      rw [List.mem_singleton.mp hmem] at hknown
      simp [hknown] at hnew

theorem offered_of_mem_resolved {path : String} {imports : List Source.Import}
    (h : path ∈ resolved (byLocation files) { f with imports }) :
    ∃ i ∈ imports, path ∈ offered files f i := by
  induction imports using List.reverseRecOn with
  | nil => cases h
  | append_singleton before i ih =>
    rw [resolved_append, List.mem_append, Option.mem_toList] at h
    rcases h with h | h
    · obtain ⟨j, hj, hpath⟩ := ih h
      exact ⟨j, List.mem_append_left _ hj, hpath⟩
    · exact ⟨i, by simp, List.mem_of_find?_eq_some h⟩

theorem meant_mem_resolved {path : String} {imports : List Source.Import} (hi : i ∈ imports)
    (hmeant : meant? files f i = some path) :
    path ∈ resolved (byLocation files) { f with imports } := by
  induction imports using List.reverseRecOn with
  | nil => cases hi
  | append_singleton before j ih =>
    rw [resolved_append, List.mem_append, Option.mem_toList]
    by_cases hknown : path ∈ resolved (byLocation files) { f with imports := before }
    · exact .inl hknown
    · rcases List.mem_append.mp hi with hi | hi
      · exact .inl (ih hi)
      · obtain rfl := List.mem_singleton.mp hi
        obtain ⟨others, hoffered⟩ := List.head?_eq_some_iff.mp hmeant
        refine .inr ?_
        rw [hoffered, List.find?_cons]
        simp [hknown]

/-! ## All files of a project -/

/-- What is known of files with different paths stands in their order. -/
theorem byPath_eq {α : Type} (known : SourceFile → α) {files : List SourceFile}
    (hpaths : (files.map (·.path)).Nodup) :
    byPath known files = files.map fun f => (f.path, known f) := by
  have hput : byPath known files = Entries.putAll [] (files.map fun f => (f.path, known f)) := by
    rw [Entries.putAll, List.foldl_map]
    rfl
  rw [hput, Entries.putAll_eq_append, List.nil_append]
  simpa [Entries.names, Function.comp_def] using hpaths

theorem dependencyMap_eq (files : List SourceFile) (hpaths : (files.map (·.path)).Nodup) :
    dependencyMap files = files.map fun f => (f.path, resolved (byLocation files) f) :=
  byPath_eq (resolved (byLocation files)) hpaths

/-- What a file of a project needs: each file once, only files that one of its imports may mean, and
all those that the imports do mean. These are what any first part of its imports comes to exactly if
no import goes astray. -/
theorem dependencies_single_iff {files : List SourceFile} {f : SourceFile}
    (hpaths : (files.map (·.path)).Nodup) (hf : f ∈ files) :
    (dependencyMap files).get? f.path = some (resolved (byLocation files) f) ∧
      (resolved (byLocation files) f).Nodup ∧
      (∀ path ∈ resolved (byLocation files) f, ∃ i ∈ f.imports, path ∈ offered files f i) ∧
      (∀ i ∈ f.imports, ∀ path, meant? files f i = some path →
        path ∈ resolved (byLocation files) f) ∧
      ((∀ imports, imports <+: f.imports →
          resolved (byLocation files) { f with imports } = meantOnce files f imports) ↔
        ∀ before i after, f.imports = before ++ i :: after → ¬ Astray files f before i) := by
  refine ⟨?_, nodup_resolved files f f.imports, fun path => offered_of_mem_resolved,
    fun i hi path => meant_mem_resolved hi, resolved_eq_meantOnce_iff files f⟩
  rw [dependencyMap_eq files hpaths]
  refine Entries.get?_of_mem ?_ (List.mem_map_of_mem hf)
  simpa [Entries.names, Function.comp_def] using hpaths

/-- A file that imports a module twice. -/
def twice : SourceFile where
  location := "/game/main.ts"
  path := "main.ts"
  content := ""
  imports := [⟨"./a", ["x"]⟩, ⟨"./a", ["y"]⟩]

/-- A project in which the module may be either of two files. -/
def twins : List SourceFile :=
  [{ location := "/game/a.js", path := "a.js", content := "" },
    { location := "/game/a.ts", path := "a.ts", content := "" }, twice]

/-- Importing a module a second time adds another file. -/
theorem dependencies_of_twins :
    (dependencyMap twins).get? twice.path = some ["a.ts", "a.js"] ∧
      meantOnce twins twice twice.imports = ["a.ts"] ∧
      ∃ before i after, twice.imports = before ++ i :: after ∧ Astray twins twice before i := by
  have hmember : twice ∈ twins := by simp [twins]
  obtain ⟨hneeds, -, -, -, hsame⟩ := dependencies_single_iff (by decide) hmember
  have hresolved : resolved (byLocation twins) twice = ["a.ts", "a.js"] := by decide +kernel
  have hmeant : meantOnce twins twice twice.imports = ["a.ts"] := by decide +kernel
  refine ⟨hneeds.trans (congrArg some hresolved), hmeant, ?_⟩
  by_contra hnone
  have hwhole := hsame.mpr (fun before i after hsplit hastray =>
    hnone ⟨before, i, after, hsplit, hastray⟩) twice.imports (List.prefix_refl _)
  rw [hmeant] at hwhole
  exact absurd (hresolved.symm.trans hwhole) (by decide)

end Cartridge.Project
