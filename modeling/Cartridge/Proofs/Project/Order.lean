import Cartridge.Proofs.Project.Visits
import Mathlib.Data.List.Perm.Basic
import Mathlib.Logic.Relation

/-!
# The order of files

The traversal of a project comes to an end whatever needs what, and the files it orders are the
files of the project. A file comes after each file that it needs, unless that one leads back to it:
while the needs of a path are visited, every path under way leads to them, so a needed path that is
passed over because its own visit is under way leads back.

* `ordered_perm_files`: the visits end, in one way, and order every file once.
* `Visits.settled`: visits settle what their paths need first, cycles apart.
* `ordered_after_needs`: each file comes after the files that it needs and that do not lead back.
-/

namespace Cartridge.Project

/-- The first path needs the second, directly or through others. -/
def Leads (p : Project) : String → String → Prop :=
  Relation.TransGen fun path needed => needed ∈ p.needs path

variable {p : Project}

/-! ## Each file once -/

theorem file?_path (hpaths : (p.files.map (·.path)).Nodup) {file : SourceFile}
    (hfile : file ∈ p.files) : p.file? file.path = some file := by
  cases hfind : p.file? file.path with
  | none =>
    have hnone := List.find?_eq_none.mp hfind file hfile
    simp at hnone
  | some found =>
    have hpath : found.path = file.path := by simpa using List.find?_some hfind
    have hmem : found ∈ p.files := List.mem_of_find?_eq_some hfind
    rw [List.inj_on_of_nodup_map hpaths hmem hfile hpath]

theorem path_of_file? {path : String} {file : SourceFile} (h : p.file? path = some file) :
    file.path = path := by simpa using List.find?_some h

theorem ordered_eq_filterMap (p : Project) :
    p.ordered = (p.traverse.visited.filterMap p.file?).reverse :=
  congrArg List.reverse ((visits_traverse p).ordered_eq rfl)

theorem path_mem_visited {file : SourceFile} (hfile : file ∈ p.files) :
    file.path ∈ p.traverse.visited := by
  rcases (visits_traverse p).visited_of_mem (List.mem_map_of_mem hfile) with hvisited | hvisiting
  · exact hvisited
  · cases hvisiting

theorem nodup_ordered (p : Project) : p.ordered.Nodup := by
  have hvisited : p.traverse.visited.Nodup := (visits_traverse p).nodup_visited List.nodup_nil
  rw [ordered_eq_filterMap, List.nodup_reverse]
  refine hvisited.filterMap ?_
  intro path path' file hfile hfile'
  rw [← path_of_file? hfile, ← path_of_file? hfile']

theorem mem_ordered_iff (hpaths : (p.files.map (·.path)).Nodup) (file : SourceFile) :
    file ∈ p.ordered ↔ file ∈ p.files := by
  rw [ordered_eq_filterMap, List.mem_reverse, List.mem_filterMap]
  constructor
  · rintro ⟨path, -, hfile⟩
    exact List.mem_of_find?_eq_some hfile
  · intro hfile
    exact ⟨file.path, path_mem_visited hfile, file?_path hpaths hfile⟩

/-- The visits of the files of a project come to an end, in one way only, whatever needs what. If no
two files share a path, the order they give has every file once and nothing else. -/
theorem ordered_perm_files (p : Project) (hpaths : (p.files.map (·.path)).Nodup) :
    (∀ t, p.Visits {} (p.files.map (·.path)) t ↔ t = p.traverse) ∧
      p.ordered.Perm p.files := by
  constructor
  · intro t
    constructor
    · intro h
      exact h.unique (visits_traverse p)
    · rintro rfl
      exact visits_traverse p
  · rw [List.perm_ext_iff_of_nodup (nodup_ordered p) (List.Nodup.of_map _ hpaths)]
    exact mem_ordered_iff hpaths

/-- Two files that need each other, one of which also needs itself and a file that is not there. -/
theorem ordered_perm_files_of_entangled :
    let p : Project :=
      { files := [⟨"/game/main.ts", "main.ts", "", [], [], 0, none⟩,
          ⟨"/game/player.ts", "player.ts", "", [], [], 0, none⟩,
          ⟨"/game/enemy.ts", "enemy.ts", "", [], [], 0, none⟩]
        dependencies := [("main.ts", ["player.ts"]), ("player.ts", ["enemy.ts", "player.ts"]),
          ("enemy.ts", ["sprites", "player.ts"])] }
    (p.files.map (·.path)).Nodup ∧ p.ordered.Perm p.files := by
  intro p
  have hpaths : (p.files.map (·.path)).Nodup := by decide
  exact ⟨hpaths, (ordered_perm_files p hpaths).2⟩

/-! ## What is needed comes first -/

/-- What a path leads to is in every set that holds the path and what its members need. -/
theorem Leads.mem_of_closed {start finish : String} (h : p.Leads start finish) {paths : List String}
    (hstart : start ∈ paths) (hclosed : ∀ path ∈ paths, ∀ needed ∈ p.needs path, needed ∈ paths) :
    finish ∈ paths := by
  induction h with
  | single hneeds => exact hclosed _ hstart _ hneeds
  | tail _ hneeds ih => exact hclosed _ ih _ hneeds

/-- Every path of a list, the latest first, comes after what it needs, unless that leads back. -/
def Settled (p : Project) : List String → Prop
  | [] => True
  | path :: earlier =>
    (∀ needed ∈ p.needs path, needed ∈ earlier ∨ p.Leads needed path) ∧ p.Settled earlier

theorem Settled.earlier_or_leads {paths later earlier : List String} {path needed : String}
    (h : p.Settled paths) (hsplit : paths = later ++ path :: earlier)
    (hneeded : needed ∈ p.needs path) : needed ∈ earlier ∨ p.Leads needed path := by
  subst hsplit
  induction later with
  | nil => exact h.1 needed hneeded
  | cons other later ih => exact ih h.2

/-- What leads to a path that is entered leads to all that this one needs, and so does the path
itself. -/
theorem leads_of_enter {t : Traversal} {path : String}
    (hpath : ∀ under ∈ t.visiting, p.Leads under path) :
    ∀ under ∈ (t.enter path).visiting, ∀ needed ∈ p.needs path, p.Leads under needed := by
  intro under hunder needed hneeded
  rcases List.mem_cons.mp hunder with rfl | hunder
  · exact .single hneeded
  · exact .tail (hpath under hunder) hneeded

/-- The invariant is that every path under way leads to all paths whose turn is still to come. -/
theorem Visits.settled {t t' : Traversal} {paths : List String} (h : p.Visits t paths t')
    (hstack : ∀ under ∈ t.visiting, ∀ path ∈ paths, p.Leads under path)
    (hsettled : p.Settled t.visited) : p.Settled t'.visited := by
  induction h with
  | done t => exact hsettled
  | known _ _ ih =>
    exact ih (fun under hunder q hq => hstack under hunder q (List.mem_cons_of_mem _ hq)) hsettled
  | cycle _ _ _ ih =>
    exact ih (fun under hunder q hq => hstack under hunder q (List.mem_cons_of_mem _ hq)) hsettled
  | @fresh t t₁ t' path rest hfresh inner next ihInner ihNext =>
    have hpath : ∀ under ∈ t.visiting, p.Leads under path :=
      fun under hunder => hstack under hunder path List.mem_cons_self
    have hinner : p.Settled t₁.visited := ihInner (leads_of_enter hpath) hsettled
    have hleave : p.Settled (path :: t₁.visited) := by
      refine ⟨?_, hinner⟩
      intro needed hneeded
      rcases inner.visited_of_mem hneeded with hvisited | hvisiting
      · exact .inl hvisited
      · rcases List.mem_cons.mp hvisiting with rfl | hvisiting
        · exact .inr (.single hneeded)
        · exact .inr (hpath needed hvisiting)
    refine ihNext ?_ hleave
    intro under hunder q hq
    rw [Traversal.leave_visiting _ inner.visiting_eq] at hunder
    exact hstack under hunder q (List.mem_cons_of_mem _ hq)

theorem settled_visited (p : Project) : p.Settled p.traverse.visited :=
  (visits_traverse p).settled (fun _ hunder => by cases hunder) trivial

theorem sublist_ordered (hpaths : (p.files.map (·.path)).Nodup) {file needed : SourceFile}
    (hfile : file ∈ p.files) (hneeded : needed ∈ p.files) {later earlier : List String}
    (hsplit : p.traverse.visited = later ++ file.path :: earlier)
    (hearlier : needed.path ∈ earlier) : [needed, file].Sublist p.ordered := by
  have hmem : needed ∈ earlier.filterMap p.file? :=
    List.mem_filterMap.mpr ⟨needed.path, hearlier, file?_path hpaths hneeded⟩
  rw [ordered_eq_filterMap, hsplit, List.filterMap_append,
    List.filterMap_cons_some (file?_path hpaths hfile)]
  have hpair : [file, needed].Sublist (file :: earlier.filterMap p.file?) :=
    (List.singleton_sublist.mpr hmem).cons_cons file
  exact (hpair.trans (List.sublist_append_right _ _)).reverse

/-- In the order of the files, which has none of them twice, a file comes after each file that it
needs, unless that one leads back to it. Where no path leads back to itself, every file comes after
all files that it needs. -/
theorem ordered_after_needs (p : Project) (hpaths : (p.files.map (·.path)).Nodup) :
    p.ordered.Nodup ∧
      (∀ a ∈ p.files, ∀ b ∈ p.files, b.path ∈ p.needs a.path → ¬ p.Leads b.path a.path →
        [b, a].Sublist p.ordered) ∧
      ((∀ path, ¬ p.Leads path path) →
        ∀ a ∈ p.files, ∀ b ∈ p.files, b.path ∈ p.needs a.path → [b, a].Sublist p.ordered) := by
  have horder : ∀ a ∈ p.files, ∀ b ∈ p.files, b.path ∈ p.needs a.path →
      ¬ p.Leads b.path a.path → [b, a].Sublist p.ordered := by
    intro a ha b hb hneeds hback
    obtain ⟨later, earlier, hsplit⟩ := List.append_of_mem (path_mem_visited ha)
    rcases (settled_visited p).earlier_or_leads hsplit hneeds with hearlier | hleads
    · exact sublist_ordered hpaths ha hb hsplit hearlier
    · exact absurd hleads hback
  refine ⟨nodup_ordered p, horder, ?_⟩
  intro hacyclic a ha b hb hneeds
  exact horder a ha b hb hneeds fun hback => hacyclic b.path (hback.tail hneeds)

/-- The file that needs the two entangled ones comes after the one that it names. -/
theorem ordered_after_needs_of_entangled :
    let main : SourceFile := ⟨"/game/main.ts", "main.ts", "", [], [], 0, none⟩
    let player : SourceFile := ⟨"/game/player.ts", "player.ts", "", [], [], 0, none⟩
    let p : Project :=
      { files := [main, player, ⟨"/game/enemy.ts", "enemy.ts", "", [], [], 0, none⟩]
        dependencies := [("main.ts", ["player.ts"]), ("player.ts", ["enemy.ts", "player.ts"]),
          ("enemy.ts", ["sprites", "player.ts"])] }
    (p.files.map (·.path)).Nodup ∧ player.path ∈ p.needs main.path ∧
      ¬ p.Leads player.path main.path ∧ [player, main].Sublist p.ordered := by
  intro main player p
  have hpaths : (p.files.map (·.path)).Nodup := by decide
  have hneeds : player.path ∈ p.needs main.path := by decide
  have hback : ¬ p.Leads player.path main.path := by
    intro hleads
    have hmem : "main.ts" ∈ ["player.ts", "enemy.ts", "sprites"] :=
      hleads.mem_of_closed (by decide) (by decide)
    exact absurd hmem (by decide)
  exact ⟨hpaths, hneeds, hback, (ordered_after_needs p hpaths).2.1 main (by decide) player
    (by decide) hneeds hback⟩

end Cartridge.Project
