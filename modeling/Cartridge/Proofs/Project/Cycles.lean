import Cartridge.Console
import Cartridge.Proofs.Project.Order

/-!
# Cycles

A warning is given for each path that is met while its own visit is under way. Every path under way
leads to the paths whose turn is still to come, so such a path leads back to itself. Where no path
is met that way, every path that was visited comes after all that it needs, and nothing of that kind
leads back to itself.

* `Visits.noticed`: what is noticed leads back to itself.
* `Founded`, `Visits.founded`: visits that notice nothing give each path after all that it needs.
* `Founded.not_leads_self`: there are no cycles among paths in such an order.
* `cycleWarnings_exact`: there are warnings if and only if the files of a project lead to a cycle,
  and every path that they name lies on one.
-/

namespace Cartridge

theorem Console.messages_warnAll (c : Console) (texts : List String) :
    (c.warnAll texts).messages =
      c.messages ++ texts.map fun text => ⟨.error, "⚠ " ++ text⟩ := by
  induction texts generalizing c with
  | nil => exact (List.append_nil _).symm
  | cons text texts ih =>
    have hfirst : (c.warn text).messages = c.messages ++ [⟨.error, "⚠ " ++ text⟩] :=
      List.reverse_cons
    have hrest : (c.warnAll (text :: texts)).messages =
        (c.warn text).messages ++ texts.map fun text => ⟨.error, "⚠ " ++ text⟩ := ih (c.warn text)
    rw [hrest, hfirst, List.append_assoc, List.map_cons, List.singleton_append]

namespace Project

/-- The path is that of a file, or a file needs it, directly or through others. -/
def Reached (p : Project) (path : String) : Prop :=
  ∃ file ∈ p.files, path = file.path ∨ p.Leads file.path path

variable {p : Project} {t t' : Traversal} {paths : List String} {path : String}

theorem Reached.needed {needed : String} (h : p.Reached path) (hneeded : needed ∈ p.needs path) :
    p.Reached needed := by
  obtain ⟨file, hfile, rfl | hleads⟩ := h
  · exact ⟨file, hfile, .inr (.single hneeded)⟩
  · exact ⟨file, hfile, .inr (.tail hleads hneeded)⟩

/-! ## What is noticed lies on a cycle -/

/-- The invariant is that every path under way leads to all paths whose turn is still to come. -/
theorem Visits.noticed (h : p.Visits t paths t')
    (hstack : ∀ under ∈ t.visiting, ∀ path ∈ paths, p.Leads under path)
    (hreached : ∀ path ∈ paths, p.Reached path)
    (hcycles : ∀ path ∈ t.cycles, p.Reached path ∧ p.Leads path path) :
    ∀ path ∈ t'.cycles, p.Reached path ∧ p.Leads path path := by
  induction h with
  | done t => exact hcycles
  | known _ _ ih =>
    exact ih (fun under hunder q hq => hstack under hunder q (List.mem_cons_of_mem _ hq))
      (fun q hq => hreached q (List.mem_cons_of_mem _ hq)) hcycles
  | @cycle t t' path rest _ hpath _ ih =>
    refine ih (fun under hunder q hq => hstack under hunder q (List.mem_cons_of_mem _ hq))
      (fun q hq => hreached q (List.mem_cons_of_mem _ hq)) ?_
    intro other hother
    rcases List.mem_cons.mp hother with rfl | hother
    · exact ⟨hreached other List.mem_cons_self, hstack other hpath other List.mem_cons_self⟩
    · exact hcycles other hother
  | @fresh t t₁ t' path rest _ inner _ ihInner ihNext =>
    have hpath : p.Reached path := hreached path List.mem_cons_self
    have hinner : ∀ path ∈ t₁.cycles, p.Reached path ∧ p.Leads path path :=
      ihInner (leads_of_enter fun under hunder => hstack under hunder path List.mem_cons_self)
        (fun _ hneeded => hpath.needed hneeded) hcycles
    refine ihNext ?_ (fun q hq => hreached q (List.mem_cons_of_mem _ hq)) hinner
    intro under hunder q hq
    rw [Traversal.leave_visiting _ inner.visiting_eq] at hunder
    exact hstack under hunder q (List.mem_cons_of_mem _ hq)

theorem noticed_traverse (p : Project) :
    ∀ path ∈ p.traverse.cycles, p.Reached path ∧ p.Leads path path := by
  refine (visits_traverse p).noticed (fun _ hunder => by cases hunder) ?_
    (fun _ hcycle => by cases hcycle)
  intro path hpath
  obtain ⟨file, hfile, rfl⟩ := List.mem_map.mp hpath
  exact ⟨file, hfile, .inl rfl⟩

/-! ## Where nothing is noticed, there are no cycles -/

theorem Visits.cycles_suffix (h : p.Visits t paths t') : t.cycles <:+ t'.cycles := by
  induction h with
  | done t => exact List.suffix_refl _
  | known _ _ ih => exact ih
  | cycle _ _ _ ih => exact (List.suffix_cons _ _).trans ih
  | fresh _ _ _ ihInner ihNext => exact ihInner.trans ihNext

theorem Visits.quiet (h : p.Visits t paths t') (hquiet : t'.cycles = []) : t.cycles = [] :=
  List.suffix_nil.mp (hquiet ▸ h.cycles_suffix)

theorem Visits.mem_visited_of_quiet (h : p.Visits t paths t') (hquiet : t'.cycles = [])
    (hpath : path ∈ paths) : path ∈ t'.visited := by
  induction h with
  | done t => cases hpath
  | known hknown next ih =>
    rcases List.mem_cons.mp hpath with rfl | hrest
    · exact next.visited_subset hknown
    · exact ih hquiet hrest
  | cycle _ _ next _ => exact absurd (next.quiet hquiet) (List.cons_ne_nil _ _)
  | fresh _ _ next _ ihNext =>
    rcases List.mem_cons.mp hpath with rfl | hrest
    · exact next.visited_subset List.mem_cons_self
    · exact ihNext hquiet hrest

/-- Every path of a list, the latest first, comes after all that it needs. -/
def Founded (p : Project) : List String → Prop
  | [] => True
  | path :: earlier => (∀ needed ∈ p.needs path, needed ∈ earlier) ∧ p.Founded earlier

theorem Founded.closed (h : p.Founded paths) :
    ∀ path ∈ paths, ∀ needed ∈ p.needs path, needed ∈ paths := by
  induction paths with
  | nil => intro path hpath; cases hpath
  | cons first earlier ih =>
    intro path hpath needed hneeded
    rcases List.mem_cons.mp hpath with rfl | hearlier
    · exact List.mem_cons_of_mem _ (h.1 needed hneeded)
    · exact List.mem_cons_of_mem _ (ih h.2 path hearlier needed hneeded)

theorem Founded.not_leads_self (h : p.Founded paths) (hnodup : paths.Nodup) (hpath : path ∈ paths) :
    ¬ p.Leads path path := by
  induction paths with
  | nil => cases hpath
  | cons first earlier ih =>
    obtain ⟨hfirst, hrest⟩ := List.nodup_cons.mp hnodup
    rcases List.mem_cons.mp hpath with rfl | hearlier
    · intro hleads
      obtain ⟨needed, hneeded, hback⟩ := Relation.TransGen.head'_iff.mp hleads
      have hmem : needed ∈ earlier := h.1 needed hneeded
      apply hfirst
      rcases Relation.reflTransGen_iff_eq_or_transGen.mp hback with rfl | hback
      · exact hmem
      · exact Leads.mem_of_closed hback hmem h.2.closed
    · exact ih h.2 hrest hearlier

theorem Visits.founded (h : p.Visits t paths t') (hquiet : t'.cycles = [])
    (hfounded : p.Founded t.visited) : p.Founded t'.visited := by
  induction h with
  | done t => exact hfounded
  | known _ _ ih => exact ih hquiet hfounded
  | cycle _ _ next _ => exact absurd (next.quiet hquiet) (List.cons_ne_nil _ _)
  | fresh _ inner next ihInner ihNext =>
    have hinner := next.quiet hquiet
    exact ihNext hquiet
      ⟨fun needed hneeded => inner.mem_visited_of_quiet hinner hneeded, ihInner hinner hfounded⟩

theorem not_leads_self_of_quiet (hquiet : p.traverse.cycles = []) (hpath : p.Reached path) :
    ¬ p.Leads path path := by
  have hvisits := visits_traverse p
  have hfounded : p.Founded p.traverse.visited := hvisits.founded hquiet trivial
  have hnodup : p.traverse.visited.Nodup := hvisits.nodup_visited List.nodup_nil
  obtain ⟨file, hfile, hpath⟩ := hpath
  have hvisited : file.path ∈ p.traverse.visited := path_mem_visited hfile
  refine hfounded.not_leads_self hnodup ?_
  rcases hpath with rfl | hleads
  · exact hvisited
  · exact hleads.mem_of_closed hvisited hfounded.closed

/-! ## The warnings -/

theorem cycleWarning_inj {other : String} (h : cycleWarning path = cycleWarning other) :
    path = other :=
  (String.append_right_inj _).mp h

/-- The order of the files of a project adds to the console one warning for each path at which a
cycle was noticed, and nothing else. There are such warnings if and only if some path that the files
lead to leads back to itself, be it the path of a file or not, and every path that is named in a
warning is one of those. -/
theorem cycleWarnings_exact (p : Project) (c : Console) :
    (c.warnAll (p.cycles.map cycleWarning)).messages =
        c.messages ++ p.cycles.map (fun path => ⟨.error, "⚠ " ++ cycleWarning path⟩) ∧
      (p.cycles.map cycleWarning ≠ [] ↔ ∃ path, p.Reached path ∧ p.Leads path path) ∧
      ∀ path, cycleWarning path ∈ p.cycles.map cycleWarning →
        p.Reached path ∧ p.Leads path path := by
  have hnamed : ∀ path ∈ p.cycles, p.Reached path ∧ p.Leads path path :=
    fun path hpath => noticed_traverse p path (List.mem_reverse.mp hpath)
  refine ⟨?_, ⟨?_, ?_⟩, ?_⟩
  · rw [Console.messages_warnAll, List.map_map]
    rfl
  · intro hwarned
    obtain ⟨path, hpath⟩ := List.exists_mem_of_ne_nil _ (mt List.map_eq_nil_iff.mpr hwarned)
    exact ⟨path, hnamed path hpath⟩
  · rintro ⟨path, hreached, hcycle⟩ hnone
    have hquiet : p.traverse.cycles = [] :=
      List.reverse_eq_nil_iff.mp (List.map_eq_nil_iff.mp hnone)
    exact not_leads_self_of_quiet hquiet hreached hcycle
  · intro path hwarned
    obtain ⟨other, hother, hsame⟩ := List.mem_map.mp hwarned
    rw [← cycleWarning_inj hsame]
    exact hnamed other hother

/-- Two paths that are no files need each other, a file needs the first of them and another file
needs itself. -/
theorem cycleWarnings_exact_of_entangled :
    let p : Project :=
      { files := [⟨"/game/main.ts", "main.ts", "", [], [], 0, none⟩,
          ⟨"/game/player.ts", "player.ts", "", [], [], 0, none⟩]
        dependencies := [("main.ts", ["sprites"]), ("sprites", ["tiles"]), ("tiles", ["sprites"]),
          ("player.ts", ["player.ts"])] }
    cycleWarning "sprites" ∈ p.cycles.map cycleWarning ∧ p.Leads "sprites" "sprites" ∧
      cycleWarning "player.ts" ∈ p.cycles.map cycleWarning ∧ p.Leads "player.ts" "player.ts" := by
  intro p
  have hcycles : p.cycles = ["sprites", "player.ts"] := by rfl
  have hsprites : cycleWarning "sprites" ∈ p.cycles.map cycleWarning := by simp [hcycles]
  have hplayer : cycleWarning "player.ts" ∈ p.cycles.map cycleWarning := by simp [hcycles]
  have hnamed := (cycleWarnings_exact p {}).2.2
  exact ⟨hsprites, (hnamed _ hsprites).2, hplayer, (hnamed _ hplayer).2⟩

end Project

end Cartridge
