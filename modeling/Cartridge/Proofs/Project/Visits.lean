import Cartridge.Project.Order
import Mathlib.Data.List.Nodup

/-!
# Visits of paths

Visiting depth first, told as a relation that knows no bound on the depth: from one state of a
traversal, through a list of paths, to another. A derivation is finite, so where there is one the
visits come to an end.

* `Visits.unique`: visits end in one way.
* `visits_foldl`: a depth above the number of paths that were not met yet is enough for all visits.
* `Visits.visited_of_mem`: a path whose turn came is visited, unless its visit was under way before.
* `Visits.ordered_eq`: the files stand in the order in which the visits of their paths ended.
-/

namespace Cartridge.Project

namespace Traversal

/-- The visit of the path is over or under way. -/
def Met (t : Traversal) (path : String) : Prop := path ∈ t.visited ∨ path ∈ t.visiting

def notice (t : Traversal) (path : String) : Traversal := { t with cycles := path :: t.cycles }

def enter (t : Traversal) (path : String) : Traversal := { t with visiting := path :: t.visiting }

def leave (t : Traversal) (path : String) (file? : Option SourceFile) : Traversal :=
  { t with
    ordered := file?.toList ++ t.ordered
    visited := path :: t.visited
    visiting := t.visiting.erase path }

theorem leave_visiting {t t₁ : Traversal} {path : String} (file? : Option SourceFile)
    (h : t₁.visiting = (t.enter path).visiting) : (t₁.leave path file?).visiting = t.visiting := by
  show t₁.visiting.erase path = t.visiting
  rw [h]
  exact List.erase_cons_head ..

end Traversal

/-- Visits of paths one after the other. -/
inductive Visits (p : Project) : Traversal → List String → Traversal → Prop
  | done (t : Traversal) : Visits p t [] t
  | known {t t' : Traversal} {path : String} {rest : List String} (hpath : path ∈ t.visited)
      (next : Visits p t rest t') : Visits p t (path :: rest) t'
  | cycle {t t' : Traversal} {path : String} {rest : List String} (hnew : path ∉ t.visited)
      (hpath : path ∈ t.visiting) (next : Visits p (t.notice path) rest t') :
      Visits p t (path :: rest) t'
  | fresh {t t₁ t' : Traversal} {path : String} {rest : List String} (hpath : ¬ t.Met path)
      (inner : Visits p (t.enter path) (p.needs path) t₁)
      (next : Visits p (t₁.leave path (p.file? path)) rest t') : Visits p t (path :: rest) t'

namespace Visits

variable {p : Project} {t t' : Traversal} {paths : List String} {path : String}

theorem unique {t₁ t₂ : Traversal} (h₁ : p.Visits t paths t₁) (h₂ : p.Visits t paths t₂) :
    t₁ = t₂ := by
  induction h₁ generalizing t₂ with
  | done t => cases h₂; rfl
  | known hpath next ih =>
    cases h₂ with
    | known _ next' => exact ih next'
    | cycle hnew _ _ => exact absurd hpath hnew
    | fresh hfresh _ _ => exact absurd (.inl hpath) hfresh
  | cycle hnew hpath next ih =>
    cases h₂ with
    | known hknown _ => exact absurd hknown hnew
    | cycle _ _ next' => exact ih next'
    | fresh hfresh _ _ => exact absurd (.inr hpath) hfresh
  | fresh hfresh inner next ihInner ihNext =>
    cases h₂ with
    | known hknown _ => exact absurd (.inl hknown) hfresh
    | cycle _ hcycle _ => exact absurd (.inr hcycle) hfresh
    | fresh _ inner' next' =>
      have hinner := ihInner inner'
      subst hinner
      exact ihNext next'

/-! ## What visits do to the two sets -/

theorem visiting_eq (h : p.Visits t paths t') : t'.visiting = t.visiting := by
  induction h with
  | done t => rfl
  | known _ _ ih => exact ih
  | cycle _ _ _ ih => exact ih
  | fresh _ _ _ ihInner ihNext => exact ihNext.trans (Traversal.leave_visiting _ ihInner)

theorem visited_subset (h : p.Visits t paths t') : t.visited ⊆ t'.visited := by
  induction h with
  | done t => exact List.Subset.refl _
  | known _ _ ih => exact ih
  | cycle _ _ _ ih => exact ih
  | fresh _ _ _ ihInner ihNext =>
    intro q hq
    exact ihNext (List.mem_cons_of_mem _ (ihInner hq))

/-- No visit that was under way before comes to its end. -/
theorem not_visiting (h : p.Visits t paths t') (hpath : path ∈ t'.visited) :
    path ∈ t.visited ∨ path ∉ t.visiting := by
  induction h with
  | done t => exact .inl hpath
  | known _ _ ih => exact ih hpath
  | cycle _ _ _ ih => exact ih hpath
  | @fresh t t₁ t' entered rest hfresh inner _ ihInner ihNext =>
    rcases ihNext hpath with hleft | hnot
    · rcases List.mem_cons.mp hleft with rfl | hinner
      · exact .inr fun hmem => hfresh (.inr hmem)
      · rcases ihInner hinner with hbefore | hnot
        · exact .inl hbefore
        · exact .inr fun hmem => hnot (List.mem_cons_of_mem _ hmem)
    · rw [Traversal.leave_visiting _ inner.visiting_eq] at hnot
      exact .inr hnot

/-- After the visit of what a path needs, the path itself still awaits its end. -/
theorem not_mem_of_enter {t₁ : Traversal} (h : p.Visits (t.enter path) paths t₁)
    (hfresh : ¬ t.Met path) : path ∉ t₁.visited := by
  intro hmem
  rcases h.not_visiting hmem with hvisited | hnot
  · exact hfresh (.inl hvisited)
  · exact hnot List.mem_cons_self

theorem visited_of_mem (h : p.Visits t paths t') (hpath : path ∈ paths) :
    path ∈ t'.visited ∨ path ∈ t.visiting := by
  induction h with
  | done t => cases hpath
  | known hknown next ih =>
    rcases List.mem_cons.mp hpath with rfl | hrest
    · exact .inl (next.visited_subset hknown)
    · exact ih hrest
  | cycle _ hcycle next ih =>
    rcases List.mem_cons.mp hpath with rfl | hrest
    · exact .inr hcycle
    · exact ih hrest
  | @fresh t t₁ t' entered rest _ inner next _ ihNext =>
    rcases List.mem_cons.mp hpath with rfl | hrest
    · exact .inl (next.visited_subset List.mem_cons_self)
    · rw [← Traversal.leave_visiting _ inner.visiting_eq]
      exact ihNext hrest

/-- What was met before a path was entered stays met when its visit ends. -/
theorem met_leave {t₁ : Traversal} {other : String} (file? : Option SourceFile)
    (h : p.Visits (t.enter path) paths t₁) (hmet : t.Met other) :
    (t₁.leave path file?).Met other := by
  rcases hmet with hvisited | hvisiting
  · exact .inl (List.mem_cons_of_mem _ (h.visited_subset hvisited))
  · rw [← Traversal.leave_visiting file? h.visiting_eq] at hvisiting
    exact .inr hvisiting

/-! ## What visits keep -/

theorem nodup_visited (h : p.Visits t paths t') (hnodup : t.visited.Nodup) :
    t'.visited.Nodup := by
  induction h with
  | done t => exact hnodup
  | known _ _ ih => exact ih hnodup
  | cycle _ _ _ ih => exact ih hnodup
  | fresh hfresh inner _ ihInner ihNext =>
    exact ihNext (List.nodup_cons.mpr ⟨inner.not_mem_of_enter hfresh, ihInner hnodup⟩)

theorem ordered_eq (h : p.Visits t paths t') (hordered : t.ordered = t.visited.filterMap p.file?) :
    t'.ordered = t'.visited.filterMap p.file? := by
  induction h with
  | done t => exact hordered
  | known _ _ ih => exact ih hordered
  | cycle _ _ _ ih => exact ih hordered
  | @fresh t t₁ t' path rest _ _ _ ihInner ihNext =>
    have hinner : t₁.ordered = t₁.visited.filterMap p.file? := ihInner hordered
    apply ihNext
    show (p.file? path).toList ++ t₁.ordered = (path :: t₁.visited).filterMap p.file?
    rw [hinner, List.filterMap_cons]
    cases p.file? path <;> rfl

end Visits

/-! ## The bound on the depth -/

section Bound

variable {p : Project} {t : Traversal} {path : String}

theorem mem_mentioned_of_needs {needed : String} (h : needed ∈ p.needs path) :
    needed ∈ p.mentioned := by
  cases hneeds : p.dependencies.get? path with
  | none =>
    rw [needs, hneeds] at h
    cases h
  | some needs =>
    have hentry := Entries.mem_of_get? hneeds
    rw [Project.needs, hneeds] at h
    exact List.mem_append_right _ (List.mem_flatMap.mpr ⟨_, hentry, List.mem_cons_of_mem _ h⟩)

/-- The number of mentioned paths that were not met yet. -/
def ahead (p : Project) (t : Traversal) : Nat :=
  p.mentioned.countP fun path => !(t.visited.contains path || t.visiting.contains path)

theorem ahead_le_of_met {t' : Traversal} (h : ∀ path, t.Met path → t'.Met path) :
    p.ahead t' ≤ p.ahead t := by
  apply List.countP_mono_left
  intro path _ hahead
  have hnot : ¬ t'.Met path := by simpa [Traversal.Met] using hahead
  have hbefore : ¬ t.Met path := fun hmet => hnot (h path hmet)
  simpa [Traversal.Met] using hbefore

theorem ahead_enter_lt (hpath : path ∈ p.mentioned) (hfresh : ¬ t.Met path) :
    p.ahead (t.enter path) < p.ahead t := by
  obtain ⟨before, after, hsplit⟩ := List.append_of_mem hpath
  have hle (l : List String) :
      l.countP (fun q => !((t.enter path).visited.contains q || (t.enter path).visiting.contains q))
        ≤ l.countP fun q => !(t.visited.contains q || t.visiting.contains q) := by
    apply List.countP_mono_left
    intro q _ hq
    simp_all [Traversal.enter]
  have hbefore := hle before
  have hafter := hle after
  have hnow : (!(t.visited.contains path || t.visiting.contains path)) = true := by
    simpa [Traversal.Met] using hfresh
  have hthen : (!((t.enter path).visited.contains path || (t.enter path).visiting.contains path)) =
      false := by simp [Traversal.enter]
  rw [ahead, ahead, hsplit, List.countP_append, List.countP_append, List.countP_cons,
    List.countP_cons, hnow, hthen]
  simp only [if_true, Bool.false_eq_true, if_false]
  omega

theorem visit_known {depth : Nat} (h : path ∈ t.visited) : visit p (depth + 1) t path = t := by
  rw [visit, if_pos (by simpa using h)]

theorem visit_cycle {depth : Nat} (hnew : path ∉ t.visited) (h : path ∈ t.visiting) :
    visit p (depth + 1) t path = t.notice path := by
  rw [visit, if_neg (by simpa using hnew), if_pos (by simpa using h)]
  rfl

theorem visit_fresh {depth : Nat} (h : ¬ t.Met path) :
    visit p (depth + 1) t path =
      ((p.needs path).foldl (visit p depth) (t.enter path)).leave path (p.file? path) := by
  have hvisited : path ∉ t.visited := fun hmem => h (.inl hmem)
  have hvisiting : path ∉ t.visiting := fun hmem => h (.inr hmem)
  rw [visit, if_neg (by simpa using hvisited), if_neg (by simpa using hvisiting)]
  rfl

theorem visits_foldl {depth : Nat} {paths : List String}
    (hpaths : ∀ path ∈ paths, path ∈ p.mentioned) (hdepth : p.ahead t < depth) :
    p.Visits t paths (paths.foldl (visit p depth) t) := by
  induction depth generalizing t paths with
  | zero => omega
  | succ depth ihDepth =>
    induction paths generalizing t with
    | nil => exact .done t
    | cons path rest ih =>
      have hrest : ∀ q ∈ rest, q ∈ p.mentioned := fun q hq => hpaths q (List.mem_cons_of_mem _ hq)
      rw [List.foldl_cons]
      by_cases hvisited : path ∈ t.visited
      · rw [visit_known hvisited]
        exact .known hvisited (ih hrest hdepth)
      · by_cases hvisiting : path ∈ t.visiting
        · rw [visit_cycle hvisited hvisiting]
          exact .cycle hvisited hvisiting (ih hrest hdepth)
        · have hfresh : ¬ t.Met path := fun hmet => hmet.elim hvisited hvisiting
          have hlt := ahead_enter_lt (hpaths path List.mem_cons_self) hfresh
          have hinner : p.Visits (t.enter path) (p.needs path)
              ((p.needs path).foldl (visit p depth) (t.enter path)) :=
            ihDepth (fun _ hq => mem_mentioned_of_needs hq) (by omega)
          rw [visit_fresh hfresh]
          have hle := ahead_le_of_met (p := p) fun q hq =>
            hinner.met_leave (p.file? path) hq
          exact .fresh hfresh hinner (ih hrest (by omega))

theorem visits_traverse (p : Project) : p.Visits {} (p.files.map (·.path)) p.traverse := by
  apply visits_foldl
  · intro path hpath
    exact List.mem_append_left _ hpath
  · exact Nat.lt_succ_of_le List.countP_le_length

end Bound

end Cartridge.Project
