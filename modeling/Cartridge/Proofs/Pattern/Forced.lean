import Cartridge.Proofs.Pattern.Matches

/-!
# Matches without a choice

Where a text leaves a pattern only one way to go on, the search goes that way and no other, so that
the match can be read off. A repetition has one way if what follows it fails wherever the repetition
could still go on; an alternative has one way if the others fail where it begins.

* `match?_text_append`, `match?_one_cons`, `match?_many_run`, `match?_group_many_run`: how a search
  goes on with the first part of a text.
* `match?_text_of_ne`, `match?_one_of_not`, `match?_many_of_not`: where it fails.
* `Span.text_run`: what a group remembers of such a part.
* `Scans.findAll_eq`: a search that finds certain matches is the search of the text.
-/

namespace Cartridge

/-- The piece that a text begins with. -/
def Span.run (run rest : List Char) : Span := ⟨run ++ rest, run.length⟩

@[simp] theorem Span.text_run (run rest : List Char) : (Span.run run rest).text = run :=
  List.take_left

@[simp] theorem Place.groups_past (here : Place) (piece rest : List Char)
    (groups : List (Nat × Span)) : (here.past piece rest groups).groups = groups := rfl

namespace Pattern

variable {α : Type} {k : Place → Option α} {here : Place} {p : Char → Bool}
  {run rest : List Char} {c : Char}

/-! ## One way to go on -/

theorem match?_next (a b : Pattern) :
    (next a b).match? k here = a.match? (b.match? k) here := rfl

theorem match?_either_left {a b : Pattern} (h : b.match? k here = none) :
    (either a b).match? k here = a.match? k here := by
  rw [match?, h]
  cases a.match? k here <;> rfl

theorem match?_either_right {a b : Pattern} (h : a.match? k here = none) :
    (either a b).match? k here = b.match? k here := by
  rw [match?, h]
  rfl

theorem match?_text_append (h : here.rest = run ++ rest) :
    (text run).match? k here = k (here.past run rest here.groups) := by
  have hprefix : run.isPrefixOf here.rest = true :=
    List.isPrefixOf_iff_prefix.mpr ⟨rest, h.symm⟩
  rw [match?, if_pos hprefix, Place.skip_eq_past h]

theorem match?_one_cons (h : here.rest = c :: rest) (hc : p c = true) :
    (one p).match? k here = k (here.past [c] rest here.groups) := by
  rw [match?, h]
  exact if_pos hc

/-- A repetition passes a run of its class that ends before a character outside the class, if what
follows the repetition fails within the run. -/
theorem match?_many_run (h : here.rest = run ++ rest) (hne : run ≠ [])
    (hrun : ∀ c ∈ run, p c = true) (hend : rest.head?.any p = false)
    (hk : ∀ (there : Place) (c : Char) (ahead : List Char), there.rest = c :: ahead →
      p c = true → 1 < run.length → k there = none) :
    (many p 1).match? k here = k (here.past run rest here.groups) := by
  have hpos : 1 ≤ run.length := List.length_pos_iff.mpr hne
  have hwithin : ∀ there ∈ Place.reached p here.rest 1 here [],
      there = here.past run rest here.groups ∨ k there = none := by
    intro there hthere
    obtain ⟨piece, ahead, hrest, hleast, hpiece, rfl⟩ :=
      (mem_reached.mp hthere).resolve_left List.not_mem_nil
    rcases List.append_eq_append_iff.mp (h.symm.trans hrest) with ⟨more, rfl, rfl⟩ | ⟨more, rfl, rfl⟩
    · -- a longer piece would go through the character behind the run
      cases more with
      | nil => exact .inl (by rw [List.append_nil, List.nil_append])
      | cons c more =>
        have hc := hpiece c (List.mem_append_right _ List.mem_cons_self)
        rw [List.cons_append, List.head?_cons, Option.any_some, hc] at hend
        cases hend
    · cases more with
      | nil => exact .inl (by rw [List.append_nil, List.nil_append])
      | cons c more =>
        refine .inr (hk _ c (more ++ rest) rfl
          (hrun c (List.mem_append_right _ List.mem_cons_self)) ?_)
        rw [List.length_append, List.length_cons]
        omega
  have hreached : here.past run rest here.groups ∈ Place.reached p here.rest 1 here [] :=
    mem_reached.mpr (.inr ⟨run, rest, h, hpos, hrun, rfl⟩)
  rw [match?]
  cases hfar : k (here.past run rest here.groups) with
  | none =>
    refine List.findSome?_eq_none_iff.mpr fun there hthere => ?_
    rcases hwithin there hthere with rfl | hnone
    · exact hfar
    · exact hnone
  | some a =>
    have hsome : ((Place.reached p here.rest 1 here []).findSome? k).isSome := by
      rw [List.findSome?_isSome_iff]
      exact ⟨_, hreached, by rw [hfar]; rfl⟩
    obtain ⟨b, hb⟩ := Option.isSome_iff_exists.mp hsome
    obtain ⟨there, hthere, hkthere⟩ := List.exists_of_findSome?_eq_some hb
    rcases hwithin there hthere with rfl | hnone
    · rw [hb, ← hkthere, hfar]
    · rw [hnone] at hkthere
      cases hkthere

/-- A group remembers the run that it passes. -/
theorem match?_group_many_run {n : Nat} (h : here.rest = run ++ rest) (hne : run ≠ [])
    (hrun : ∀ c ∈ run, p c = true) (hend : rest.head?.any p = false)
    (hk : ∀ (there : Place) (c : Char) (ahead : List Char), there.rest = c :: ahead →
      p c = true → 1 < run.length → k there = none) :
    (group n (many p 1)).match? k here =
      k (here.past run rest ((n, Span.run run rest) :: here.groups)) := by
  have hspan : here.spanTo (here.past run rest here.groups) = Span.run run rest := by
    simp only [Place.spanTo, Place.past, Span.run, h, Nat.add_sub_cancel_left]
  rw [← hspan]
  exact match?_many_run h hne hrun hend fun there c ahead hthere =>
    hk { there with groups := (n, here.spanTo there) :: there.groups } c ahead hthere

/-! ## No way to go on -/

theorem match?_text_of_ne {d : Char} {cs : List Char} (h : here.rest.head? ≠ some d) :
    (text (d :: cs)).match? k here = none := by
  rw [match?, if_neg]
  rintro hprefix
  obtain ⟨rest, hrest⟩ := List.isPrefixOf_iff_prefix.mp hprefix
  exact h (by rw [← hrest]; rfl)

theorem match?_one_of_not (h : here.rest.head?.any p = false) :
    (one p).match? k here = none := by
  rw [match?]
  cases hrest : here.rest with
  | nil => rfl
  | cons c rest =>
    rw [hrest] at h
    exact if_neg (Bool.not_eq_true _ ▸ h)

theorem match?_many_of_not {least : Nat} (h : here.rest.head?.any p = false) :
    (many p (least + 1)).match? k here = none := by
  rw [match?]
  cases hrest : here.rest with
  | nil => rfl
  | cons c rest =>
    rw [hrest] at h
    have hc : p c = false := h
    rw [Place.reached, hc]
    rfl

/-! ## The search of a text -/

/-- The matches that a search finds from a place on are those that the text is cut into. -/
theorem Scans.filterMap_cutting {a : Pattern} {before : List Char} {ms : List Found}
    (h : Scans a before rest ms) :
    (cutting a rest before before.length 0 []).filterMap Piece.match? = ms := by
  induction h with
  | done before => rfl
  | pass hnone later ih =>
    rw [cutting_plain hnone]
    exact ih
  | @take before piece after m ms hfound hne hstop later ih =>
    obtain ⟨c, piece, rfl⟩ := List.exists_cons_of_ne_nil hne
    have hle : piece.length ≤ (piece ++ after).length := by simp
    have hindex : m.stop.index = before.length + 1 + piece.length := by
      rw [hstop, List.length_cons]
      omega
    have hbefore : (c :: piece).reverse ++ before = piece.reverse ++ c :: before := by simp
    have hlength : (piece.reverse ++ c :: before).length = before.length + 1 + piece.length := by
      rw [List.length_append, List.length_reverse, List.length_cons]
      omega
    rw [hbefore, hlength] at ih
    rw [List.cons_append] at hfound ⊢
    rw [cutting_found hfound hle hindex, List.drop_left, List.take_left]
    exact congrArg (m :: ·) ih

/-- The matches of a text are those that a search of it finds. -/
theorem Scans.findAll_eq {a : Pattern} {cs : List Char} {ms : List Found}
    (h : Scans a [] cs ms) : a.findAll cs = ms := h.filterMap_cutting

end Pattern

end Cartridge
