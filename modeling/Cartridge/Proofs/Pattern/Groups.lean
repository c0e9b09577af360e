import Cartridge.Proofs.Pattern.Spelling

/-!
# Groups of a match

What a match remembers. A pattern adds entries for its own groups only, so what was remembered of
another group before is still found behind it.

* `hasGroup`: whether a pattern has a group with a number.
* `match?_congr`: a search does not depend on places with other entries for a group that the pattern
  does not have.
* `match?_sound_of_no_group`, `match?_next_sound`, `match?_group_sound`: what a search goes through,
  and what it remembers there.
* `Remembers`: after any match a group is remembered with a text of a certain kind.
* `group_of_mem_findAll`: so it is for the matches of a text.
-/

namespace Cartridge.Pattern

variable {α : Type} {p q : Pattern} {n : Nat} {k k' : Place → Option α} {here : Place} {a : α}

/-- Whether a pattern has a group with a number. -/
def hasGroup (n : Nat) : Pattern → Bool
  | .next a b => a.hasGroup n || b.hasGroup n
  | .either a b => a.hasGroup n || b.hasGroup n
  | .again a => a.hasGroup n
  | .group number a => n == number || a.hasGroup n
  | _ => false

/-- The place remembers the same of a group as another place. -/
def SameGroup (n : Nat) (here there : Place) : Prop :=
  there.groups.lookup n = here.groups.lookup n

theorem Passes.groups {class_ : Char → Bool} {least : Nat} {there : Place}
    (h : Passes class_ least here there) : there.groups = here.groups := by
  obtain ⟨piece, rest, -, -, -, rfl⟩ := h
  rfl

theorem findSome?_congr {places : List Place} (hk : ∀ there ∈ places, k there = k' there) :
    places.findSome? k = places.findSome? k' := by
  induction places with
  | nil => rfl
  | cons there places ih =>
    rw [List.forall_mem_cons] at hk
    rw [List.findSome?_cons, List.findSome?_cons, hk.1, ih hk.2]

theorem nearest_congr {class_ : Char → Bool} {cs : List Char} {least : Nat}
    (hk : ∀ there : Place, there.groups = here.groups → k there = k' there) :
    nearest class_ k cs least here = nearest class_ k' cs least here := by
  induction cs generalizing here least with
  | nil =>
    cases least with
    | zero => exact hk here rfl
    | succ least => rfl
  | cons c cs ih =>
    have hpass (least : Nat) : nearest class_ k cs least (here.pass c cs) =
        nearest class_ k' cs least (here.pass c cs) := ih hk
    cases least with
    | zero => rw [nearest, nearest, hk here rfl, hpass]
    | succ least => rw [nearest, nearest, hpass]

theorem repeating_congr {step : (Place → Option α) → Place → Option α} {limit : Nat}
    (hstep : ∀ (k k' : Place → Option α) (here : Place),
      (∀ there, SameGroup n here there → k there = k' there) → step k here = step k' here)
    (hk : ∀ there, SameGroup n here there → k there = k' there) :
    repeating step k limit here = repeating step k' limit here := by
  induction limit generalizing here with
  | zero => exact hk here rfl
  | succ limit ih =>
    have hgo := hstep
      (fun there => if here.index < there.index then repeating step k limit there else none)
      (fun there => if here.index < there.index then repeating step k' limit there else none) here
      fun there hthere => by rw [ih fun later hlater => hk later (hlater.trans hthere)]
    rw [repeating, repeating, hgo, hk here rfl]

/-- What follows a pattern is asked only about places that remember the same of a group that the
pattern does not have. -/
theorem match?_congr (hp : p.hasGroup n = false)
    (hk : ∀ there, SameGroup n here there → k there = k' there) :
    p.match? k here = p.match? k' here := by
  induction p generalizing k k' here with
  | empty => exact hk here rfl
  | text cs => rw [match?, match?, hk _ (congrArg (List.lookup n) (here.skip_groups cs.length))]
  | one p =>
    rw [match?, match?]
    cases here.rest with
    | nil => rfl
    | cons c rest =>
      dsimp only
      rw [hk (here.pass c rest) rfl]
  | many p least =>
    have hreached : ∀ there ∈ Place.reached p here.rest least here [], k there = k' there := by
      intro there hthere
      rcases mem_reached.mp hthere with hnil | hpasses
      · cases hnil
      · exact hk there (congrArg (List.lookup n) hpasses.groups)
    rw [match?, match?]
    exact findSome?_congr hreached
  | few p least =>
    exact nearest_congr fun there hthere => hk there (congrArg (List.lookup n) hthere)
  | next a b iha ihb =>
    obtain ⟨ha, hb⟩ := Bool.or_eq_false_iff.mp hp
    exact iha ha fun there hthere => ihb hb fun later hlater => hk later (hlater.trans hthere)
  | either a b iha ihb =>
    obtain ⟨ha, hb⟩ := Bool.or_eq_false_iff.mp hp
    rw [match?, match?, iha ha hk, ihb hb hk]
  | again a iha => exact repeating_congr (fun _ _ _ => iha hp) hk
  | group number a iha =>
    obtain ⟨hnumber, ha⟩ := Bool.or_eq_false_iff.mp hp
    refine iha ha fun there hthere => hk _ ?_
    rw [SameGroup, List.lookup_cons, hnumber]
    exact hthere
  | wordEdge => rw [match?, match?, hk here rfl]
  | beginning => rw [match?, match?, hk here rfl]
  | notAfter cs => rw [match?, match?, hk here rfl]

/-- A search through a pattern remembers the same of a group that the pattern does not have. -/
theorem match?_sound_of_no_group (hp : p.hasGroup n = false) (hhere : here.Counted)
    (h : p.match? k here = some a) :
    ∃ piece there, here.rest = piece ++ there.rest ∧ p.Spells here.before piece there.rest ∧
      there.Counted ∧ SameGroup n here there ∧ k there = some a := by
  classical
  have hsame : p.match? k here =
      p.match? (fun there => if SameGroup n here there then k there else none) here :=
    match?_congr hp fun there hthere => (if_pos hthere).symm
  rw [hsame] at h
  obtain ⟨piece, rest, groups, hrest, hpiece, hk⟩ := match?_sound hhere h
  split at hk
  · rename_i hgroup
    exact ⟨piece, _, hrest, hpiece, hhere.past piece rest groups, hgroup, hk⟩
  · cases hk

/-- A search through one shape and then another. -/
theorem match?_next_sound (hhere : here.Counted) (h : (next p q).match? k here = some a) :
    ∃ piece there, here.rest = piece ++ there.rest ∧ p.Spells here.before piece there.rest ∧
      there.Counted ∧ q.match? k there = some a := by
  obtain ⟨piece, rest, groups, hrest, hpiece, hk⟩ := match?_sound (p := p) hhere h
  exact ⟨piece, _, hrest, hpiece, hhere.past piece rest groups, hk⟩

/-- A search through a group remembers the piece that it goes through. -/
theorem match?_group_sound (hhere : here.Counted) (h : (group n p).match? k here = some a) :
    ∃ piece there span, here.rest = piece ++ there.rest ∧ p.Spells here.before piece there.rest ∧
      there.Counted ∧ there.groups.lookup n = some span ∧ span.text = piece ∧
      k there = some a := by
  rw [match?] at h
  obtain ⟨piece, rest, groups, hrest, hpiece, hk⟩ := match?_sound hhere h
  exact ⟨piece, _, _, hrest, hpiece, hhere.past piece rest _, List.lookup_cons_self,
    text_past here hrest groups, hk⟩

/-! ## Groups that are always remembered -/

/-- After any match a group is remembered with a text of a certain kind. -/
def Remembers (n : Nat) (S : List Char → Prop) (p : Pattern) : Prop :=
  ∀ {α : Type} (k : Place → Option α) (here : Place) (a : α), here.Counted →
    p.match? k here = some a →
    ∃ there span, there.Counted ∧ there.groups.lookup n = some span ∧ S span.text ∧
      k there = some a

variable {S : List Char → Prop}

theorem remembers_group (hp : ∀ before piece after, p.Spells before piece after → S piece) :
    Remembers n S (.group n p) := by
  intro α k here a hhere h
  obtain ⟨piece, there, span, -, hpiece, hthere, hspan, rfl, hk⟩ := match?_group_sound hhere h
  exact ⟨there, span, hthere, hspan, hp _ _ _ hpiece, hk⟩

theorem remembers_next (p : Pattern) (hq : Remembers n S q) : Remembers n S (.next p q) := by
  intro α k here a hhere h
  obtain ⟨piece, there, -, -, hthere, h⟩ := match?_next_sound hhere h
  exact hq k there a hthere h

/-- What comes behind without the group does not change what is remembered of it. -/
theorem remembers_next_of_no_group (hp : Remembers n S p) (hq : q.hasGroup n = false) :
    Remembers n S (.next p q) := by
  intro α k here a hhere h
  rw [match?] at h
  obtain ⟨there, span, hthere, hspan, htext, h⟩ := hp _ here a hhere h
  obtain ⟨piece, later, -, -, hlater, hgroup, hk⟩ := match?_sound_of_no_group hq hthere h
  exact ⟨later, span, hlater, hgroup.trans hspan, htext, hk⟩

/-- A group that is always remembered has its kind of text in every match of a text. -/
theorem group_of_mem_findAll (hp : Remembers n S p) {m : Found} {cs : List Char}
    (h : m ∈ p.findAll cs) : S (m.group n) := by
  obtain ⟨here, hhere, hfound⟩ := foundAt_of_mem_findAll h
  obtain ⟨there, span, -, hspan, htext, hk⟩ := hp _ here m hhere hfound
  split at hk
  · cases hk
    rwa [Found.group, Found.group?, hspan]
  · cases hk

end Cartridge.Pattern
