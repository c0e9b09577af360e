import Cartridge.Proofs.Pattern.Spelling

/-!
# How far a match goes

A greedy repetition passes as many characters as it can. Where nothing follows it that could refuse
the place it comes to, a match that ends with the repetition ends before a character outside the
class, or at the end of the text.

* `Reaches`: what the first accepted match of a pattern ends with.
* `reaches_many`, `reaches_next`, `reaches_either`: what it is, construct by construct.
* `reaches_within_group`: where a group that comes last ends.
* `stop_of_foundAt`: where a match that is found ends.
-/

namespace Cartridge.Pattern

variable {p q : Pattern} {Q : Place → Prop}

/-- The first match from a place on, if every place further on is accepted, ends where something
holds. -/
def Reaches (p : Pattern) (Q : Place → Prop) : Prop :=
  ∀ {α : Type} (k : Place → Option α) (here : Place) (a : α), here.Counted →
    (∀ there : Place, here.index < there.index → (k there).isSome) → p.match? k here = some a →
    ∃ there, Q there ∧ k there = some a

/-- The farthest place that a repetition reaches comes first. -/
theorem reached_eq_cons (class_ : Char → Bool) (here : Place) (passed : List Place) :
    ∃ far others, Place.reached class_ here.rest 0 here passed = far :: others ∧
      far.rest.head?.any class_ = false ∧ here.index ≤ far.index := by
  generalize hrest : here.rest = cs
  induction cs generalizing here passed with
  | nil => exact ⟨here, passed, rfl, by rw [hrest]; rfl, Nat.le_refl _⟩
  | cons c cs ih =>
    rw [Place.reached]
    split
    · obtain ⟨far, others, hreached, hfar, hle⟩ := ih (here.pass c cs) (here :: passed) rfl
      exact ⟨far, others, hreached, hfar, Nat.le_of_succ_le hle⟩
    · rename_i hc
      exact ⟨here, passed, rfl, by simpa [hrest] using hc, Nat.le_refl _⟩

/-- A repetition of at least one character ends before a character outside the class. -/
theorem reaches_many (class_ : Char → Bool) :
    Reaches (.many class_ 1) fun there => there.rest.head?.any class_ = false := by
  intro α k here a _ haccepts h
  rw [match?] at h
  cases hrest : here.rest with
  | nil =>
    rw [hrest] at h
    cases h
  | cons c rest =>
    rw [hrest, Place.reached] at h
    split at h
    · obtain ⟨far, others, hreached, hfar, hle⟩ := reached_eq_cons class_ (here.pass c rest) []
      rw [show (here.pass c rest).rest = rest from rfl] at hreached
      rw [hreached] at h
      have hfirst := haccepts far hle
      cases hk : k far with
      | none =>
        rw [hk] at hfirst
        cases hfirst
      | some b =>
        rw [List.findSome?_cons, hk] at h
        exact ⟨far, hfar, hk.trans h⟩
    · cases h

/-- What comes last decides where the match ends. -/
theorem reaches_next (p : Pattern) (hq : Reaches q Q) : Reaches (.next p q) Q := by
  intro α k here a hhere haccepts h
  rw [match?] at h
  obtain ⟨piece, rest, groups, -, -, hk⟩ := match?_sound hhere h
  refine hq k _ a (hhere.past piece rest groups) (fun there hlt => haccepts there ?_) hk
  exact Nat.lt_of_le_of_lt (Nat.le_add_right _ _) hlt

theorem reaches_either (hp : Reaches p Q) (hq : Reaches q Q) : Reaches (.either p q) Q := by
  intro α k here a hhere haccepts h
  rw [match?, Option.orElse_eq_or, Option.or_eq_some_iff] at h
  rcases h with h | ⟨-, h⟩
  · exact hp k here a hhere haccepts h
  · exact hq k here a hhere haccepts h

/-- A group ends where its shape does. -/
theorem reaches_within_group (number : Nat) (hp : Reaches p Q)
    (hQ : ∀ (there : Place) (groups : List (Nat × Span)), Q there → Q { there with groups }) :
    Reaches (.group number p) Q := by
  intro α k here a hhere haccepts h
  rw [match?] at h
  obtain ⟨there, hthere, hk⟩ := hp
    (fun stop => k { stop with groups := (number, here.spanTo stop) :: stop.groups }) here a hhere
    (fun there hlt => haccepts { there with groups := _ } hlt) h
  exact ⟨_, hQ there _ hthere, hk⟩

/-- A match that is found ends where the pattern reaches. -/
theorem stop_of_foundAt (hp : Reaches p Q) {here : Place} {m : Found} (hhere : here.Counted)
    (h : p.foundAt here = some m) : Q m.stop := by
  obtain ⟨there, hthere, hk⟩ := hp _ here m hhere (fun there hlt => by rw [if_pos hlt]; rfl) h
  split at hk
  · cases hk
    exact hthere
  · cases hk

end Cartridge.Pattern
