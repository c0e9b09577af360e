import Cartridge.Proofs.Pattern.Substitution

/-!
# What a pattern spells

A pattern spells pieces of text, each between what stands before it and what stands after it. The
search for a match tries the pieces one by one, so it finds a match that the rest of the search
accepts exactly if there is one, whatever the order in which they are tried.

* `Spells`: the pieces that a pattern spells.
* `match?_sound`, `match?_complete`: the search goes through the pieces that are spelled, and
  through all of them.
* `foundAt_isSome_iff`: where a match begins.
* `foundAt_of_mem_findAll`: the matches of a text begin somewhere.
-/

namespace Cartridge

namespace Place

/-- The place past a piece of what lies ahead, with the groups read on the way. -/
def past (pl : Place) (piece rest : List Char) (groups : List (Nat × Span)) : Place :=
  ⟨piece.reverse ++ pl.before, rest, pl.index + piece.length, groups⟩

/-- The place knows how many characters are before it. -/
def Counted (pl : Place) : Prop := pl.index = pl.before.length

theorem Counted.past {pl : Place} (h : pl.Counted) (piece rest : List Char)
    (groups : List (Nat × Span)) : (pl.past piece rest groups).Counted := by
  show pl.index + piece.length = (piece.reverse ++ pl.before).length
  rw [List.length_append, List.length_reverse, h]
  omega

theorem past_nil (pl : Place) : pl.past [] pl.rest pl.groups = pl := rfl

theorem past_past (pl : Place) (u v rest rest' : List Char) (groups groups' : List (Nat × Span)) :
    (pl.past u rest groups).past v rest' groups' = pl.past (u ++ v) rest' groups' := by
  simp only [past, List.reverse_append, List.append_assoc, List.length_append, Nat.add_assoc]

theorem skip_eq_past {pl : Place} {piece rest : List Char} (h : pl.rest = piece ++ rest) :
    pl.skip piece.length = pl.past piece rest pl.groups := by
  induction piece generalizing pl with
  | nil =>
    rw [← show pl.rest = rest from h]
    rfl
  | cons c piece ih =>
    rw [List.length_cons, skip_succ h, ih rfl]
    simp only [past, pass, List.reverse_cons, List.append_assoc, List.singleton_append,
      List.length_cons]
    rw [Nat.add_assoc, Nat.add_comm 1]

end Place

namespace Pattern

/-- Pieces one after another, none of them empty. -/
inductive Repeats (S : List Char → List Char → List Char → Prop) :
    List Char → List Char → List Char → Prop
  | done (before after : List Char) : Repeats S before [] after
  | more {before piece others after : List Char} (hpiece : S before piece (others ++ after))
      (hne : piece ≠ []) (rest : Repeats S (piece.reverse ++ before) others after) :
      Repeats S before (piece ++ others) after

/-- The pattern spells a piece between what is before it, nearest character first, and what is after
it. -/
def Spells : Pattern → List Char → List Char → List Char → Prop
  | .empty, _, piece, _ => piece = []
  | .text cs, _, piece, _ => piece = cs
  | .one p, _, piece, _ => ∃ c, piece = [c] ∧ p c = true
  | .many p least, _, piece, _ => least ≤ piece.length ∧ ∀ c ∈ piece, p c = true
  | .few p least, _, piece, _ => least ≤ piece.length ∧ ∀ c ∈ piece, p c = true
  | .next a b, before, piece, after => ∃ u v, piece = u ++ v ∧ a.Spells before u (v ++ after) ∧
      b.Spells (u.reverse ++ before) v after
  | .either a b, before, piece, after => a.Spells before piece after ∨ b.Spells before piece after
  | .again a, before, piece, after => Repeats a.Spells before piece after
  | .group _ a, before, piece, after => a.Spells before piece after
  | .wordEdge, before, piece, after =>
    piece = [] ∧ before.head?.any Text.isWord ≠ after.head?.any Text.isWord
  | .beginning, before, piece, _ => piece = [] ∧ before = []
  | .notAfter cs, before, piece, _ => piece = [] ∧ ¬ cs.reverse <+: before

/-! ## Repetition of a character -/

section Characters

variable {α : Type} {p : Char → Bool} {k : Place → Option α} {least : Nat} {here there : Place}
  {c : Char} {rest : List Char}

/-- One place is reached from another by passing characters of a class, at least `least` of them. -/
def Passes (p : Char → Bool) (least : Nat) (here there : Place) : Prop :=
  ∃ piece rest, here.rest = piece ++ rest ∧ least ≤ piece.length ∧ (∀ c ∈ piece, p c = true) ∧
    there = here.past piece rest here.groups

theorem passes_nil (hend : here.rest = []) :
    Passes p least here there ↔ least = 0 ∧ there = here := by
  constructor
  · rintro ⟨piece, rest, hrest, hleast, -, rfl⟩
    obtain ⟨rfl, rfl⟩ := List.append_eq_nil_iff.mp (hrest.symm.trans hend)
    refine ⟨Nat.le_zero.mp hleast, ?_⟩
    have hnil := here.past_nil
    rwa [hend] at hnil
  · rintro ⟨rfl, rfl⟩
    exact ⟨[], there.rest, rfl, Nat.le_refl 0, by simp, rfl⟩

theorem past_cons (here : Place) (c : Char) (rest piece rest' : List Char) :
    here.past (c :: piece) rest' here.groups =
      (here.pass c rest).past piece rest' (here.pass c rest).groups := by
  simp only [Place.past, Place.pass, List.reverse_cons, List.append_assoc, List.singleton_append,
    List.length_cons]
  rw [Nat.add_assoc, Nat.add_comm 1]

theorem passes_succ (h : here.rest = c :: rest) :
    Passes p (least + 1) here there ↔ p c = true ∧ Passes p least (here.pass c rest) there := by
  constructor
  · rintro ⟨piece, rest', hrest, hleast, hp, rfl⟩
    cases piece with
    | nil => cases hleast
    | cons d piece =>
      rw [h] at hrest
      obtain ⟨rfl, rfl⟩ := List.cons.inj hrest
      rw [List.forall_mem_cons] at hp
      exact ⟨hp.1, piece, rest', rfl, Nat.le_of_succ_le_succ hleast, hp.2, past_cons _ _ _ _ _⟩
  · rintro ⟨hc, piece, rest', hrest, hleast, hp, rfl⟩
    refine ⟨c :: piece, rest', ?_, Nat.succ_le_succ hleast, List.forall_mem_cons.mpr ⟨hc, hp⟩,
      (past_cons _ _ _ _ _).symm⟩
    rw [h, List.cons_append]
    exact congrArg (List.cons c) hrest

theorem passes_zero (h : here.rest = c :: rest) :
    Passes p 0 here there ↔
      there = here ∨ p c = true ∧ Passes p 0 (here.pass c rest) there := by
  rw [← passes_succ h]
  constructor
  · rintro ⟨piece, rest', hrest, -, hp, rfl⟩
    cases piece with
    | nil =>
      refine .inl ?_
      rw [← show here.rest = rest' from hrest, Place.past_nil]
    | cons d piece =>
      exact .inr ⟨d :: piece, rest', hrest, Nat.succ_le_succ (Nat.zero_le _), hp, rfl⟩
  · rintro (rfl | ⟨piece, rest', hrest, -, hp, rfl⟩)
    · exact ⟨[], there.rest, rfl, Nat.le_refl 0, by simp, rfl⟩
    · exact ⟨piece, rest', hrest, Nat.zero_le _, hp, rfl⟩

theorem mem_reached {passed : List Place} :
    there ∈ Place.reached p here.rest least here passed ↔
      there ∈ passed ∨ Passes p least here there := by
  generalize hrest : here.rest = cs
  induction cs generalizing here least passed with
  | nil =>
    rw [passes_nil hrest]
    cases least <;> simp [Place.reached, or_comm]
  | cons c cs ih =>
    cases least with
    | zero =>
      rw [passes_zero hrest, Place.reached]
      split
      · rename_i hc
        rw [ih rfl, List.mem_cons, or_assoc, or_left_comm]
        simp only [hc, true_and]
      · rename_i hc
        simp [hc, or_comm]
    | succ least =>
      rw [passes_succ hrest, Place.reached]
      split
      · rename_i hc
        rw [ih rfl]
        simp [hc]
      · rename_i hc
        simp [hc]

theorem nearest_sound {a : α} (h : nearest p k here.rest least here = some a) :
    ∃ there, Passes p least here there ∧ k there = some a := by
  generalize hrest : here.rest = cs at h
  induction cs generalizing here least with
  | nil =>
    cases least with
    | zero => exact ⟨here, (passes_nil hrest).mpr ⟨rfl, rfl⟩, h⟩
    | succ least => cases h
  | cons c cs ih =>
    cases least with
    | zero =>
      rw [nearest] at h
      split at h
      · rename_i b hk
        cases h
        exact ⟨here, (passes_zero hrest).mpr (.inl rfl), hk⟩
      · split at h
        · rename_i hc
          obtain ⟨there, hthere, hk⟩ := ih rfl h
          exact ⟨there, (passes_zero hrest).mpr (.inr ⟨hc, hthere⟩), hk⟩
        · cases h
    | succ least =>
      rw [nearest] at h
      split at h
      · rename_i hc
        obtain ⟨there, hthere, hk⟩ := ih rfl h
        exact ⟨there, (passes_succ hrest).mpr ⟨hc, hthere⟩, hk⟩
      · cases h

theorem nearest_complete (hpasses : Passes p least here there) (hk : (k there).isSome) :
    (nearest p k here.rest least here).isSome := by
  generalize hrest : here.rest = cs
  induction cs generalizing here least with
  | nil =>
    obtain ⟨rfl, rfl⟩ := (passes_nil hrest).mp hpasses
    exact hk
  | cons c cs ih =>
    cases least with
    | zero =>
      rw [nearest]
      rcases (passes_zero hrest).mp hpasses with rfl | ⟨hc, hpasses⟩
      · cases hkthere : k there with
        | none =>
          rw [hkthere] at hk
          cases hk
        | some b => rfl
      · cases k here with
        | none => simpa [hc] using ih hpasses rfl
        | some b => rfl
    | succ least =>
      obtain ⟨hc, hpasses⟩ := (passes_succ hrest).mp hpasses
      rw [nearest, if_pos hc]
      exact ih hpasses rfl

end Characters

/-! ## Repetition of a step -/

section Steps

variable {α : Type} {S : List Char → List Char → List Char → Prop}
  {step : (Place → Option α) → Place → Option α} {k : Place → Option α} {here : Place} {limit : Nat}

/-- A repetition of a step that goes through pieces goes through such pieces one after another. -/
theorem repeating_sound {a : α}
    (hstep : ∀ (k : Place → Option α) (here : Place), here.Counted →
      step k here = some a → ∃ piece rest groups, here.rest = piece ++ rest ∧
        S here.before piece rest ∧ k (here.past piece rest groups) = some a)
    (hhere : here.Counted) (h : repeating step k limit here = some a) :
    ∃ piece rest groups, here.rest = piece ++ rest ∧ Repeats S here.before piece rest ∧
      k (here.past piece rest groups) = some a := by
  induction limit generalizing here with
  | zero => exact ⟨[], here.rest, here.groups, rfl, .done _ _, h⟩
  | succ limit ih =>
    rw [repeating, Option.orElse_eq_or, Option.or_eq_some_iff] at h
    rcases h with h | ⟨-, h⟩
    · obtain ⟨piece, rest, groups, hrest, hpiece, h⟩ := hstep _ _ hhere h
      split at h
      · rename_i hlt
        obtain ⟨others, rest', groups', hrest', hothers, hk⟩ :=
          ih (hhere.past piece rest groups) h
        have hrest' : rest = others ++ rest' := hrest'
        subst hrest'
        have hne : piece ≠ [] := by
          rintro rfl
          exact Nat.lt_irrefl _ hlt
        refine ⟨piece ++ others, rest', groups', by rw [hrest, List.append_assoc],
          .more hpiece hne hothers, ?_⟩
        rwa [Place.past_past] at hk
      · cases h
    · exact ⟨[], here.rest, here.groups, rfl, .done _ _, h⟩

/-- A repetition of a step that finds every piece finds what consists of pieces, if it may be long
enough. -/
theorem repeating_complete {piece rest : List Char}
    (hstep : ∀ (k : Place → Option α) (here : Place) (piece rest : List Char), here.Counted →
      here.rest = piece ++ rest → S here.before piece rest →
      (∀ groups, (k (here.past piece rest groups)).isSome) → (step k here).isSome)
    (hhere : here.Counted) (hrest : here.rest = piece ++ rest)
    (h : Repeats S here.before piece rest)
    (hk : ∀ groups, (k (here.past piece rest groups)).isSome) (hlimit : piece.length ≤ limit) :
    (repeating step k limit here).isSome := by
  generalize hbefore : here.before = before at h
  induction h generalizing here limit with
  | done _ rest =>
    have hsame : here.past [] rest here.groups = here := by
      rw [← show here.rest = rest from hrest, Place.past_nil]
    have hstop := hk here.groups
    rw [hsame] at hstop
    cases limit with
    | zero => exact hstop
    | succ limit => rw [repeating, Option.orElse_eq_or, Option.isSome_or, hstop, Bool.or_true]
  | @more before piece others rest hpiece hne _ ih =>
    subst hbefore
    have hpos : 0 < piece.length := List.length_pos_iff.mpr hne
    rw [List.length_append] at hlimit
    obtain ⟨limit, rfl⟩ : ∃ fewer, limit = fewer + 1 := ⟨limit - 1, by omega⟩
    rw [List.append_assoc] at hrest
    have hgo : (step (fun there => if here.index < there.index then
        repeating step k limit there else none) here).isSome := by
      refine hstep _ _ _ _ hhere hrest hpiece fun groups => ?_
      have hlt : here.index < (here.past piece (others ++ rest) groups).index :=
        Nat.lt_add_of_pos_right hpos
      rw [if_pos hlt]
      refine ih (hhere.past _ _ _) rfl (fun groups' => ?_) (by omega) rfl
      rw [Place.past_past]
      exact hk groups'
    rw [repeating, Option.orElse_eq_or, Option.isSome_or, hgo, Bool.true_or]

end Steps

/-! ## Whole patterns -/

section Matches

variable {α : Type}

/-- What the search for a match comes to: a piece that the pattern spells, and what follows it. -/
theorem match?_sound {p : Pattern} {k : Place → Option α} {here : Place} {a : α}
    (hhere : here.Counted) (h : p.match? k here = some a) :
    ∃ piece rest groups, here.rest = piece ++ rest ∧ p.Spells here.before piece rest ∧
      k (here.past piece rest groups) = some a := by
  induction p generalizing k here with
  | empty => exact ⟨[], here.rest, here.groups, rfl, rfl, h⟩
  | text cs =>
    rw [match?] at h
    split at h
    · rename_i hprefix
      obtain ⟨rest, hrest⟩ := List.isPrefixOf_iff_prefix.mp hprefix
      rw [Place.skip_eq_past hrest.symm] at h
      exact ⟨cs, rest, here.groups, hrest.symm, rfl, h⟩
    · cases h
  | one p =>
    rw [match?] at h
    split at h
    · cases h
    · rename_i c rest hrest
      split at h
      · rename_i hc
        exact ⟨[c], rest, here.groups, hrest, ⟨c, rfl, hc⟩, h⟩
      · cases h
  | many p least =>
    obtain ⟨there, hthere, hk⟩ := List.exists_of_findSome?_eq_some h
    rcases mem_reached.mp hthere with hnil | ⟨piece, rest, hrest, hleast, hp, rfl⟩
    · cases hnil
    · exact ⟨piece, rest, here.groups, hrest, ⟨hleast, hp⟩, hk⟩
  | few p least =>
    obtain ⟨there, ⟨piece, rest, hrest, hleast, hp, rfl⟩, hk⟩ := nearest_sound h
    exact ⟨piece, rest, here.groups, hrest, ⟨hleast, hp⟩, hk⟩
  | next a b iha ihb =>
    obtain ⟨u, rest, groups, hrest, hu, h⟩ := iha hhere h
    obtain ⟨v, rest', groups', hrest', hv, hk⟩ := ihb (hhere.past u rest groups) h
    have hrest' : rest = v ++ rest' := hrest'
    subst hrest'
    refine ⟨u ++ v, rest', groups', by rw [hrest, List.append_assoc], ⟨u, v, rfl, hu, hv⟩, ?_⟩
    rwa [Place.past_past] at hk
  | either a b iha ihb =>
    rw [match?, Option.orElse_eq_or, Option.or_eq_some_iff] at h
    rcases h with h | ⟨-, h⟩
    · obtain ⟨piece, rest, groups, hrest, hpiece, hk⟩ := iha hhere h
      exact ⟨piece, rest, groups, hrest, .inl hpiece, hk⟩
    · obtain ⟨piece, rest, groups, hrest, hpiece, hk⟩ := ihb hhere h
      exact ⟨piece, rest, groups, hrest, .inr hpiece, hk⟩
  | again a iha =>
    rw [match?] at h
    exact repeating_sound (fun _ _ => iha) hhere h
  | group number a iha =>
    obtain ⟨piece, rest, groups, hrest, hpiece, hk⟩ := iha hhere h
    exact ⟨piece, rest, _, hrest, hpiece, hk⟩
  | wordEdge =>
    rw [match?] at h
    split at h
    · rename_i hedge
      exact ⟨[], here.rest, here.groups, rfl, ⟨rfl, bne_iff_ne.mp hedge⟩, h⟩
    · cases h
  | beginning =>
    rw [match?] at h
    split at h
    · rename_i hindex
      have hnone : here.before = [] := List.length_eq_zero_iff.mp (hhere.symm.trans hindex)
      exact ⟨[], here.rest, here.groups, rfl, ⟨rfl, hnone⟩, h⟩
    · cases h
  | notAfter cs =>
    rw [match?] at h
    split at h
    · cases h
    · rename_i hafter
      exact ⟨[], here.rest, here.groups, rfl, ⟨rfl, mt List.isPrefixOf_iff_prefix.mpr hafter⟩, h⟩

/-- The search finds something if the pattern spells a piece that the rest of the search accepts,
whatever groups are read in it. -/
theorem match?_complete {p : Pattern} {k : Place → Option α} {here : Place}
    {piece rest : List Char} (hhere : here.Counted) (hrest : here.rest = piece ++ rest)
    (h : p.Spells here.before piece rest)
    (hk : ∀ groups, (k (here.past piece rest groups)).isSome) : (p.match? k here).isSome := by
  induction p generalizing k here piece rest with
  | empty =>
    cases h
    have hsame : here.past [] rest here.groups = here := by
      rw [← show here.rest = rest from hrest, Place.past_nil]
    rw [match?, ← hsame]
    exact hk here.groups
  | text cs =>
    cases h
    rw [match?, if_pos (List.isPrefixOf_iff_prefix.mpr ⟨rest, hrest.symm⟩),
      Place.skip_eq_past hrest]
    exact hk here.groups
  | one p =>
    obtain ⟨c, rfl, hc⟩ := h
    rw [match?, hrest, List.singleton_append]
    dsimp only
    rw [if_pos hc]
    exact hk here.groups
  | many p least =>
    rw [match?, List.findSome?_isSome_iff]
    exact ⟨_, mem_reached.mpr (.inr ⟨piece, rest, hrest, h.1, h.2, rfl⟩), hk here.groups⟩
  | few p least => exact nearest_complete ⟨piece, rest, hrest, h.1, h.2, rfl⟩ (hk here.groups)
  | next a b iha ihb =>
    obtain ⟨u, v, rfl, hu, hv⟩ := h
    rw [List.append_assoc] at hrest
    refine iha hhere hrest hu fun groups => ihb (hhere.past _ _ _) rfl hv fun groups' => ?_
    rw [Place.past_past]
    exact hk groups'
  | either a b iha ihb =>
    rw [match?, Option.orElse_eq_or, Option.isSome_or, Bool.or_eq_true]
    rcases h with h | h
    · exact .inl (iha hhere hrest h hk)
    · exact .inr (ihb hhere hrest h hk)
  | again a iha =>
    rw [match?]
    refine repeating_complete (fun _ _ _ _ => iha) hhere hrest h hk ?_
    rw [hrest, List.length_append]
    exact Nat.le_add_right _ _
  | group number a iha => exact iha hhere hrest h fun groups => hk _
  | wordEdge =>
    obtain ⟨rfl, hedge⟩ := h
    have hrest : here.rest = rest := hrest
    subst hrest
    rw [match?, if_pos (show here.atWordEdge = true from bne_iff_ne.mpr hedge)]
    exact hk here.groups
  | beginning =>
    obtain ⟨rfl, hnone⟩ := h
    have hrest : here.rest = rest := hrest
    subst hrest
    rw [match?, if_pos (by rw [hhere, hnone]; rfl)]
    exact hk here.groups
  | notAfter cs =>
    obtain ⟨rfl, hafter⟩ := h
    have hrest : here.rest = rest := hrest
    subst hrest
    rw [match?, if_neg (mt List.isPrefixOf_iff_prefix.mp hafter)]
    exact hk here.groups

/-- A match is a piece that the pattern spells where it begins, and is not empty. -/
theorem foundAt_sound {p : Pattern} {here : Place} {m : Found} (hhere : here.Counted)
    (h : p.foundAt here = some m) :
    ∃ piece rest groups, here.rest = piece ++ rest ∧ piece ≠ [] ∧
      p.Spells here.before piece rest ∧ m = ⟨here, here.past piece rest groups⟩ := by
  obtain ⟨piece, rest, groups, hrest, hpiece, hk⟩ := match?_sound hhere h
  split at hk
  · rename_i hlt
    cases hk
    refine ⟨piece, rest, groups, hrest, ?_, hpiece, rfl⟩
    rintro rfl
    exact Nat.lt_irrefl _ hlt
  · cases hk

theorem foundAt_isSome_iff {p : Pattern} {here : Place} (hhere : here.Counted) :
    (p.foundAt here).isSome ↔ ∃ piece rest, here.rest = piece ++ rest ∧ piece ≠ [] ∧
      p.Spells here.before piece rest := by
  constructor
  · intro h
    obtain ⟨m, hm⟩ := Option.isSome_iff_exists.mp h
    obtain ⟨piece, rest, -, hrest, hne, hpiece, -⟩ := foundAt_sound hhere hm
    exact ⟨piece, rest, hrest, hne, hpiece⟩
  · rintro ⟨piece, rest, hrest, hne, hpiece⟩
    refine match?_complete hhere hrest hpiece fun groups => ?_
    have hlt : here.index < (here.past piece rest groups).index :=
      Nat.lt_add_of_pos_right (List.length_pos_iff.mpr hne)
    rw [if_pos hlt]
    rfl

/-- What a text is cut into are the matches that it had before and matches that begin in it. -/
theorem foundAt_of_mem_cutting {p : Pattern} {m : Found} {cs : List Char} (before : List Char)
    {skip : Nat} {done : List Piece} (h : .found m ∈ cutting p cs before before.length skip done) :
    .found m ∈ done ∨ ∃ here : Place, here.Counted ∧ p.foundAt here = some m := by
  induction cs generalizing before skip done with
  | nil => exact .inl (List.mem_reverse.mp h)
  | cons c rest ih =>
    cases skip with
    | succ skip => exact ih (c :: before) h
    | zero =>
      rw [cutting] at h
      split at h
      · rename_i found hfound
        rcases ih (c :: before) h with hdone | hlater
        · rcases List.mem_cons.mp hdone with hm | hdone
          · cases hm
            exact .inr ⟨⟨before, c :: rest, before.length, []⟩, rfl, hfound⟩
          · exact .inl hdone
        · exact .inr hlater
      · rcases ih (c :: before) h with hdone | hlater
        · exact .inl (List.mem_of_ne_of_mem (by simp) hdone)
        · exact .inr hlater

theorem foundAt_of_mem_findAll {p : Pattern} {m : Found} {cs : List Char} (h : m ∈ p.findAll cs) :
    ∃ here : Place, here.Counted ∧ p.foundAt here = some m := by
  obtain ⟨piece, hpiece, hm⟩ := List.mem_filterMap.mp h
  cases piece with
  | plain c => cases hm
  | found found =>
    cases hm
    rcases foundAt_of_mem_cutting [] hpiece with hnil | hfound
    · cases hnil
    · exact hfound

theorem text_past (here : Place) {piece rest : List Char} (hrest : here.rest = piece ++ rest)
    (groups : List (Nat × Span)) : Found.text ⟨here, here.past piece rest groups⟩ = piece := by
  show here.rest.take (here.index + piece.length - here.index) = piece
  rw [Nat.add_sub_cancel_left, hrest, List.take_left]

end Matches

end Pattern

end Cartridge
