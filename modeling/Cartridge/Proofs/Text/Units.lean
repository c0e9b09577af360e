import Mathlib.Data.List.Chain

/-!
# Code points and units

A text may be a list of code points that are no characters: the halves of pairs of UTF-16 units.
Written by its units such a text is known again, unless it holds both halves of a pair one after the
other: these are the units of one character.

* `units`: the UTF-16 units of a text.
* `Unsplit`: a text without the two halves of a pair one after the other.
* `units_inj`: such a text is known from its units.
* `unsplit_points`: a text of characters is one.
-/

namespace Cartridge

/-- A code point: a character, or half of a pair. -/
abbrev CodePoint := Fin 0x110000

/-- A UTF-16 unit. -/
abbrev CodeUnit := Fin 0x10000

namespace Text

theorem toNat_lt (c : Char) : c.toNat < 0x110000 ∧ ¬ (0xd800 ≤ c.toNat ∧ c.toNat < 0xe000) := by
  have hvalid := c.valid
  simp only [UInt32.isValidChar, Nat.isValidChar] at hvalid
  unfold Char.toNat
  omega

theorem toNat_ofNat {n : Nat} (h : n.isValidChar) : (Char.ofNat n).toNat = n := by
  rw [Char.ofNat, dif_pos h]
  rfl

/-- The code point of a character. -/
def point (c : Char) : CodePoint := ⟨c.toNat, (toNat_lt c).1⟩

/-- The code points of a text of characters. -/
def points (s : String) : List CodePoint := s.toList.map point

theorem point_inj {c d : Char} (h : point c = point d) : c = d :=
  Char.toNat_inj.mp (Fin.mk.inj h)

theorem points_append (s t : String) : points (s ++ t) = points s ++ points t := by
  rw [points, String.toList_append, List.map_append]
  rfl

/-! ## Halves of pairs -/

/-- The first of the two units of a code point above 0xFFFF. -/
def highUnit (n : Nat) : Nat := 0xd800 + (n - 0x10000) / 0x400

/-- The second of the two units. -/
def lowUnit (n : Nat) : Nat := 0xdc00 + (n - 0x10000) % 0x400

theorem highUnit_range {n : Nat} (hn : n < 0x110000) :
    0xd800 ≤ highUnit n ∧ highUnit n < 0xdc00 := by
  unfold highUnit
  omega

theorem lowUnit_range (n : Nat) : 0xdc00 ≤ lowUnit n ∧ lowUnit n < 0xe000 := by
  unfold lowUnit
  omega

theorem lowUnit_lt (n : Nat) : lowUnit n < 0x10000 := (lowUnit_range n).2.trans (by decide)

theorem eq_of_halves {n m : Nat} (hn : 0x10000 ≤ n) (hm : 0x10000 ≤ m)
    (hhigh : highUnit n = highUnit m) (hlow : lowUnit n = lowUnit m) : n = m := by
  unfold highUnit at hhigh
  unfold lowUnit at hlow
  omega

/-- The first half of a pair. -/
def IsHigh (p : CodePoint) : Prop := 0xd800 ≤ p.val ∧ p.val < 0xdc00

/-- The second half of a pair. -/
def IsLow (p : CodePoint) : Prop := 0xdc00 ≤ p.val ∧ p.val < 0xe000

instance (p : CodePoint) : Decidable (IsHigh p) := inferInstanceAs (Decidable (_ ∧ _))

instance (p : CodePoint) : Decidable (IsLow p) := inferInstanceAs (Decidable (_ ∧ _))

/-- A text without the two halves of a pair one after the other. -/
def Unsplit (s : List CodePoint) : Prop := s.IsChain fun p q => ¬ (IsHigh p ∧ IsLow q)

/-! ## Units -/

/-- The units of a code point. -/
def unitsOf (p : CodePoint) : List CodeUnit :=
  if h : p.val < 0x10000 then [⟨p.val, h⟩]
  else
    [⟨highUnit p.val, (highUnit_range p.isLt).2.trans (by decide)⟩,
      ⟨lowUnit p.val, (lowUnit_range p.val).2.trans (by decide)⟩]

/-- The units of a text. -/
def units (s : List CodePoint) : List CodeUnit := s.flatMap unitsOf

theorem unitsOf_of_lt {p : CodePoint} (h : p.val < 0x10000) : unitsOf p = [⟨p.val, h⟩] := dif_pos h

theorem units_cons (p : CodePoint) (s : List CodePoint) : units (p :: s) = unitsOf p ++ units s :=
  List.flatMap_cons

/-- The first unit of a code point, and that it is no second half unless it is the code point. -/
theorem unitsOf_eq_cons (p : CodePoint) : ∃ u rest, unitsOf p = u :: rest ∧
    (u.val = p.val ∨ u.val < 0xdc00) := by
  unfold unitsOf
  split
  · exact ⟨_, _, rfl, .inl rfl⟩
  · exact ⟨_, _, rfl, .inr (highUnit_range p.isLt).2⟩

/-- A code point of one unit is told from one of two, unless the second halves of both follow. -/
theorem not_units_of_pair {p q : CodePoint} {s t : List CodePoint} (hs : Unsplit (p :: s))
    (hp : p.val < 0x10000) (hq : ¬ q.val < 0x10000) : units (p :: s) ≠ units (q :: t) := by
  intro h
  rw [units_cons, units_cons, unitsOf_of_lt hp, unitsOf, dif_neg hq] at h
  simp only [List.cons_append, List.nil_append, List.cons.injEq, Fin.mk.injEq] at h
  obtain ⟨hhigh, hrest⟩ := h
  cases s with
  | nil => cases hrest
  | cons r s =>
    obtain ⟨u, others, hr, hu⟩ := unitsOf_eq_cons r
    rw [units_cons, hr, List.cons_append, List.cons.injEq, Fin.ext_iff] at hrest
    have hlow : u.val = lowUnit q.val := hrest.1
    have hrange := lowUnit_range q.val
    have hrange' := highUnit_range q.isLt
    refine (List.isChain_cons_cons.mp hs).1 ⟨?_, ?_⟩
    · unfold IsHigh
      omega
    · unfold IsLow
      omega

/-- A text without split pairs is known from its units. -/
theorem units_inj {s t : List CodePoint} (hs : Unsplit s) (ht : Unsplit t)
    (h : units s = units t) : s = t := by
  induction s generalizing t with
  | nil =>
    cases t with
    | nil => rfl
    | cons q t =>
      obtain ⟨u, others, hq, -⟩ := unitsOf_eq_cons q
      rw [units_cons, hq] at h
      cases h
  | cons p s ih =>
    cases t with
    | nil =>
      obtain ⟨u, others, hp, -⟩ := unitsOf_eq_cons p
      rw [units_cons, hp] at h
      cases h
    | cons q t =>
      by_cases hp : p.val < 0x10000
      · by_cases hq : q.val < 0x10000
        · rw [units_cons, units_cons, unitsOf_of_lt hp, unitsOf_of_lt hq] at h
          simp only [List.cons_append, List.nil_append, List.cons.injEq, Fin.mk.injEq] at h
          obtain ⟨hfirst, hrest⟩ := h
          obtain rfl : p = q := Fin.ext hfirst
          exact congrArg (p :: ·) (ih hs.of_cons ht.of_cons hrest)
        · exact absurd h (not_units_of_pair hs hp hq)
      · by_cases hq : q.val < 0x10000
        · exact absurd h.symm (not_units_of_pair ht hq hp)
        · rw [units_cons, units_cons, unitsOf, unitsOf, dif_neg hp, dif_neg hq] at h
          simp only [List.cons_append, List.nil_append, List.cons.injEq, Fin.mk.injEq] at h
          obtain ⟨hhigh, hlow, hrest⟩ := h
          obtain rfl : p = q := Fin.ext
            (eq_of_halves (Nat.le_of_not_lt hp) (Nat.le_of_not_lt hq) hhigh hlow)
          exact congrArg (p :: ·) (ih hs.of_cons ht.of_cons hrest)

/-! ## Texts of characters -/

theorem unsplit_points (s : String) : Unsplit (points s) := by
  have hchar (c d : Char) : ¬ (IsHigh (point c) ∧ IsLow (point d)) := fun h =>
    (toNat_lt c).2 ⟨h.1.1, h.1.2.trans (by decide)⟩
  unfold Unsplit points
  rw [List.isChain_map]
  exact (List.pairwise_of_forall hchar).isChain

theorem points_inj {s t : String} (h : points s = points t) : s = t :=
  String.toList_inj.mp ((List.map_inj_right fun _ _ => point_inj).mp h)

end Text

end Cartridge
