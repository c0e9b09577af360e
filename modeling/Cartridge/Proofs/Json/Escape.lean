import Cartridge.Json.Writer
import Cartridge.Proofs.Text.Units
import Mathlib.Data.List.Induction

/-!
# Reading escapes back

A written string gives its UTF-16 units back, read from its start or from its end: no escape begins
another one, and every quote between the outer two has a backslash before it.

* `escapedUnit_append_inj`: the first unit of an escaped text, and what follows its escape.
* `flatMap_escapedUnit_inj`: different units are escaped differently.
* `backslash_before_quote`: a quote in an escaped text has a backslash before it.
* `quotedUnits_unique`: where a written string begins is known from its end, unless a backslash
  comes before it.
* `quoted_eq`: a string is written by its units.
-/

namespace Cartridge.Json

open Text

/-! ## The four kinds of escapes -/

/-- The characters that have an escape of two characters, with the second one. -/
def shortEscapes : List (Char × Char) :=
  [('"', '"'), ('\\', '\\'), ('\n', 'n'), ('\r', 'r'), ('\t', 't'), ('\x08', 'b'), ('\x0c', 'f')]

theorem shortEscapes_inj {c d l : Char} (hc : (c, l) ∈ shortEscapes) (hd : (d, l) ∈ shortEscapes) :
    c = d := by
  have hall : ∀ p ∈ shortEscapes, ∀ q ∈ shortEscapes, p.2 = q.2 → p.1 = q.1 := by decide
  exact hall _ hc _ hd rfl

theorem ne_of_mem_shortEscapes {c l : Char} (h : (c, l) ∈ shortEscapes) : l ≠ 'u' := by
  have hall : ∀ p ∈ shortEscapes, p.2 ≠ 'u' := by decide
  exact hall _ h

/-- How a character is escaped: not at all, by two characters, by one unit, or by two. -/
inductive Escape (c : Char) : List Char → Prop where
  | plain (hrange : 0x20 ≤ c.toNat ∧ c.toNat < 0x7f) (hbackslash : c ≠ '\\') (hquote : c ≠ '"') :
    Escape c [c]
  | short {l : Char} (hmem : (c, l) ∈ shortEscapes) : Escape c ['\\', l]
  | unit (hlow : c.toNat < 0x10000) : Escape c (unitEscape c.toNat)
  | units {high low : Nat} (hhigh : 0x10000 ≤ c.toNat) (hfirst : highUnit c.toNat = high)
    (hsecond : lowUnit c.toNat = low) : Escape c (unitEscape high ++ unitEscape low)

theorem escape_escaped (c : Char) : Escape c (escaped c) := by
  unfold escaped
  split
  iterate 7 exact .short (by decide)
  dsimp only
  split
  · rename_i hrange
    exact .plain (by simpa using hrange) (by assumption) (by assumption)
  · split
    · rename_i hlow
      exact .unit hlow
    · rename_i hhigh
      exact .units (Nat.le_of_not_lt hhigh) rfl rfl

/-! ## Units -/

/-- A unit as it stands in a written string. -/
def escapedUnit (u : CodeUnit) : List Char :=
  if 0xd800 ≤ u.val ∧ u.val < 0xe000 then unitEscape u.val else escaped (Char.ofNat u.val)

/-- Units in quotes. -/
def quotedUnits (s : List CodeUnit) : List Char := '"' :: s.flatMap escapedUnit ++ ['"']

/-- A character is written by its units. -/
theorem escaped_eq (c : Char) :
    escaped c = (unitsOf (point c)).flatMap escapedUnit := by
  rw [point]
  by_cases hlow : c.toNat < 0x10000
  · rw [unitsOf_of_lt hlow, List.flatMap_singleton, escapedUnit, if_neg (toNat_lt c).2,
      Char.ofNat_toNat]
  · have hhigh := highUnit_range (toNat_lt c).1
    have hsecond := lowUnit_range c.toNat
    have hunit {n : Nat} (hn : n < 0x10000) (hhalf : 0xd800 ≤ n ∧ n < 0xe000) :
        escapedUnit ⟨n, hn⟩ = unitEscape n := if_pos hhalf
    rw [unitsOf, dif_neg hlow, List.flatMap_cons, List.flatMap_singleton,
      hunit _ ⟨hhigh.1, hhigh.2.trans (by decide)⟩,
      hunit _ ⟨Nat.le_trans (by decide) hsecond.1, hsecond.2⟩]
    obtain ⟨P, hP, hc⟩ : ∃ P, escaped c = P ∧ Escape c P := ⟨_, rfl, escape_escaped c⟩
    rw [hP]
    cases hc with
    | plain hrange => omega
    | short hmem =>
      have hall : ∀ p ∈ shortEscapes, p.1.toNat < 0x10000 := by decide
      exact absurd (hall _ hmem) hlow
    | unit h => exact absurd h hlow
    | units _ hfirst hsecond => rw [hfirst, hsecond]

/-- A string is written by its units. -/
theorem quoted_eq (s : String) : (quoted s).toList = quotedUnits (units (points s)) := by
  rw [quoted, String.toList_ofList, quotedUnits, units, points, List.flatMap_map,
    List.flatMap_assoc]
  simp only [← escaped_eq]

/-- How a unit is escaped: not at all, by two characters, or by six. -/
inductive UnitEscape (n : Nat) : List Char → Prop where
  | plain {c : Char} (hc : c.toNat = n) (hbackslash : c ≠ '\\') (hquote : c ≠ '"') :
    UnitEscape n [c]
  | short {c l : Char} (hc : c.toNat = n) (hmem : (c, l) ∈ shortEscapes) : UnitEscape n ['\\', l]
  | unit (hn : n < 0x10000) : UnitEscape n (unitEscape n)

theorem escape_escapedUnit (u : CodeUnit) : UnitEscape u.val (escapedUnit u) := by
  unfold escapedUnit
  split
  · exact .unit u.isLt
  · rename_i hchar
    have hvalid : u.val.isValidChar := by
      unfold Nat.isValidChar
      omega
    have hc : (Char.ofNat u.val).toNat = u.val := toNat_ofNat hvalid
    generalize Char.ofNat u.val = c at hc
    obtain ⟨P, hP, hescape⟩ : ∃ P, escaped c = P ∧ Escape c P := ⟨_, rfl, escape_escaped c⟩
    rw [hP]
    cases hescape with
    | plain _ hbackslash hquote => exact .plain hc hbackslash hquote
    | short hmem => exact .short hc hmem
    | unit hlow =>
      rw [hc]
      exact .unit u.isLt
    | units hhigh => omega

theorem unitEscape_append_inj {n m : Nat} {X Y : List Char} (hn : n < 0x10000) (hm : m < 0x10000)
    (h : unitEscape n ++ X = unitEscape m ++ Y) : n = m ∧ X = Y := by
  unfold unitEscape at h
  rw [Text.hexDigits_four hn, Text.hexDigits_four hm] at h
  simp only [List.cons_append, List.nil_append, List.cons.injEq, true_and] at h
  obtain ⟨h₁, h₂, h₃, h₄, hrest⟩ := h
  have := Text.digitChar_inj (by omega) (by omega) h₁
  have := Text.digitChar_inj (by omega) (by omega) h₂
  have := Text.digitChar_inj (by omega) (by omega) h₃
  have := Text.digitChar_inj (by omega) (by omega) h₄
  exact ⟨by omega, hrest⟩

/-! ## Reading from the start -/

theorem escapedUnit_append_inj {u v : CodeUnit} {X Y : List Char}
    (h : escapedUnit u ++ X = escapedUnit v ++ Y) : u = v ∧ X = Y := by
  suffices hvalue : u.val = v.val ∧ X = Y from ⟨Fin.ext hvalue.1, hvalue.2⟩
  have hu := escape_escapedUnit u
  have hv := escape_escapedUnit v
  generalize escapedUnit u = P at h hu
  generalize escapedUnit v = Q at h hv
  cases hu with
  | plain hc hbackslash =>
    cases hv with
    | plain hd =>
      obtain ⟨rfl, hrest⟩ := List.cons.inj h
      exact ⟨hc.symm.trans hd, hrest⟩
    | short => exact absurd (List.cons.inj h).1 hbackslash
    | unit => exact absurd (List.cons.inj h).1 hbackslash
  | short hc hmem =>
    have hletter := ne_of_mem_shortEscapes hmem
    cases hv with
    | plain hd hbackslash => exact absurd (List.cons.inj h).1.symm hbackslash
    | short hd hmem' =>
      obtain ⟨rfl, hrest⟩ := List.cons.inj (List.cons.inj h).2
      rw [← hc, ← hd, shortEscapes_inj hmem hmem']
      exact ⟨rfl, hrest⟩
    | unit => exact absurd (List.cons.inj (List.cons.inj h).2).1 hletter
  | unit hn =>
    cases hv with
    | plain hd hbackslash => exact absurd (List.cons.inj h).1.symm hbackslash
    | short hd hmem =>
      exact absurd (List.cons.inj (List.cons.inj h).2).1.symm (ne_of_mem_shortEscapes hmem)
    | unit hm => exact unitEscape_append_inj hn hm h

theorem escapedUnit_ne_nil (u : CodeUnit) : escapedUnit u ≠ [] := by
  have hu := escape_escapedUnit u
  generalize escapedUnit u = P at hu
  cases hu <;> exact List.cons_ne_nil _ _

theorem flatMap_escapedUnit_inj {s t : List CodeUnit}
    (h : s.flatMap escapedUnit = t.flatMap escapedUnit) : s = t := by
  induction s generalizing t with
  | nil =>
    cases t with
    | nil => rfl
    | cons v t => simp [escapedUnit_ne_nil] at h
  | cons u s ih =>
    cases t with
    | nil => simp [escapedUnit_ne_nil] at h
    | cons v t =>
      obtain ⟨hfirst, hrest⟩ := escapedUnit_append_inj (X := s.flatMap escapedUnit) h
      rw [hfirst, ih hrest]

/-! ## Reading from the end -/

theorem quote_not_mem_unitEscape {n : Nat} (hn : n < 0x10000) : '"' ∉ unitEscape n := by
  have hdigit : ∀ d < 16, '"' ≠ d.digitChar := by decide
  unfold unitEscape
  rw [Text.hexDigits_four hn]
  simp only [List.mem_cons, List.not_mem_nil, or_false, not_or]
  exact ⟨by decide, by decide, hdigit _ (by omega), hdigit _ (by omega), hdigit _ (by omega),
    hdigit _ (by omega)⟩

theorem backslash_before_quote_escaped {u : CodeUnit} {M N : List Char}
    (h : escapedUnit u = M ++ '"' :: N) : M = ['\\'] := by
  have hu := escape_escapedUnit u
  rw [h] at hu
  generalize hP : M ++ '"' :: N = P at hu
  have hmem : '"' ∈ P := by
    rw [← hP]
    simp
  cases hu with
  | plain hc hbackslash hquote => exact absurd (List.mem_singleton.mp hmem).symm hquote
  | short =>
    cases M with
    | nil => cases hP
    | cons a M =>
      obtain ⟨rfl, hP⟩ := List.cons.inj hP
      cases M with
      | nil => rfl
      | cons b M =>
        have hnil := (List.cons.inj hP).2
        simp at hnil
  | unit hn => exact absurd hmem (quote_not_mem_unitEscape hn)

theorem backslash_before_quote {s : List CodeUnit} {M N : List Char}
    (h : s.flatMap escapedUnit = M ++ '"' :: N) : ∃ M', M = M' ++ ['\\'] := by
  induction s generalizing M with
  | nil => simp at h
  | cons u s ih =>
    rw [List.flatMap_cons, List.append_eq_append_iff] at h
    rcases h with ⟨M₂, rfl, hrest⟩ | ⟨K, hfirst, hrest⟩
    · obtain ⟨M', rfl⟩ := ih hrest
      exact ⟨escapedUnit u ++ M', by rw [List.append_assoc]⟩
    · cases K with
      | nil =>
        obtain ⟨M', hM'⟩ := ih (M := []) hrest.symm
        simp at hM'
      | cons a K =>
        obtain ⟨rfl, -⟩ := List.cons.inj hrest
        exact ⟨[], backslash_before_quote_escaped hfirst⟩

/-- A text that ends where a value may begin. -/
def Opens (A : List Char) : Prop := ∃ A' c, A = A' ++ [c] ∧ c ∈ [' ', '[', '\x7b']

theorem not_opens_backslash (A : List Char) : ¬ Opens (A ++ ['\\']) := by
  rintro ⟨A', c, h, hc⟩
  obtain ⟨-, hlast⟩ := List.append_singleton_inj.mp h
  rw [← hlast] at hc
  revert hc
  decide

theorem quoted_overhang {s : List CodeUnit} {t A M : List Char} (hopens : Opens (A ++ M))
    (h : '"' :: s.flatMap escapedUnit = M ++ '"' :: t) : M = [] := by
  cases M with
  | nil => rfl
  | cons a M =>
    obtain ⟨rfl, htail⟩ := List.cons.inj h
    obtain ⟨M', rfl⟩ := backslash_before_quote htail
    exact absurd hopens (by simpa using not_opens_backslash (A ++ '"' :: M'))

/-- Where a written string begins is known from its end. -/
theorem quotedUnits_unique {s t : List CodeUnit} {A B : List Char} (hA : Opens A) (hB : Opens B)
    (h : A ++ quotedUnits s = B ++ quotedUnits t) : A = B ∧ s = t := by
  have hbody : A ++ '"' :: s.flatMap escapedUnit = B ++ '"' :: t.flatMap escapedUnit := by
    refine List.append_cancel_right (?_ : _ ++ ['"'] = _ ++ ['"'])
    simpa [quotedUnits] using h
  suffices hAB : A = B by
    rw [hAB, List.append_cancel_left_eq, List.cons_inj_right] at hbody
    exact ⟨hAB, flatMap_escapedUnit_inj hbody⟩
  rcases List.append_eq_append_iff.mp hbody with ⟨M, rfl, hM⟩ | ⟨M, rfl, hM⟩
  · rw [quoted_overhang hB hM, List.append_nil]
  · rw [quoted_overhang hA hM, List.append_nil]

end Cartridge.Json
