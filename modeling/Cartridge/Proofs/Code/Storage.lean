import Cartridge.Proofs.Code.Insertion

/-!
# Variables that share storage

Placement keeps every variable of the game's state that has no place yet at one and the same
address. So it makes variables share their storage: those that it places there, with one another and
with those that the code keeps there itself.

* `stateHint_wants`, `constantHint_not_wants`, `registerHint_wants`: the variables that want a hint.
* `declares_placed_iff`: where the variables are after placement.
* `shares_placed_iff`: the variables that share their storage because of placement.
-/

namespace Cartridge.Code

/-! ## The declarations that want a hint, by their names -/

section Wants

variable {before name rest : List Char} (hname : IsName name) (hend : endsName rest = true)

include hend in
/-- A piece of a name reaches no further than the name. -/
theorem name_of_prefix {piece after : List Char} (hpiece : ∀ c ∈ piece, Text.isWord c = true)
    (h : name ++ rest = piece ++ after) : ∃ more, name = piece ++ more ∧ after = more ++ rest := by
  rcases List.append_eq_append_iff.mp h with ⟨inner, rfl, hrest⟩ | ⟨more, rfl, rfl⟩
  · cases inner with
    | nil => exact ⟨[], by simp, by simpa using hrest.symm⟩
    | cons c inner =>
      have hclear : Text.isWord c = false := by
        have := clear_of_endsName hend
        rw [hrest] at this
        exact this
      rw [hpiece c (by simp)] at hclear
      cases hclear
  · exact ⟨more, rfl, rfl⟩

omit hname hend in
theorem wants_iff {h : Hint} {ahead : List Char} : h.Wants before ahead ↔
    ∃ piece after, ahead = piece ++ after ∧ piece ≠ [] ∧ ¬ h.text.toList.reverse <+: before ∧
      h.declaration.Spells before piece after := by
  constructor
  · rintro ⟨piece, after, hsplit, hne, hpiece⟩
    exact ⟨piece, after, hsplit, hne, (wanted_spells h).mp hpiece⟩
  · rintro ⟨piece, after, hsplit, hne, hpiece⟩
    exact ⟨piece, after, hsplit, hne, (wanted_spells h).mpr hpiece⟩

omit hname hend in
theorem append_cancel {w u v a b : List Char} (h : (w ++ u) ++ a = (w ++ v) ++ b) :
    u ++ a = v ++ b := by
  rw [List.append_assoc, List.append_assoc] at h
  exact List.append_cancel_left h

theorem byte_ne_nil (name : List Char) : byte name ≠ [] := List.cons_ne_nil _ _

include hname hend

theorem stateHint_wants : stateHint.Wants before (byte name ++ rest) ↔
    ¬ (place fast).reverse <+: before ∧ IsState name := by
  rw [wants_iff]
  constructor
  · rintro ⟨piece, after, hsplit, -, hafter, hspells⟩
    obtain ⟨own, hown, rfl⟩ := stateHint_spells.mp hspells
    refine ⟨hafter, ?_⟩
    obtain ⟨more, rfl, -⟩ := name_of_prefix hend hown.isName.2 (append_cancel hsplit)
    obtain ⟨role, hrole, tail, htail, rfl⟩ := hown
    refine ⟨role, hrole, tail ++ more, ⟨by simp [htail.1], fun c hc => hname.2 c ?_⟩, by simp⟩
    rw [List.append_assoc]
    exact List.mem_append_right role hc
  · rintro ⟨hafter, hstate⟩
    exact ⟨byte name, rest, rfl, byte_ne_nil name, hafter,
      stateHint_spells.mpr ⟨name, hstate, rfl⟩⟩

omit hname hend in
theorem constantHint_not_wants : ¬ constantHint.Wants before (byte name ++ rest) := by
  rw [wants_iff]
  rintro ⟨piece, after, hsplit, -, -, hspells⟩
  obtain ⟨own, -, rfl⟩ := constantHint_spells.mp hspells
  cases hsplit

theorem registerHint_wants : registerHint.Wants before (byte name ++ rest) ↔
    ¬ "register ".toList.reverse <+: before ∧ Tiny rest := by
  rw [wants_iff]
  constructor
  · rintro ⟨piece, after, hsplit, -, hafter, hspells⟩
    obtain ⟨own, size, hown, hleast, hmost, rfl⟩ := registerHint_spells.mp hspells
    refine ⟨hafter, ?_⟩
    have hsplit := append_cancel hsplit
    rw [List.append_assoc] at hsplit
    obtain ⟨more, rfl, hmore⟩ := name_of_prefix hend hown.2 hsplit
    cases more with
    | nil => exact ⟨size, after, hmore.symm, hleast, hmost⟩
    | cons c more =>
      obtain ⟨rfl, -⟩ := List.cons.inj hmore
      exact absurd (by simp) (not_mem_of_isName hname (c := '[') (by decide))
  · rintro ⟨hafter, size, tail, rfl, hleast, hmost⟩
    refine ⟨byte name ++ ['[', size, ']'], tail, by simp, by simp [byte_ne_nil], hafter, ?_⟩
    exact registerHint_spells.mpr ⟨name, size, hname, hleast, hmost, List.append_assoc _ _ _⟩

end Wants

/-! ## Placement -/

theorem somewhere_congr {cs piece : List Char} {holds holds' : List Char → List Char → Prop}
    (h : ∀ before rest, holds before rest ↔ holds' before rest) :
    Somewhere cs piece holds ↔ Somewhere cs piece holds' :=
  exists_congr fun before => exists_congr fun rest => and_congr_right fun _ => h before rest

theorem somewhere_and_const {cs piece : List Char} {holds : List Char → List Char → Prop}
    {p : Prop} :
    Somewhere cs piece (fun before rest => holds before rest ∧ p) ↔
      Somewhere cs piece holds ∧ p := by
  constructor
  · rintro ⟨before, rest, hsplit, hholds, hp⟩
    exact ⟨⟨before, rest, hsplit, hholds⟩, hp⟩
  · rintro ⟨⟨before, rest, hsplit, hholds⟩, hp⟩
    exact ⟨before, rest, hsplit, hholds, hp⟩

theorem not_register_of_place (before address : List Char) :
    ¬ "register ".toList.reverse <+: (before ++ place address).reverse := by
  have hreverse : (before ++ place address).reverse =
      ' ' :: ')' :: (before ++ ("__at(".toList ++ address)).reverse := by
    simp [place]
  rw [hreverse]
  rintro ⟨others, hothers⟩
  exact absurd (List.cons.inj (List.cons.inj hothers).2).1 (by decide)

theorem place_suffix_iff {before address : List Char} (haddress : IsAddress address) :
    (place fast).reverse <+: (before ++ place address).reverse ↔ address = fast := by
  rw [List.reverse_prefix]
  constructor
  · rintro ⟨front, hfront⟩
    have hreverse : fast.reverse ++ '(' :: (front ++ "__at".toList).reverse =
        address.reverse ++ '(' :: (before ++ "__at".toList).reverse := by
      simpa [place] using congrArg List.reverse hfront
    have hopen : '(' ∉ address.reverse := fun hmem =>
      haddress '(' (List.mem_reverse.mp hmem) (by decide)
    exact (List.reverse_inj.mp (Text.append_cons_inj (by decide) hopen hreverse).1).symm
  · rintro rfl
    exact List.suffix_append _ _

/-- A tiny array gets its hint between its place and its name, and so has no place any more. -/
theorem declares_register_iff (cs address name : List Char) :
    Declares (registerHint.insert cs) address name ↔ DeclaresLarge cs address name := by
  refine and_congr_right fun haddress => and_congr_right fun hname => ?_
  have htext : registerHint.text.toList ≠ place fast := by decide
  rw [somewhere_insert_iff (by simp [hints]) whole_lasts (fun _ _ => id) haddress hname]
  simp only [htext, false_and, or_false]
  refine somewhere_congr fun before rest => and_congr_right fun hwhole => not_congr ?_
  rw [registerHint_wants hname hwhole.2]
  exact and_iff_right (not_register_of_place before address)

theorem declaresLarge_constant_iff (cs address name : List Char) :
    DeclaresLarge (constantHint.insert cs) address name ↔ DeclaresLarge cs address name := by
  refine and_congr_right fun haddress => and_congr_right fun hname => ?_
  have htext : constantHint.text.toList ≠ place fast := by decide
  rw [somewhere_insert_iff (by simp [hints]) large_lasts (fun _ _ => And.left) haddress hname]
  simp only [htext, false_and, or_false]
  exact somewhere_congr fun before rest => and_iff_left constantHint_not_wants

theorem declaresLarge_state_iff (cs address name : List Char) :
    DeclaresLarge (stateHint.insert cs) address name ↔
      DeclaresLarge cs address name ∧ (IsState name → address = fast) ∨
        address = fast ∧ IsState name ∧ Unplaced cs name := by
  have hstands (haddress : IsAddress address) (hname : IsName name) :
      Somewhere (stateHint.insert cs) (place address ++ byte name) Large ↔
        Somewhere cs (place address ++ byte name) Large ∧ (IsState name → address = fast) ∨
          address = fast ∧ IsState name ∧ Somewhere cs (byte name) Bare := by
    rw [somewhere_insert_iff (by simp [hints]) large_lasts (fun _ _ => And.left) haddress hname,
      ← somewhere_and_const]
    refine or_congr ?_ ?_
    · refine somewhere_congr fun before rest => and_congr_right fun hlarge => ?_
      rw [stateHint_wants hname hlarge.1.2, place_suffix_iff haddress, not_and,
        Decidable.not_imp_not]
    · rw [and_iff_right (show stateHint.text.toList = place fast from rfl),
        and_comm (a := IsState name), ← somewhere_and_const]
      refine and_congr_right fun _ => somewhere_congr fun before rest => ?_
      rw [Bare, and_assoc]
      refine and_congr_right fun hlarge => ?_
      rw [stateHint_wants hname hlarge.1.2, List.reverse_prefix]
  constructor
  · rintro ⟨haddress, hname, hthere⟩
    rcases (hstands haddress hname).mp hthere with ⟨hkept, hplace⟩ | ⟨haddress, hstate, hbare⟩
    · exact .inl ⟨⟨haddress, hname, hkept⟩, hplace⟩
    · exact .inr ⟨haddress, hstate, hname, hbare⟩
  · rintro (⟨⟨haddress, hname, hkept⟩, hplace⟩ | ⟨rfl, hstate, hname, hbare⟩)
    · exact ⟨haddress, hname, (hstands haddress hname).mpr (.inl ⟨hkept, hplace⟩)⟩
    · exact ⟨isAddress_fast, hname, (hstands isAddress_fast hname).mpr (.inr ⟨rfl, hstate, hbare⟩)⟩

example : stateHint.insert "unsigned char enemy_x;unsigned char enemy_y;".toList =
    "__at(0xFF80) unsigned char enemy_x;__at(0xFF80) unsigned char enemy_y;".toList := by
  decide +kernel

/-- Where a variable is after placement: where it was, unless it is a tiny array or belongs to the
game's state; and the game's state is at the fast memory's first address. -/
theorem declares_placed_iff (code : String) (address name : List Char) :
    Declares (placed code).toList address name ↔
      DeclaresLarge code.toList address name ∧ (IsState name → address = fast) ∨
        address = fast ∧ IsState name ∧ Unplaced code.toList name := by
  rw [toList_placed, declares_register_iff, declaresLarge_constant_iff, declaresLarge_state_iff,
    declaresLarge_withHeaders_iff, unplaced_withHeaders_iff]

theorem DeclaresLarge.declares {cs address name : List Char} (h : DeclaresLarge cs address name) :
    Declares cs address name := by
  obtain ⟨haddress, hname, before, rest, hsplit, hlarge⟩ := h
  exact ⟨haddress, hname, before, rest, hsplit, hlarge.1⟩

/-- Placement keeps the variable at the fast memory's first address: the code does so already, or
the variable belongs to the game's state and has no place there yet. -/
def InFast (cs name : List Char) : Prop :=
  DeclaresLarge cs fast name ∨ IsState name ∧ Unplaced cs name

/-- Placement makes two variables share their storage, which they did not share before, exactly if
it keeps them both at the fast memory's first address. -/
theorem shares_placed_iff (code : String) (address x y : List Char) :
    Shares (placed code).toList address x y ∧ ¬ Shares code.toList address x y ↔
      address = fast ∧ x ≠ y ∧ InFast code.toList x ∧ InFast code.toList y ∧
        ¬ Shares code.toList fast x y := by
  have hfast (name : List Char) :
      Declares (placed code).toList fast name ↔ InFast code.toList name := by
    rw [declares_placed_iff, InFast]
    simp
  constructor
  · rintro ⟨⟨hne, hx, hy⟩, hnew⟩
    have haddress : address = fast := by
      refine Decidable.byContradiction fun hother => ?_
      have hkept {name : List Char} (h : Declares (placed code).toList address name) :
          Declares code.toList address name := by
        rcases (declares_placed_iff ..).mp h with ⟨hlarge, -⟩ | ⟨h, -⟩
        · exact hlarge.declares
        · exact absurd h hother
      exact hnew ⟨hne, hkept hx, hkept hy⟩
    subst haddress
    exact ⟨rfl, hne, (hfast x).mp hx, (hfast y).mp hy, hnew⟩
  · rintro ⟨rfl, hne, hx, hy, hnew⟩
    exact ⟨⟨hne, (hfast x).mpr hx, (hfast y).mpr hy⟩, hnew⟩

end Cartridge.Code
