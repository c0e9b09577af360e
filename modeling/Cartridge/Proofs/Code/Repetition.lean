import Cartridge.Proofs.Code.Completion
import Cartridge.Proofs.Code.Disturbances

/-!
# Placement done twice

Code that was placed once has its headers, and the hints for constants and for registers have
nothing to do in it. So a second placement changes it exactly if the hint for the game's state has
something to do again, and that can be told from the code before the first placement.

* `tinyState_insert_iff`, `textBehind_state_iff`: what the hints leave as it is.
* `Unsettled`, `placed_placed_iff`: the code that a second placement changes.
-/

namespace Cartridge.Code

open Marked

/-! ## From hint to hint -/

theorem tinyState_insert_iff {h : Hint} (hh : h ∈ hints) (cs : List Char) :
    TinyState (h.insert cs) ↔ TinyState cs := by
  refine exists_congr fun name => exists_congr fun size => and_congr_right fun hname =>
    and_congr_right fun hleast => and_congr_right fun hmost => ?_
  have hpiece : registerHint.declaration.Spells [] (byte name ++ ['[', size, ']']) [] :=
    registerHint_spells.mpr ⟨name, size, hname.isName, hleast, hmost, List.append_assoc ..⟩
  exact somewhere_tight registerHint_tight hh hpiece

/-- A constant text begins with its keyword, and neither a keyword nor the hint for the state begins
behind its first letter. -/
theorem constant_text {name : List Char} (hname : IsName name) :
    ∃ text, "const char ".toList ++ (name ++ "[]".toList) = 'c' :: text ∧
      "const char ".toList <+: 'c' :: text ∧ Keywordless text ∧
      Lacks stateHint.text.toList text := by
  have hpiece : constantHint.declaration.Spells []
      ("const char ".toList ++ (name ++ "[]".toList)) [] :=
    constantHint_spells.mpr ⟨name, hname, rfl⟩
  obtain ⟨c, text, htext, hbegins, hsolid, hlacks⟩ := constantHint_tight.piece hpiece
  obtain rfl : 'c' = c := (List.cons.inj htext).1
  rw [htext] at hbegins
  exact ⟨text, htext, hbegins, hsolid, hlacks _ (by simp [hints])⟩

section TextBehind

variable {m : Marked}

theorem textBehind_of_woven (hmarks : Marks stateHint.wanted [] m)
    (h : TextBehind (woven stateHint.text.toList m)) : TextBehind (plain m) := by
  have hh : stateHint ∈ hints := by simp [hints]
  have htexts : Keywordless stateHint.text.toList := by decide
  have hroles : ∀ role ∈ roles, Lacks stateHint.text.toList role.dropLast := by decide
  have hkeyed := keyed_of_marks hh hmarks
  obtain ⟨role, hrole, name, hname, before, rest, hsplit, hafter⟩ := h
  refine ⟨role, hrole, name, hname, ?_⟩
  obtain ⟨text, htext, hbegins, -, hlacks⟩ := constant_text hname
  rw [htext] at hsplit ⊢
  rw [byte_append_eq] at hsplit
  obtain ⟨m₁, b, m₂, hm, rfl, hrest⟩ := keyword_of_woven hh hsplit
  rw [place_suffix_woven hh hkeyed hm] at hafter
  obtain ⟨m₃, rfl, hbehind⟩ := unmarked_of_woven (hroles role hrole) hrest.symm
  have hfront : woven stateHint.text.toList m₃ = [] ++ ('c' :: (text ++ rest)) := hbehind.symm
  obtain ⟨n₁, b', n₂, rfl, hnil, -⟩ :=
    marked_of_woven constantHint_tight.keyword hbegins htexts hlacks hfront
  have hn₁ : plain n₁ = [] := by
    have hsub := plain_sublist_woven stateHint.text.toList n₁
    rwa [(List.append_eq_nil_iff.mp hnil.symm).1, List.sublist_nil] at hsub
  obtain rfl := List.map_eq_nil_iff.mp hn₁
  obtain ⟨m₀, rfl, hm₀⟩ := keyword_split hm
  refine ⟨plain m₁, plain n₂, ?_, ?_⟩
  · rw [plain_append, List.nil_append, plain_marked, hm₀, List.append_assoc,
      List.append_assoc (byte _)]
  · cases b with
    | false => exact hafter
    | true => exact absurd rfl hafter

theorem textBehind_woven (hmarks : Marks stateHint.wanted [] m) (h : TextBehind (plain m)) :
    TextBehind (woven stateHint.text.toList m) := by
  have hh : stateHint ∈ hints := by simp [hints]
  have hroles : ∀ role ∈ roles, Keywordless role.dropLast := by decide
  have hkeyed := keyed_of_marks hh hmarks
  obtain ⟨role, hrole, name, hname, before, rest, hsplit, hafter⟩ := h
  refine ⟨role, hrole, name, hname, ?_⟩
  obtain ⟨text, htext, -, hsolid, -⟩ := constant_text hname
  rw [htext] at hsplit ⊢
  rw [byte_append_eq] at hsplit
  obtain ⟨m₁, b, m₂, hm, rfl, hrest⟩ := keyword_of_plain hkeyed hsplit
  obtain ⟨m₃, rfl, hbehind⟩ :=
    unmarked_front (keyed_of_keyword hkeyed hm) (hroles role hrole) hrest
  have hfront : plain m₃ = [] ++ ('c' :: (text ++ rest)) := hbehind
  obtain ⟨n₁, b', n₂, rfl, hnil, rfl⟩ :=
    marked_of_plain (keyed_of_keyword hkeyed hm).of_append hsolid hfront
  obtain rfl := List.map_eq_nil_iff.mp hnil
  rw [List.nil_append] at hm hrest
  -- neither the text nor the byte in front of it is a variable of the state
  cases b' with
  | true =>
    exfalso
    obtain ⟨m₀, rfl, -⟩ := keyword_split hm
    obtain ⟨_, hkeyword, -⟩ := stateHint_wants_iff.mp (wants_of_mark hmarks)
    exact absurd (List.cons.inj hkeyword).1 (by decide)
  | false =>
    cases b with
    | true => exact absurd hm (not_marked_of_dropLast hmarks hrole (by decide) hrest)
    | false =>
      refine ⟨woven stateHint.text.toList m₁, woven stateHint.text.toList n₂, ?_, ?_⟩
      · rw [woven_of_keyword hm, woven_append, woven_unmarked, woven_marked, byte_append_eq]
        exact congrArg (· ++ _) (List.append_nil _)
      · have hplace := mt (place_suffix_woven hh hkeyed hm).mp hafter
        rwa [if_neg (by simp), List.append_nil] at hplace

end TextBehind

/-- The hint for the state leaves a role with a constant text behind it as it is. -/
theorem textBehind_state_iff (cs : List Char) :
    TextBehind (stateHint.insert cs) ↔ TextBehind cs := by
  obtain ⟨m, hmarks, rfl, hwoven⟩ := exists_marks stateHint.wanted stateHint.text.toList cs
  rw [Hint.insert, ← hwoven]
  exact ⟨textBehind_of_woven hmarks, textBehind_woven hmarks⟩

/-! ## The code that a second placement changes -/

/-- The code has a tiny array of the game's state, whose place is taken off by its hint, or what a
hint makes the name of a variable of the state. -/
def Unsettled (cs : List Char) : Prop := TinyState cs ∨ StateBehind cs ∨ TextBehind cs

theorem unplaced_separates {e : Char} (he : e ∈ separators) :
    Separates e fun before _ => ¬ place fast <:+ before := by
  have hmem : e ∉ place fast := not_mem_place isAddress_fast he
  exact ⟨fun a before _ => not_congr (suffix_append_cons hmem a before), fun _ _ _ => Iff.rfl⟩

theorem unsettled_withHeaders_iff (code : String) :
    Unsettled (withHeaders code).toList ↔ Unsettled code.toList := by
  have hclosing : ∀ e ∈ separators, e ∉ "const char ".toList ∧ e ∉ "[]".toList ∧
      e ∈ ['\n', ' ', '>', '['] ∧ ¬ ('1' ≤ e ∧ e ≤ '4') := by
    intro e he
    rcases mem_separators.mp he with rfl | rfl <;> decide
  refine or_congr ?_ (or_congr ?_ ?_)
  · refine exists_congr fun name => exists_congr fun size => and_congr_right fun hname =>
      and_congr_right fun hleast => and_congr_right fun hmost => ?_
    refine somewhere_withHeaders (fun _ _ => ⟨fun _ _ _ => Iff.rfl, fun _ _ _ => Iff.rfl⟩)
      (fun e he hmem => ?_) (List.mem_append_left _ (letter_mem_byte name)) code
    obtain ⟨-, hbrackets, -, hsize⟩ := hclosing e he
    rcases List.mem_append.mp hmem with hmem | hmem
    · exact not_mem_byte hname.isName he hmem
    · simp only [List.mem_cons, List.not_mem_nil, or_false] at hmem
      rcases hmem with rfl | rfl | rfl
      · exact hbrackets (by decide)
      · exact hsize ⟨hleast, hmost⟩
      · exact hbrackets (by decide)
  · refine exists_congr fun w => exists_congr fun name => and_congr_right fun hw =>
      and_congr_right fun hname => ?_
    refine somewhere_withHeaders (fun e he => unplaced_separates he) (fun e he hmem => ?_)
      (List.mem_append_left _ (letter_mem_byte w)) code
    rcases List.mem_append.mp hmem with hmem | hmem
    · exact not_mem_byte hw.isName he hmem
    · exact not_mem_byte hname.isName he hmem
  · refine exists_congr fun role => and_congr_right fun hrole => exists_congr fun name =>
      and_congr_right fun hname => ?_
    have hbegun : Begun role.dropLast := ⟨role, hrole, .inl rfl⟩
    refine somewhere_withHeaders (fun e he => unplaced_separates he) (fun e he hmem => ?_)
      (List.mem_append_left _ (letter_mem_byte _)) code
    obtain ⟨hkeyword, hbrackets, hstop, -⟩ := hclosing e he
    rcases List.mem_append.mp hmem with hmem | hmem
    · exact not_mem_byte hbegun.isName he hmem
    · rcases List.mem_append.mp hmem with hmem | hmem
      · exact hkeyword hmem
      · rcases List.mem_append.mp hmem with hmem | hmem
        · exact not_mem_of_isName hname hstop hmem
        · exact hbrackets hmem

theorem pending_placed_iff (code : String) :
    Pending (placed code).toList ↔ Unsettled code.toList := by
  have hstate : stateHint ∈ hints := by simp [hints]
  have hconstant : constantHint ∈ hints := by simp [hints]
  rw [toList_placed, pending_register_iff, pending_constant_iff, pending_state_iff,
    tinyState_insert_iff hconstant, tinyState_insert_iff hstate, textBehind_state_iff,
    or_comm, ← unsettled_withHeaders_iff, Unsettled]

/-- A second placement changes nothing exactly if the hint for the state has nothing to do in it. -/
theorem placed_placed_eq_iff (code : String) :
    placed (placed code) = placed code ↔ stateHint.Idle (placed code).toList := by
  have hregister : registerHint.Idle (placed code).toList := by
    rw [toList_placed]
    exact idle_insert registerHint_tight (by simp [hints]) _
  have hconstant : constantHint.Idle (placed code).toList := by
    rw [toList_placed]
    exact idle_insert_of_ne (by simp [hints]) constantHint_tight (by simp [hints])
      registerHint_tight (by decide) (idle_insert constantHint_tight (by simp [hints]) _)
  rw [← insert_eq_self_iff (by simp [hints])] at hregister hconstant ⊢
  rw [← String.toList_inj, toList_placed (placed code), withHeaders_eq_self (contains_placed code)]
  generalize (placed code).toList = cs at *
  constructor
  · intro hsame
    refine ((insert_sublist stateHint cs).eq_of_length_le ?_).symm
    calc (stateHint.insert cs).length
        ≤ (constantHint.insert (stateHint.insert cs)).length := (insert_sublist _ _).length_le
      _ ≤ (registerHint.insert (constantHint.insert (stateHint.insert cs))).length :=
        (insert_sublist _ _).length_le
      _ = cs.length := by rw [hsame]
  · intro hsame
    rw [hsame, hconstant, hregister]

/-- Placement twice is placement once exactly for the code that has no tiny array of the game's
state, no variable of the state right behind a name that is begun, and no constant text right behind
a role's beginning. -/
theorem placed_placed_iff (code : String) :
    placed (placed code) = placed code ↔ ¬ Unsettled code.toList := by
  rw [placed_placed_eq_iff, stateHint_idle_iff, pending_placed_iff]

example : placed (placed "unsigned char enemy_hp[2];") =
    "#include <gb/gb.h>\n#include <stdio.h>\n" ++
      "__at(0xFF80) register __at(0xFF80) register unsigned char enemy_hp[2];" := by
  decide +kernel

end Cartridge.Code
