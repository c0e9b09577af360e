import Cartridge.Code.Includes
import Cartridge.Proofs.Pattern.Longest
import Cartridge.Proofs.Text.Standing

/-!
# What is left without the standard includes

The includes are found wherever they stand, not only at the beginning of a line, and each is taken
out with all the white space behind it, over as many lines as there are. So the line that comes next
is joined to what stands in front of an include, if there is anything on its line.

* `leaves_substitute`: what one removal leaves.
* `leaves_withoutIncludes`: what both leave, unless the first puts together an include for the
  second.
* `withoutStandardIncludes_lines`: which lines of the code are lines of what is left.
-/

namespace Cartridge.Code

open Pattern (exactly inOrder optional)
open Text

/-- An include of a header, from the number sign to the end of the header's name. -/
def IsInclude (header : String) (piece : List Char) : Prop :=
  ∃ gap, gap ≠ [] ∧ (∀ c ∈ gap, isBlank c = true) ∧
    piece = "#include".toList ++ gap ++ header.toList

/-- An include of one of the two standard headers. -/
def IsStandardInclude (piece : List Char) : Prop :=
  IsInclude "<gb/gb.h>" piece ∨ IsInclude "<stdio.h>" piece

/-- The name of a header with its brackets. -/
def Header (header : String) : Prop :=
  ∃ name, header.toList = name ++ ['>'] ∧ '#' ∉ name ∧ '>' ∉ name

theorem IsInclude.bracketed {header : String} (hheader : Header header) {piece : List Char}
    (h : IsInclude header piece) : Bracketed piece := by
  obtain ⟨name, hname, hsharp, hclose⟩ := hheader
  obtain ⟨gap, -, hblank, rfl⟩ := h
  have hmark : ∀ c ∈ gap, c ≠ '#' ∧ c ≠ '>' := by
    intro c hc
    constructor <;> rintro rfl <;> exact absurd (hblank _ hc) (by decide)
  refine ⟨"include".toList ++ gap ++ name, ?_, ?_, ?_⟩
  · rw [hname]
    simp
  all_goals
    rw [List.mem_append, List.mem_append, not_or, not_or]
  · exact ⟨⟨by decide, fun h => (hmark _ h).1 rfl⟩, hsharp⟩
  · exact ⟨⟨by decide, fun h => (hmark _ h).2 rfl⟩, hclose⟩

/-! ## One removal -/

section Removal

variable {header : String}

/-- The pattern of an include spells the include and the white space behind it. -/
theorem spells_includeOf {before piece after : List Char} :
    (includeOf header).Spells before piece after ↔
      ∃ first white, piece = first ++ white ∧ IsInclude header first ∧
        ∀ c ∈ white, isBlank c = true := by
  constructor
  · rintro ⟨_, _, rfl, rfl, gap, _, rfl, ⟨hgap, hblank⟩, _, _, rfl, rfl, white, last, rfl,
      ⟨-, hwhite⟩, hlast⟩
    refine ⟨"#include".toList ++ gap ++ header.toList, white ++ last, by simp,
      ⟨gap, List.length_pos_iff.mp hgap, hblank, rfl⟩, ?_⟩
    intro c hc
    rcases List.mem_append.mp hc with hc | hc
    · exact hwhite c hc
    · rcases hlast with rfl | rfl
      · obtain rfl := List.mem_singleton.mp hc
        decide
      · cases hc
  · rintro ⟨_, white, rfl, ⟨gap, hgap, hblank, rfl⟩, hwhite⟩
    exact ⟨_, _, by simp, rfl, gap, _, rfl, ⟨List.length_pos_iff.mpr hgap, hblank⟩, _, _, rfl, rfl,
      white, [], (List.append_nil _).symm, ⟨Nat.zero_le _, hwhite⟩, .inr rfl⟩

theorem foundAt_includeOf_isSome_iff {here : Place} (hhere : here.Counted) :
    ((includeOf header).foundAt here).isSome = true ↔ Text.Begins (IsInclude header) here.rest := by
  rw [Pattern.foundAt_isSome_iff hhere]
  constructor
  · rintro ⟨_, rest, hrest, -, hspells⟩
    obtain ⟨first, white, rfl, hfirst, -⟩ := spells_includeOf.mp hspells
    exact ⟨first, white ++ rest, hfirst, by rw [hrest, List.append_assoc]⟩
  · rintro ⟨piece, rest, hpiece, hrest⟩
    refine ⟨piece, rest, hrest, ?_,
      spells_includeOf.mpr ⟨piece, [], (List.append_nil _).symm, hpiece, by simp⟩⟩
    obtain ⟨gap, -, -, rfl⟩ := hpiece
    simp

instance : DecidablePred (Text.Begins (IsInclude header)) := fun cs =>
  have hcounted : (Place.first cs).Counted := rfl
  decidable_of_iff _ (foundAt_includeOf_isSome_iff hcounted)

/-- Where no white space stands, there is no newline to be passed. -/
theorem optional_newline {α : Type} {k : Place → Option α} {here : Place}
    (h : here.rest.head?.any isBlank = false) :
    (optional (exactly "\n")).match? k here = k here := by
  have hnone : "\n".toList.isPrefixOf here.rest = false := by
    cases hrest : here.rest with
    | nil => rfl
    | cons c rest =>
      rw [hrest] at h
      rw [Bool.eq_false_iff]
      intro hprefix
      have hc : '\n' = c := by simpa using hprefix
      subst hc
      exact absurd (show (some '\n').any isBlank = false from h) (by decide)
  show (if "\n".toList.isPrefixOf here.rest then _ else none : Option α).orElse _ = k here
  rw [hnone]
  rfl

/-- After an include no white space is left. -/
theorem reaches_includeOf (hheader : header.toList ≠ []) :
    (includeOf header).Reaches fun there => there.rest.head?.any isBlank = false := by
  refine Pattern.reaches_next _ (Pattern.reaches_next _ ?_)
  intro α k here a hhere haccepts h
  have h : (exactly header).match? ((Pattern.many isBlank 0).match?
      ((optional (exactly "\n")).match? k)) here = some a := h
  obtain ⟨piece, rest, groups, hrest, hpiece, h⟩ := Pattern.match?_sound hhere h
  have hpiece : piece = header.toList := hpiece
  subst hpiece
  obtain ⟨far, others, hreached, hfar, hle⟩ :=
    Pattern.reached_eq_cons isBlank (here.past header.toList rest groups) []
  have hlt : here.index < far.index :=
    Nat.lt_of_lt_of_le (Nat.lt_add_of_pos_right (List.length_pos_iff.mpr hheader)) hle
  rw [Pattern.match?, hreached, List.findSome?_cons, optional_newline hfar] at h
  cases hk : k far with
  | none =>
    have hsome := haccepts far hlt
    rw [hk] at hsome
    cases hsome
  | some b =>
    rw [hk] at h
    exact ⟨far, hfar, hk.trans h⟩

/-- A match is an include with all the white space behind it. -/
theorem foundAt_includeOf_sound (hheader : header.toList ≠ []) {here : Place} {m : Pattern.Found}
    (hhere : here.Counted) (h : (includeOf header).foundAt here = some m) :
    ∃ first white after, here.rest = first ++ white ++ after ∧ IsInclude header first ∧
      (∀ c ∈ white, isBlank c = true) ∧ stripLeft after = after ∧
      m.stop.index = here.index + (first ++ white).length := by
  obtain ⟨_, after, groups, hrest, -, hspells, rfl⟩ := Pattern.foundAt_sound hhere h
  have hstop : after.head?.any isBlank = false :=
    Pattern.stop_of_foundAt (reaches_includeOf hheader) hhere h
  obtain ⟨first, white, rfl, hfirst, hwhite⟩ := spells_includeOf.mp hspells
  refine ⟨first, white, after, hrest, hfirst, hwhite, ?_, rfl⟩
  cases after with
  | nil => rfl
  | cons d after => exact stripLeft_of_head (by simpa using hstop) after

/-- One removal leaves what is left without the includes of its header. -/
theorem leaves_substituteFrom (hheader : Header header) (cs before : List Char) :
    Leaves (IsInclude header) cs
      ((includeOf header).substituteFrom (fun _ => []) cs before before.length) := by
  have hname : header.toList ≠ [] := by
    obtain ⟨name, hname, -⟩ := hheader
    simp [hname]
  induction hlength : cs.length using Nat.strongRecOn generalizing cs before with
  | _ n ih =>
    subst hlength
    have hcounted : (Place.mk before cs before.length []).Counted := rfl
    cases hfound : (includeOf header).foundAt ⟨before, cs, before.length, []⟩ with
    | none =>
      cases cs with
      | nil => exact .done
      | cons c rest =>
        rw [Pattern.substituteFrom_plain hfound]
        refine .keep ?_ (ih rest.length (Nat.lt_succ_self _) rest (c :: before) rfl)
        intro hbegins
        have hsome := (foundAt_includeOf_isSome_iff hcounted).mpr hbegins
        rw [hfound] at hsome
        cases hsome
    | some m =>
      obtain ⟨first, white, after, hrest, hfirst, hwhite, hafter, hend⟩ :=
        foundAt_includeOf_sound hname hcounted hfound
      have hrest : cs = first ++ white ++ after := hrest
      subst hrest
      obtain ⟨tail, htail, -, -⟩ := (hfirst.bracketed hheader).eq_cons
      have hne : first ++ white ≠ [] := by simp [htail]
      have hshorter : after.length < (first ++ white ++ after).length := by
        rw [List.length_append]
        exact Nat.lt_add_of_pos_left (List.length_pos_iff.mpr hne)
      rw [Pattern.substituteFrom_piece hne hfound hend, List.nil_append]
      refine .drop hfirst (List.append_assoc _ _ _) ?_
      rw [stripLeft_blank_append hwhite, hafter]
      exact ih after.length hshorter after _ rfl

end Removal

/-! ## Both removals -/

section Both

theorem header_console : Header "<gb/gb.h>" := ⟨"<gb/gb.h".toList, by decide⟩

theorem header_io : Header "<stdio.h>" := ⟨"<stdio.h".toList, by decide⟩

theorem bracketed_console (piece : List Char) (h : IsInclude "<gb/gb.h>" piece) : Bracketed piece :=
  h.bracketed header_console

theorem bracketed_io (piece : List Char) (h : IsInclude "<stdio.h>" piece) : Bracketed piece :=
  h.bracketed header_io

theorem IsStandardInclude.bracketed (piece : List Char) (h : IsStandardInclude piece) :
    Bracketed piece := by
  rcases h with h | h
  · exact bracketed_console piece h
  · exact bracketed_io piece h

theorem IsInclude.not_io {piece : List Char} (h : IsInclude "<gb/gb.h>" piece) :
    ¬ IsInclude "<stdio.h>" piece := by
  rintro ⟨gap, -, -, h'⟩
  obtain ⟨gap', -, -, rfl⟩ := h
  have hsame : "<gb/gb.h>".toList = "<stdio.h>".toList := List.append_inj_right' h' (by decide)
  exact absurd hsame (by decide)

/-- What the code leaves of a text without the standard includes. -/
def withoutIncludes (cs : List Char) : List Char := (withoutStandardIncludes (.ofList cs)).toList

/-- The text without the includes of the console's library. -/
def withoutConsole (cs : List Char) : List Char :=
  (includeOf "<gb/gb.h>").substitute (fun _ => []) cs

/-- Where the includes of the console's library are taken out, no include of the other header comes
about that was not there before. -/
def Unspliced (cs : List Char) : Prop :=
  pieceCount (IsInclude "<stdio.h>") (withoutConsole cs) = pieceCount (IsInclude "<stdio.h>") cs

instance (cs : List Char) : Decidable (Unspliced cs) := inferInstanceAs (Decidable (_ = _))

theorem leaves_withoutConsole (cs : List Char) :
    Leaves (IsInclude "<gb/gb.h>") cs (withoutConsole cs) :=
  leaves_substituteFrom header_console cs []

theorem leaves_withoutIncludes {cs : List Char} (h : Unspliced cs) :
    Leaves IsStandardInclude cs (withoutIncludes cs) := by
  have hio : Leaves (IsInclude "<stdio.h>") (withoutConsole cs) (withoutIncludes cs) := by
    have hboth := leaves_substituteFrom header_io (withoutConsole cs) []
    rw [withoutIncludes, withoutStandardIncludes, String.toList_ofList, String.toList_ofList]
    exact hboth
  exact (leaves_withoutConsole cs).merge bracketed_console bracketed_io (fun _ => IsInclude.not_io)
    hio h

section

variable {line : Line} (hpart : ¬ line.TakesPart IsStandardInclude) (hbody : line.body ≠ [])
  (hwhole : Unspliced line.whole)

include hpart hbody hwhole

theorem unspliced_around : Unspliced line.lead ∧ Unspliced line.after := by
  have hconsole : ¬ line.TakesPart (IsInclude "<gb/gb.h>") :=
    fun ⟨x, piece, y, hpiece, h⟩ => hpart ⟨x, piece, y, .inl hpiece, h⟩
  have hio : ¬ line.TakesPart (IsInclude "<stdio.h>") :=
    fun ⟨x, piece, y, hpiece, h⟩ => hpart ⟨x, piece, y, .inr hpiece, h⟩
  exact Line.pieceCount_eq bracketed_console bracketed_io (fun _ => IsInclude.not_io) hconsole hio
    hbody (leaves_withoutConsole _) (leaves_withoutConsole _) (leaves_withoutConsole _) hwhole

theorem withoutIncludes_whole :
    withoutIncludes line.whole =
      withoutIncludes line.lead ++ line.body ++ withoutIncludes line.after := by
  obtain ⟨hlead, hafter⟩ := unspliced_around hpart hbody hwhole
  obtain ⟨front, back, heq, hfront, hback⟩ :=
    line.split IsStandardInclude.bracketed hpart hbody (leaves_withoutIncludes hwhole)
  rw [heq, hfront.unique IsStandardInclude.bracketed (leaves_withoutIncludes hlead),
    hback.unique IsStandardInclude.bracketed (leaves_withoutIncludes hafter)]

end

theorem withoutIncludes_toList (code : String) :
    withoutIncludes code.toList = (withoutStandardIncludes code).toList := by
  rw [withoutIncludes, String.ofList_toList]

/-- Let the first removal put together no include for the second. Then a line of the code that has
no part in a standard include is kept, between what is left of the code before it and of the code
after it. It is a line of its own there, up to the white space in front of it, exactly if the code
before it does not end with includes the first of which follows other text on its line. The lines of
which this holds keep their order. -/
theorem withoutStandardIncludes_lines {code : String} (hcode : Unspliced code.toList) :
    (∀ line : Line, line.whole = code.toList → line.body ≠ [] →
      ¬ line.TakesPart IsStandardInclude →
      (withoutStandardIncludes code).toList =
        withoutIncludes line.lead ++ line.body ++ withoutIncludes line.after ∧
      (Line.Alone (withoutIncludes line.lead) line.body (withoutIncludes line.after) ↔
        ¬ Hangs IsStandardInclude line.lead)) ∧
    ∀ kept : List Line,
      kept.Pairwise (fun line later => line.before.length < later.before.length) →
      (∀ line ∈ kept, line.whole = code.toList ∧ line.body ≠ [] ∧
        ¬ line.TakesPart IsStandardInclude ∧ ¬ Hangs IsStandardInclude line.lead) →
      (kept.map Line.body).Sublist
        ((lines (withoutStandardIncludes code)).map fun line => stripLeft line.toList) := by
  constructor
  · intro line hwhole hbody hpart
    rw [← hwhole] at hcode
    obtain ⟨hlead, hafter⟩ := unspliced_around hpart hbody hcode
    rw [← withoutIncludes_toList, ← hwhole]
    exact ⟨withoutIncludes_whole hpart hbody hcode, Line.alone_iff IsStandardInclude.bracketed
      (leaves_withoutIncludes hlead) (leaves_withoutIncludes hafter)⟩
  · intro kept horder hkept
    have hlines : (lines (withoutStandardIncludes code)).map (fun line => stripLeft line.toList) =
        ((withoutIncludes code.toList).splitOn '\n').map stripLeft := by
      rw [lines, splitOn, List.map_map, withoutIncludes_toList]
      simp only [Function.comp_def, String.toList_ofList]
    rw [hlines]
    refine Line.sublist IsStandardInclude.bracketed horder hkept ?_
    intro line hline
    obtain ⟨hwhole, hbody, hpart, -⟩ := hkept line hline
    rw [← hwhole] at hcode ⊢
    obtain ⟨hlead, hafter⟩ := unspliced_around hpart hbody hcode
    exact ⟨withoutIncludes_whole hpart hbody hcode, leaves_withoutIncludes hlead,
      leaves_withoutIncludes hafter⟩

/-- A declaration below a remark that mentions an include. -/
def remarked : Line where
  before := "// needs #include <stdio.h>\n".toList
  text := "int y;".toList
  after := []
  starts := .inr ⟨"// needs #include <stdio.h>".toList, by decide⟩
  unbroken := by decide
  ends := .inl rfl

theorem withoutStandardIncludes_lines_of_remarked :
    Unspliced remarked.whole ∧ ¬ remarked.TakesPart IsStandardInclude ∧
      withoutIncludes remarked.whole = "// needs int y;".toList ∧
      ¬ Line.Alone (withoutIncludes remarked.lead) remarked.body
        (withoutIncludes remarked.after) := by
  have hcode : Unspliced (String.ofList remarked.whole).toList := by decide +kernel
  have hpart : ¬ remarked.TakesPart IsStandardInclude := by
    rintro ⟨x, piece, y, hpiece, hwhole, -, hstop⟩
    -- the last character of the include would stand in the line
    obtain ⟨front, rfl⟩ := (IsStandardInclude.bracketed _ hpiece).eq_concat
    have hclose : '>' ∉ remarked.text := by decide
    have hwhole : remarked.before ++ (remarked.text ++ []) = (x ++ front) ++ '>' :: y := by
      rw [← List.append_assoc]
      exact hwhole.trans (by simp)
    rcases append_cons_cut hclose hwhole with ⟨t, -, h⟩ | ⟨t, h, -⟩
    · simp at h
    · have hlength := congrArg List.length h
      simp only [List.length_append, List.length_cons, List.length_nil] at hlength hstop
      omega
  have hblank : ∀ c ∈ [' '], isBlank c = true := List.forall_mem_singleton.mpr (by decide)
  have hinclude : IsStandardInclude "#include <stdio.h>".toList :=
    .inr ⟨[' '], by decide, hblank, rfl⟩
  have hhangs : Hangs IsStandardInclude remarked.lead := by
    refine ⟨"#include <stdio.h>\n".toList, ⟨_, ['\n'], hinclude, rfl⟩, ?_,
      "// need".toList, 's', [' '], rfl, by decide, ?_, hblank, by decide⟩
    · exact .piece hinclude (.blank (by decide) .done)
    · rintro ⟨x, piece, hpiece, h⟩
      obtain ⟨front, rfl⟩ := (IsStandardInclude.bracketed _ hpiece).eq_concat
      rw [← List.append_assoc] at h
      exact absurd (List.append_inj' h rfl).2 (by decide)
  obtain ⟨-, halone⟩ := (withoutStandardIncludes_lines hcode).1 remarked
    String.toList_ofList.symm (by decide) hpart
  exact ⟨by decide +kernel, hpart, by decide +kernel, fun h => halone.mp h hhangs⟩

end Both

end Cartridge.Code
