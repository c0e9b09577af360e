import Cartridge.Code.Estimate
import Cartridge.Proofs.Pattern.Spelling

/-!
# Lengths of arrays

The length of an array is read wherever a name is followed by digits in brackets, whatever else the
code may be. So the memory of some code can be counted unless such a row of digits is too long.

* `Measured`: a name with digits in brackets.
* `foundAt_measured`, `foundAt_of_measured`: where a length is found, and which.
* `exists_length_iff`: the lengths that are read.
* `ramUsage?_isSome_iff`: the code whose memory can be counted.
-/

namespace Cartridge.Code

open Pattern (Found)

/-- A name ends before the place, and digits in brackets are ahead. -/
def Measured (before ahead digits after : List Char) : Prop :=
  before.head?.any Text.isWord = true ∧ ahead = '[' :: (digits ++ ']' :: after) ∧ digits ≠ [] ∧
    ∀ d ∈ digits, Text.isDigit d = true

section Places

variable {digits after : List Char} {here : Place}

theorem foundAt_of_measured (hhere : here.Counted)
    (h : Measured here.before here.rest digits after) : (sizedArray.foundAt here).isSome := by
  obtain ⟨hname, hahead, hne, hdigits⟩ := h
  rw [Pattern.foundAt_isSome_iff hhere]
  have hedge : here.before.head?.any Text.isWord ≠ false := by simp [hname]
  exact ⟨'[' :: (digits ++ [']']), after, by simp [hahead], by simp,
    [], _, rfl, ⟨rfl, hedge⟩, ['['], _, rfl, rfl, digits, [']'], rfl,
    ⟨List.length_pos_iff.mpr hne, hdigits⟩, rfl⟩

/-- What is found is the digits between the brackets. -/
theorem foundAt_measured {m : Found} (h : sizedArray.foundAt here = some m) :
    ∃ digits after, Measured here.before here.rest digits after ∧ m.group 1 = digits ∧
      m.stop.index = here.index + 1 + (digits.length + 1) := by
  have h : (if here.atWordEdge then
      if "[".toList.isPrefixOf here.rest then
        (Place.reached Text.isDigit (here.skip 1).rest 1 (here.skip 1) []).findSome? fun stop =>
          if "]".toList.isPrefixOf stop.rest then
            (fun last : Place =>
                if here.index < last.index then some (Found.mk here last) else none)
              (({ stop with
                  groups := (1, (here.skip 1).spanTo stop) :: stop.groups } : Place).skip 1)
          else none
      else none
    else none) = some m := h
  split at h
  · rename_i hedge
    split at h
    · rename_i hopen
      obtain ⟨tail, hrest⟩ := List.isPrefixOf_iff_prefix.mp hopen
      have hskip : here.skip 1 = here.past ['['] tail here.groups := Place.skip_eq_past hrest.symm
      rw [hskip] at h
      obtain ⟨stop, hstop, h⟩ := List.exists_of_findSome?_eq_some h
      rcases Pattern.mem_reached.mp hstop with hnil | ⟨digits, rest, hdigits, hleast, hall, rfl⟩
      · cases hnil
      · split at h
        · rename_i hclose
          obtain ⟨after, rfl⟩ := List.isPrefixOf_iff_prefix.mp hclose
          obtain rfl : tail = digits ++ ']' :: after := hdigits
          let span : Span :=
            ⟨digits ++ ']' :: after, here.index + 1 + digits.length - (here.index + 1)⟩
          let last : Place := ⟨']' :: (digits.reverse ++ '[' :: here.before), after,
            here.index + 1 + digits.length + 1, (1, span) :: here.groups⟩
          have hlt : here.index < here.index + 1 + digits.length + 1 := by omega
          have hlast : (if here.index < here.index + 1 + digits.length + 1 then
              some (Found.mk here last) else none) = some m := h
          rw [if_pos hlt] at hlast
          cases hlast
          refine ⟨digits, after, ⟨?_, hrest.symm, List.length_pos_iff.mp hleast, hall⟩, ?_, ?_⟩
          · have hopening : here.rest.head?.any Text.isWord = false := by
              rw [← hrest]
              exact Text.not_word (by decide)
            simpa [Place.atWordEdge, hopening] using hedge
          · show (digits ++ ']' :: after).take
                (here.index + 1 + digits.length - (here.index + 1)) = _
            rw [Nat.add_sub_cancel_left, List.take_left]
          · show here.index + 1 + digits.length + 1 = _
            omega
        · cases h
    · cases h
  · cases h

end Places

/-- Digits in brackets that are wanted follow a name somewhere ahead. -/
def MeasuredAhead (wanted : List Char → Prop) (before cs : List Char) : Prop :=
  ∃ u ahead digits after, cs = u ++ ahead ∧ Measured (u.reverse ++ before) ahead digits after ∧
    wanted digits

section Ahead

variable {wanted : List Char → Prop} {before : List Char}

theorem measuredAhead_cons {c : Char} {rest : List Char}
    (hnot : ∀ digits after, ¬ Measured before (c :: rest) digits after) :
    MeasuredAhead wanted before (c :: rest) ↔ MeasuredAhead wanted (c :: before) rest := by
  constructor
  · rintro ⟨u, ahead, digits, after, hsplit, hmeasured, hwanted⟩
    cases u with
    | nil =>
      rw [List.nil_append] at hsplit
      subst hsplit
      exact absurd hmeasured (hnot digits after)
    | cons d u =>
      obtain ⟨rfl, rfl⟩ := List.cons.inj hsplit
      exact ⟨u, ahead, digits, after, rfl, by simpa using hmeasured, hwanted⟩
  · rintro ⟨u, ahead, digits, after, rfl, hmeasured, hwanted⟩
    exact ⟨c :: u, ahead, digits, after, rfl, by simpa using hmeasured, hwanted⟩

theorem bracket_not_mem {digits : List Char} (h : ∀ d ∈ digits, Text.isDigit d = true) :
    '[' ∉ digits ∧ ']' ∉ digits :=
  ⟨fun hmem => absurd (h _ hmem) (by decide), fun hmem => absurd (h _ hmem) (by decide)⟩

/-- The next digits in brackets are these or others behind them: nothing opens a bracket in
between. -/
theorem measuredAhead_of_measured {ahead digits after : List Char}
    (h : Measured before ahead digits after) :
    MeasuredAhead wanted before ahead ↔ wanted digits ∨
      MeasuredAhead wanted ((digits ++ [']']).reverse ++ '[' :: before) after := by
  obtain ⟨hname, rfl, hne, hdigits⟩ := h
  obtain ⟨hopen, hclose⟩ := bracket_not_mem hdigits
  constructor
  · rintro ⟨u, ahead, others, behind, hsplit, ⟨hbefore, rfl, hothers, hall⟩, hwanted⟩
    cases u with
    | nil =>
      obtain ⟨rfl, -⟩ :=
        Text.append_cons_inj hclose (bracket_not_mem hall).2 (List.cons.inj hsplit).2
      exact .inl hwanted
    | cons d u =>
      obtain ⟨rfl, hsplit⟩ := List.cons.inj hsplit
      have hcut : [] ++ ((digits ++ [']']) ++ after) = u ++ '[' :: (others ++ ']' :: behind) := by
        simpa using hsplit
      rcases Text.append_cons_cut (by simp [hopen]) hcut with ⟨t, rfl, rfl⟩ | ⟨t, ht, -⟩
      · exact .inr
          ⟨t, _, others, behind, rfl, ⟨by simpa using hbefore, rfl, hothers, hall⟩, hwanted⟩
      · simp at ht
  · rintro (hwanted | ⟨u, ahead, others, behind, rfl, hmeasured, hwanted⟩)
    · exact ⟨[], _, digits, after, rfl, ⟨hname, rfl, hne, hdigits⟩, hwanted⟩
    · refine ⟨'[' :: (digits ++ ']' :: u), ahead, others, behind, by simp, ?_, hwanted⟩
      simpa using hmeasured

end Ahead

/-- A length is read exactly where digits in brackets follow a name. -/
theorem exists_length_iff_ahead (wanted : List Char → Prop) (cs before : List Char) :
    (∃ found, Pattern.Piece.found found ∈ sizedArray.cutting cs before before.length 0 [] ∧
        wanted (found.group 1)) ↔ MeasuredAhead wanted before cs := by
  induction hn : cs.length using Nat.strongRecOn generalizing cs before with
  | ind n ih =>
    cases cs with
    | nil =>
      refine iff_of_false (fun ⟨_, hmem, _⟩ => by cases hmem) ?_
      rintro ⟨u, ahead, digits, after, hsplit, ⟨-, rfl, -⟩, -⟩
      simp at hsplit
    | cons c rest =>
      have hcounted : (⟨before, c :: rest, before.length, []⟩ : Place).Counted := rfl
      cases hfound : sizedArray.foundAt ⟨before, c :: rest, before.length, []⟩ with
      | none =>
        have hrest := ih rest.length (by rw [← hn]; simp) rest (c :: before) rfl
        rw [List.length_cons] at hrest
        have hnot : ∀ digits after, ¬ Measured before (c :: rest) digits after := by
          intro digits after hmeasured
          have hsome := foundAt_of_measured hcounted hmeasured
          rw [hfound] at hsome
          cases hsome
        rw [Pattern.cutting_plain hfound, measuredAhead_cons hnot, ← hrest]
        simp
      | some found =>
        obtain ⟨digits, after, hmeasured, hgroup, hstop⟩ := foundAt_measured hfound
        obtain ⟨rfl, hrest⟩ := List.cons.inj hmeasured.2.1
        have hpiece : rest = (digits ++ [']']) ++ after := by rw [hrest, List.append_cons]
        have hlength : (digits ++ [']']).length = digits.length + 1 := List.length_append
        have hlater := ih after.length (by rw [← hn, hpiece]; simp; omega) after
          ((digits ++ [']']).reverse ++ '[' :: before) rfl
        have hindex : ((digits ++ [']']).reverse ++ '[' :: before).length =
            before.length + 1 + (digits.length + 1) := by
          simp
          omega
        rw [measuredAhead_of_measured hmeasured, ← hlater, hindex, ← hlength]
        rw [← hlength] at hstop
        subst hpiece
        rw [Pattern.cutting_found hfound (by simp) hstop, List.drop_left, List.take_left]
        simp [or_and_right, exists_or, hgroup]

/-- The code has an array with a length of too many digits. -/
def Unreadable (code : String) : Prop :=
  MeasuredAhead (Text.digitLimit < ·.length) [] code.toList

theorem exists_length_iff (wanted : List Char → Prop) (cs : List Char) :
    (∃ found ∈ sizedArray.findAll cs, wanted (found.group 1)) ↔ MeasuredAhead wanted [] cs := by
  rw [← exists_length_iff_ahead]
  refine exists_congr fun found => and_congr_left fun _ => ?_
  rw [Pattern.findAll, List.mem_filterMap]
  constructor
  · rintro ⟨piece, hmem, hpiece⟩
    cases piece with
    | plain c => cases hpiece
    | found m =>
      cases hpiece
      exact hmem
  · exact fun hmem => ⟨.found found, hmem, rfl⟩

theorem mapM_isSome_iff {α β : Type} {f : α → Option β} (l : List α) :
    (l.mapM f).isSome ↔ ∀ a ∈ l, (f a).isSome := by
  induction l with
  | nil => simp
  | cons a l ih =>
    rw [List.mapM_cons, List.forall_mem_cons, ← ih]
    cases f a with
    | none => simp
    | some b => cases l.mapM f <;> simp

/-- The memory can be counted if no array has a length of too many digits. -/
theorem ramUsage?_isSome_iff (code : String) : (ramUsage? code).isSome ↔ ¬ Unreadable code := by
  have hlength (digits : List Char) :
      (arrayLength? digits).isSome ↔ ¬ Text.digitLimit < digits.length := by
    unfold arrayLength?
    split <;> simp_all
  have hlengths := mapM_isSome_iff (f := fun found => arrayLength? (found.group 1))
    (sizedArray.findAll code.toList)
  rw [Unreadable, ← exists_length_iff]
  simp only [hlength] at hlengths
  rw [not_exists]
  simp only [not_and]
  rw [← hlengths, ramUsage?]
  cases (sizedArray.findAll code.toList).mapM fun found => arrayLength? (found.group 1) <;> simp

end Cartridge.Code
