import Cartridge.Proofs.Text.Lines
import Mathlib.Algebra.GroupWithZero.Nat
import Mathlib.Data.List.Find
import Mathlib.Data.List.Infix

/-!
# Filling places of a text

Places of a text are filled at one go if what is put in is not looked at again. Replacing one needle
is that with a table of one entry. A character that is in none of the places cuts a text into parts
that are filled on their own, so a text of lines is filled line by line, at one go or entry by
entry.

* `fillAll`: all places of a table at one go.
* `filled_induction`: the places of a text from left to right.
* `filled_append_cons`, `fillAll_append`, `fillAll_joined`: texts in parts.
* `fillAll_own`: what becomes of a place alone.
* `replaceAll_eq`, `fillInTurn_add`, `fillInTurn_joined`: one entry after the other.
* `count_fillAll`: how often a character is there after filling.
* `not_contains_of_counts`: how to see that there was nothing to fill.
-/

namespace Cartridge.Text

/-- The entry of a table whose place begins a text. -/
def placeAt? (table : List (List Char × List Char)) (cs : List Char) :
    Option (List Char × List Char) := table.find? fun entry => entry.1.isPrefixOf cs

/-- One pass over a text: `skip` characters still belong to the last place. -/
def filling (table : List (List Char × List Char)) : List Char → Nat → List Char
  | [], _ => []
  | _ :: rest, skip + 1 => filling table rest skip
  | c :: rest, 0 =>
    match placeAt? table (c :: rest) with
    | some (place, content) => content ++ filling table rest (place.length - 1)
    | none => c :: filling table rest 0

/-- The characters with the places of a table filled with their contents, all at one go. -/
def filled (table : List (List Char × List Char)) (cs : List Char) : List Char := filling table cs 0

/-- The entries of a table as characters. -/
def entries (table : List (String × String)) : List (List Char × List Char) :=
  table.map fun (place, content) => (place.toList, content.toList)

/-- The text with the places of a table filled with their contents, all at one go: what is put in is
not looked at again. -/
def fillAll (table : List (String × String)) (text : String) : String :=
  .ofList (filled (entries table) text.toList)

/-- The text with the places of a table filled one entry after the other. -/
def fillInTurn (table : List (String × String)) (text : String) : String :=
  table.foldl (fun filled (place, content) => replaceAll filled place content) text

section Filled

variable {table : List (List Char × List Char)} {place content cs rest : List Char} {c : Char}

theorem filling_skip {skip : Nat} (h : skip ≤ cs.length) :
    filling table cs skip = filled table (cs.drop skip) := by
  induction skip generalizing cs with
  | zero => rfl
  | succ skip ih =>
    cases cs with
    | nil => cases h
    | cons c cs =>
      rw [filling, ih (Nat.le_of_succ_le_succ h)]
      rfl

theorem filled_plain (h : placeAt? table (c :: rest) = none) :
    filled table (c :: rest) = c :: filled table rest := by
  rw [filled, filling, h]
  rfl

theorem filled_place (hne : place ≠ [])
    (h : placeAt? table (place ++ rest) = some (place, content)) :
    filled table (place ++ rest) = content ++ filled table rest := by
  obtain ⟨c, more, rfl⟩ := List.exists_cons_of_ne_nil hne
  rw [List.cons_append] at h ⊢
  rw [filled, filling, h]
  dsimp only
  rw [List.length_cons, Nat.add_sub_cancel, filling_skip (by simp), List.drop_left]

theorem prefix_of_placeAt? (h : placeAt? table cs = some (place, content)) :
    ∃ rest, cs = place ++ rest := by
  rw [placeAt?] at h
  have hprefix : place.isPrefixOf cs = true := by simpa using List.find?_some h
  obtain ⟨rest, hrest⟩ := List.isPrefixOf_iff_prefix.mp hprefix
  exact ⟨rest, hrest.symm⟩

/-- The places of a text from left to right, if no place is empty. -/
theorem filled_induction {motive : List Char → Prop} (hne : ∀ entry ∈ table, entry.1 ≠ [])
    (nil : motive [])
    (found : ∀ place content rest, place ≠ [] →
      placeAt? table (place ++ rest) = some (place, content) → motive rest →
      motive (place ++ rest))
    (plain : ∀ c rest, placeAt? table (c :: rest) = none → motive rest → motive (c :: rest))
    (cs : List Char) : motive cs := by
  induction hn : cs.length using Nat.strongRecOn generalizing cs with
  | ind n ih =>
    cases cs with
    | nil => exact nil
    | cons c rest =>
      cases hplace : placeAt? table (c :: rest) with
      | none => exact plain c rest hplace (ih rest.length (by rw [← hn]; simp) rest rfl)
      | some entry =>
        obtain ⟨place, content⟩ := entry
        have hplace_ne : place ≠ [] := hne _ (List.mem_of_find?_eq_some hplace)
        obtain ⟨tail, htail⟩ := prefix_of_placeAt? hplace
        have hpos : 0 < place.length := List.length_pos_iff.mpr hplace_ne
        rw [htail] at hplace hn ⊢
        rw [List.length_append] at hn
        exact found place content tail hplace_ne hplace (ih tail.length (by omega) tail rfl)

/-! ## Parts of a text -/

/-- A needle without a character does not reach over it. -/
theorem prefix_append_cons_iff {needle a b : List Char} (hc : c ∉ needle) :
    needle <+: a ++ c :: b ↔ needle <+: a := by
  constructor
  · rintro ⟨rest, hrest⟩
    rcases List.append_eq_append_iff.mp hrest with ⟨more, rfl, -⟩ | ⟨more, rfl, hmore⟩
    · exact List.prefix_append _ _
    · cases more with
      | nil => simp
      | cons d more =>
        obtain ⟨rfl, -⟩ := List.cons.inj hmore
        simp at hc
  · exact fun h => h.trans (List.prefix_append _ _)

theorem placeAt?_append_cons {a b : List Char} (hc : ∀ entry ∈ table, c ∉ entry.1) :
    placeAt? table (a ++ c :: b) = placeAt? table a := by
  refine List.find?_congr fun entry hentry => ?_
  rw [Bool.eq_iff_iff, List.isPrefixOf_iff_prefix, List.isPrefixOf_iff_prefix]
  exact prefix_append_cons_iff (hc entry hentry)

/-- A character that is in no place cuts a text into parts that are filled on their own. -/
theorem filled_append_cons (hne : ∀ entry ∈ table, entry.1 ≠ [])
    (hc : ∀ entry ∈ table, c ∉ entry.1) (a b : List Char) :
    filled table (a ++ c :: b) = filled table a ++ c :: filled table b := by
  induction a using filled_induction hne with
  | nil =>
    have hnone : placeAt? table ([] ++ c :: b) = none := by
      rw [placeAt?_append_cons hc]
      refine List.find?_eq_none.mpr fun entry hentry => ?_
      simpa using hne entry hentry
    exact filled_plain hnone
  | found place content rest hplace_ne hplace ih =>
    have hlonger : placeAt? table (place ++ (rest ++ c :: b)) = some (place, content) := by
      rw [← List.append_assoc, placeAt?_append_cons hc, hplace]
    rw [List.append_assoc, filled_place hplace_ne hlonger, ih, filled_place hplace_ne hplace,
      List.append_assoc]
  | plain d rest hplain ih =>
    have hlonger : placeAt? table (d :: (rest ++ c :: b)) = none := by
      rw [← List.cons_append, placeAt?_append_cons hc, hplain]
    rw [List.cons_append, filled_plain hlonger, ih, filled_plain hplain, List.cons_append]

theorem filled_of_not_occurs (hne : ∀ entry ∈ table, entry.1 ≠ [])
    (h : ∀ entry ∈ table, occursIn entry.1 cs = false) : filled table cs = cs := by
  induction cs using filled_induction hne with
  | nil => rfl
  | found place content rest _ hplace _ =>
    have hoccurs : occursIn place (place ++ rest) = true :=
      occursIn_iff.mpr ⟨[], rest, by simp⟩
    have hnot := h _ (List.mem_of_find?_eq_some hplace)
    rw [hoccurs] at hnot
    cases hnot
  | plain c rest hplain ih =>
    rw [filled_plain hplain, ih]
    intro entry hentry
    have hnot := h entry hentry
    rw [occursIn, Bool.or_eq_false_iff] at hnot
    exact hnot.2

end Filled

/-! ## Parts of a string -/

section Strings

variable {c : Char} {table : List (String × String)}

/-- No place of a table is empty or has the character. -/
def Cuts (c : Char) (table : List (String × String)) : Prop :=
  ∀ entry ∈ table, entry.1 ≠ "" ∧ c ∉ entry.1.toList

theorem Cuts.ne_nil (h : Cuts c table) : ∀ entry ∈ entries table, entry.1 ≠ [] := by
  intro entry hentry
  obtain ⟨given, hgiven, rfl⟩ := List.mem_map.mp hentry
  exact mt String.toList_eq_nil_iff.mp (h given hgiven).1

theorem fillAll_append (h : Cuts c table) (a b : String) :
    fillAll table (a ++ String.singleton c ++ b) =
      fillAll table a ++ String.singleton c ++ fillAll table b := by
  have hcut : ∀ entry ∈ entries table, c ∉ entry.1 := by
    intro entry hentry
    obtain ⟨given, hgiven, rfl⟩ := List.mem_map.mp hentry
    exact (h given hgiven).2
  have htext : (a ++ String.singleton c ++ b).toList = a.toList ++ c :: b.toList := by simp
  apply String.toList_inj.mp
  rw [fillAll, htext, String.toList_ofList, filled_append_cons h.ne_nil hcut]
  simp [fillAll]

theorem fillAll_of_not_contains (h : Cuts c table) {text : String}
    (htext : ∀ entry ∈ table, contains text entry.1 = false) : fillAll table text = text := by
  rw [fillAll, filled_of_not_occurs h.ne_nil, String.ofList_toList]
  intro entry hentry
  obtain ⟨given, hgiven, rfl⟩ := List.mem_map.mp hentry
  exact htext given hgiven

/-- A place that has no earlier place of the table in it becomes its content. -/
theorem fillAll_own {before after : List (String × String)} {entry : String × String}
    (hne : entry.1 ≠ "") (hbefore : ∀ e ∈ before, contains entry.1 e.1 = false) :
    fillAll (before ++ entry :: after) entry.1 = entry.2 := by
  have hplace : placeAt? (entries (before ++ entry :: after)) (entry.1.toList ++ []) =
      some (entry.1.toList, entry.2.toList) := by
    have hnone : (entries before).find? (fun e => e.1.isPrefixOf (entry.1.toList ++ [])) =
        none := by
      refine List.find?_eq_none.mpr fun e he hprefix => ?_
      obtain ⟨given, hgiven, rfl⟩ := List.mem_map.mp he
      rw [List.append_nil] at hprefix
      obtain ⟨rest, hrest⟩ := List.isPrefixOf_iff_prefix.mp hprefix
      have hcontains : contains entry.1 given.1 = true :=
        occursIn_iff.mpr ⟨[], rest, by simpa using hrest.symm⟩
      rw [hbefore given hgiven] at hcontains
      cases hcontains
    rw [placeAt?, entries, List.map_append, List.find?_append]
    show (List.find? _ (entries before)).or _ = _
    rw [hnone, Option.none_or, List.map_cons, List.find?_cons_of_pos (by simp)]
  have hfilled := filled_place (mt String.toList_eq_nil_iff.mp hne) hplace
  rw [List.append_nil] at hfilled
  rw [fillAll, hfilled]
  simp [filled, filling]

/-- A text of lines is filled line by line. -/
theorem fillAll_joined (h : Cuts '\n' table) (lines : List String) :
    fillAll table (joined "\n" lines) = joined "\n" (lines.map (fillAll table)) := by
  induction lines with
  | nil => rfl
  | cons line lines ih =>
    cases lines with
    | nil => simp [joined]
    | cons second others =>
      have hcons (first next : String) (rest : List String) : joined "\n" (first :: next :: rest) =
          first ++ String.singleton '\n' ++ joined "\n" (next :: rest) := joined_cons ..
      rw [hcons, fillAll_append h, ih]
      exact (hcons ..).symm

end Strings

/-! ## One entry after the other -/

theorem replacing_eq (needle by_ cs : List Char) (skip : Nat) (done : List Char) :
    replacing needle by_ cs skip none done = done.reverse ++ filling [(needle, by_)] cs skip := by
  induction cs generalizing skip done with
  | nil => simp [replacing, filling]
  | cons c rest ih =>
    cases skip with
    | succ skip => rw [replacing, filling, ih]
    | zero =>
      cases hprefix : needle.isPrefixOf (c :: rest) <;>
        simp [replacing, filling, placeAt?, hprefix, ih]

/-- Replacing a needle is filling the places of a table with one entry. -/
theorem replaceAll_eq (text needle by_ : String) :
    replaceAll text needle by_ = fillAll [(needle, by_)] text := by
  rw [replaceAll, replacing_eq]
  rfl

section Turns

variable {c : Char} {entry : String × String} {table : List (String × String)}

theorem fillInTurn_cons (entry : String × String) (table : List (String × String))
    (text : String) :
    fillInTurn (entry :: table) text = fillInTurn table (fillAll [entry] text) := by
  rw [← replaceAll_eq]
  rfl

theorem fillInTurn_append (table later : List (String × String)) (text : String) :
    fillInTurn (table ++ later) text = fillInTurn later (fillInTurn table text) :=
  List.foldl_append

theorem Cuts.singleton (h : Cuts c (entry :: table)) : Cuts c [entry] := by
  intro other hother
  rw [List.mem_singleton.mp hother]
  exact h entry List.mem_cons_self

theorem Cuts.tail (h : Cuts c (entry :: table)) : Cuts c table :=
  fun other hother => h other (List.mem_cons_of_mem _ hother)

theorem fillInTurn_add (h : Cuts c table) (a b : String) :
    fillInTurn table (a ++ String.singleton c ++ b) =
      fillInTurn table a ++ String.singleton c ++ fillInTurn table b := by
  induction table generalizing a b with
  | nil => rfl
  | cons entry table ih =>
    rw [fillInTurn_cons, fillAll_append h.singleton, ih h.tail, fillInTurn_cons, fillInTurn_cons]

theorem fillInTurn_joined (h : Cuts '\n' table) (lines : List String) :
    fillInTurn table (joined "\n" lines) = joined "\n" (lines.map (fillInTurn table)) := by
  induction table generalizing lines with
  | nil =>
    have hsame : fillInTurn [] = id := rfl
    rw [hsame, List.map_id]
    rfl
  | cons entry table ih =>
    rw [fillInTurn_cons, fillAll_joined h.singleton, ih h.tail, List.map_map]
    exact congrArg _ (List.map_congr_left fun line _ => (fillInTurn_cons entry table line).symm)

theorem fillInTurn_of_not_contains (h : Cuts c table) {text : String}
    (htext : ∀ entry ∈ table, contains text entry.1 = false) : fillInTurn table text = text := by
  induction table with
  | nil => rfl
  | cons entry table ih =>
    have hfirst : fillAll [entry] text = text :=
      fillAll_of_not_contains h.singleton (by simpa using htext entry List.mem_cons_self)
    rw [fillInTurn_cons, hfirst]
    exact ih h.tail fun other hother => htext other (List.mem_cons_of_mem _ hother)

end Turns

/-! ## How often a character is there -/

/-- Every time a place is filled, its characters go and those of its content come. -/
theorem count_fillAll {entry : String × String} (hplace : entry.1 ≠ "") (text : String) (c : Char) :
    ∃ times, (times = 0 ↔ contains text entry.1 = false) ∧
      count (fillAll [entry] text) c + times * count entry.1 c =
        count text c + times * count entry.2 c := by
  obtain ⟨needle, by_⟩ := entry
  have hne : ∀ entry ∈ entries [(needle, by_)], entry.1 ≠ [] := by
    intro entry hentry
    rw [List.mem_singleton.mp hentry]
    exact mt String.toList_eq_nil_iff.mp hplace
  have hcount (cs : List Char) : ∃ times, (times = 0 ↔ occursIn needle.toList cs = false) ∧
      (filled (entries [(needle, by_)]) cs).count c + times * needle.toList.count c =
        cs.count c + times * by_.toList.count c := by
    induction cs using filled_induction hne with
    | nil =>
      have hnil : occursIn needle.toList [] = false := by
        simpa [occursIn] using hplace
      exact ⟨0, by simp [hnil], by simp [filled, filling]⟩
    | found place content rest hplace_ne hfound ih =>
      obtain ⟨times, -, hsum⟩ := ih
      have hentry := List.mem_singleton.mp (List.mem_of_find?_eq_some hfound)
      cases hentry
      have hoccurs : occursIn needle.toList (needle.toList ++ rest) = true :=
        occursIn_iff.mpr ⟨[], rest, by simp⟩
      refine ⟨times + 1, by simp [hoccurs], ?_⟩
      rw [filled_place hplace_ne hfound, List.count_append, List.count_append, Nat.add_mul,
        Nat.add_mul]
      omega
    | plain d rest hplain ih =>
      obtain ⟨times, htimes, hsum⟩ := ih
      have hnot : needle.toList.isPrefixOf (d :: rest) = false := by
        simpa only [Bool.not_eq_true] using List.find?_eq_none.mp hplain _ List.mem_cons_self
      refine ⟨times, by rw [htimes, occursIn, hnot, Bool.false_or], ?_⟩
      rw [filled_plain hplain, List.count_cons, List.count_cons]
      omega
  obtain ⟨times, htimes, hsum⟩ := hcount text.toList
  refine ⟨times, htimes, ?_⟩
  rw [count, fillAll, String.toList_ofList]
  exact hsum

theorem count_append (a b : String) (c : Char) : count (a ++ b) c = count a c + count b c := by
  rw [count, String.toList_append, List.count_append]
  rfl

theorem count_joined (separator : String) (parts : List String) (c : Char) :
    count (joined separator parts) c =
      (parts.map (count · c)).sum + (parts.length - 1) * count separator c := by
  induction parts with
  | nil => simp [joined, count]
  | cons part parts ih =>
    cases parts with
    | nil => simp [joined]
    | cons second others =>
      rw [joined_cons, count_append, count_append, ih]
      simp only [List.map_cons, List.sum_cons, List.length_cons, Nat.add_sub_cancel, Nat.add_mul]
      omega

section Counts

variable {c : Char} {table : List (String × String)} {text : String}

theorem Cuts.count_eq_zero (h : Cuts c table) {entry : String × String} (hentry : entry ∈ table) :
    count entry.1 c = 0 := List.count_eq_zero.mpr (h entry hentry).2

/-- A character that is in no place does not get lost. -/
theorem count_le_fillInTurn (h : Cuts c table) :
    count text c ≤ count (fillInTurn table text) c := by
  induction table generalizing text with
  | nil => exact Nat.le_refl _
  | cons entry table ih =>
    have hentry := List.mem_cons_self (a := entry) (l := table)
    obtain ⟨times, -, hsum⟩ := count_fillAll (h entry hentry).1 text c
    rw [h.count_eq_zero hentry] at hsum
    rw [fillInTurn_cons]
    exact Nat.le_trans (by omega) (ih h.tail)

/-- Let every content that is not empty have a character that no place has, and every place a second
character. If there are no more of the first in the end than before, there are no more of the
second, and if there are no fewer of these, there was no place to fill. -/
theorem not_contains_of_counts {d : Char} (h : Cuts c table)
    (hplaces : ∀ entry ∈ table, 0 < count entry.1 d)
    (hcontents : ∀ entry ∈ table, 0 < count entry.2 c ∨ entry.2 = "")
    (hsame : count (fillInTurn table text) c = count text c) :
    count (fillInTurn table text) d ≤ count text d ∧
      (count (fillInTurn table text) d = count text d →
        ∀ entry ∈ table, contains text entry.1 = false) := by
  induction table generalizing text with
  | nil => exact ⟨Nat.le_refl _, fun _ _ hentry => nomatch hentry⟩
  | cons entry table ih =>
    have hentry := List.mem_cons_self (a := entry) (l := table)
    obtain ⟨times, htimes, hfirst⟩ := count_fillAll (h entry hentry).1 text c
    obtain ⟨times', htimes', hsecond⟩ := count_fillAll (h entry hentry).1 text d
    have hplace := hplaces entry hentry
    have hlater : count (fillAll [entry] text) c ≤
        count (fillInTurn table (fillAll [entry] text)) c :=
      count_le_fillInTurn h.tail
    rw [h.count_eq_zero hentry] at hfirst
    rw [fillInTurn_cons] at hsame ⊢
    have hunfilled (hnot : contains text entry.1 = false) : fillAll [entry] text = text :=
      fillAll_of_not_contains h.singleton (by simpa using hnot)
    have hkept : count (fillAll [entry] text) c = count text c := by omega
    rw [← hkept] at hsame
    obtain ⟨hle, hrest⟩ := ih h.tail (fun e he => hplaces e (List.mem_cons_of_mem _ he))
      (fun e he => hcontents e (List.mem_cons_of_mem _ he)) hsame
    have hcons (hnot : contains text entry.1 = false)
        (hmore : ∀ e ∈ table, contains (fillAll [entry] text) e.1 = false) :
        ∀ e ∈ entry :: table, contains text e.1 = false := by
      rw [hunfilled hnot] at hmore
      exact List.forall_mem_cons.mpr ⟨hnot, hmore⟩
    rcases hcontents entry hentry with hcontent | hempty
    · -- the first character would be there more often
      have hgain : times ≤ times * count entry.2 c := Nat.le_mul_of_pos_right times hcontent
      have hnot : contains text entry.1 = false := htimes.mp (by omega)
      rw [hunfilled hnot] at hle hrest ⊢
      exact ⟨hle, fun heq => hcons hnot (by rw [hunfilled hnot]; exact hrest heq)⟩
    · -- the second character would be there less often
      have hnothing : count entry.2 d = 0 := by rw [hempty]; rfl
      have hloss : times' ≤ times' * count entry.1 d := Nat.le_mul_of_pos_right times' hplace
      rw [hnothing] at hsecond
      refine ⟨by omega, fun heq => ?_⟩
      exact hcons (htimes'.mp (by omega)) (hrest (by omega))

end Counts

end Cartridge.Text
