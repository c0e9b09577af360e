import Cartridge.Text.Search

/-!
# Lines of texts

* `joined_cons`, `contains_joined`, `mem_joined`: texts that were joined.
* `mem_of_mem_splitOn`, `splitOn_of_not_mem`: parts have no other characters than the text, and a
  text without the separator is one part.
* `lines_append_newline`, `lines_joined_eq`: the lines of texts with newlines between them are those
  of each.
* `Line`, `Line.getElem?_lines`: a line at its place in a text.
* `lines_append`: what stands in front of a text and has no newline belongs to its first line.
-/

namespace Cartridge.Text

theorem joined_cons (separator first second : String) (others : List String) :
    joined separator (first :: second :: others) =
      first ++ separator ++ joined separator (second :: others) := String.intercalate_cons_cons

theorem contains_trans {whole part piece : String} (h : contains whole part = true)
    (hpart : contains part piece = true) : contains whole piece = true := occursIn_trans hpart h

theorem contains_empty (text : String) : contains text "" = true :=
  occursIn_iff.mpr ⟨[], text.toList, rfl⟩

theorem contains_append (front back : String) : contains (front ++ back) front = true :=
  occursIn_iff.mpr ⟨[], back.toList, by rw [String.toList_append, List.nil_append]⟩

theorem contains_joined {separator part : String} {parts : List String} (h : part ∈ parts) :
    contains (joined separator parts) part = true := by
  induction parts with
  | nil => cases h
  | cons first parts ih =>
    cases parts with
    | nil =>
      rw [List.mem_singleton.mp h]
      exact occursIn_iff.mpr ⟨[], [], by simp [joined]⟩
    | cons second others =>
      rw [joined_cons]
      rcases List.mem_cons.mp h with rfl | h
      · exact contains_trans (contains_append _ _) (contains_append _ separator)
      · have hbehind : contains (first ++ separator ++ joined separator (second :: others))
            (joined separator (second :: others)) = true :=
          occursIn_iff.mpr ⟨(first ++ separator).toList, [], by simp⟩
        exact contains_trans hbehind (ih h)

theorem mem_joined {separator : String} {parts : List String} {c : Char}
    (h : c ∈ (joined separator parts).toList) :
    c ∈ separator.toList ∨ ∃ part ∈ parts, c ∈ part.toList := by
  induction parts with
  | nil => cases h
  | cons first parts ih =>
    cases parts with
    | nil => exact .inr ⟨first, List.mem_singleton_self first, by simpa [joined] using h⟩
    | cons second others =>
      rw [joined_cons, String.toList_append, String.toList_append, List.mem_append,
        List.mem_append] at h
      rcases h with (h | h) | h
      · exact .inr ⟨first, List.mem_cons_self, h⟩
      · exact .inl h
      · obtain h | ⟨part, hpart, hc⟩ := ih h
        · exact .inl h
        · exact .inr ⟨part, List.mem_cons_of_mem first hpart, hc⟩

theorem mem_of_mem_splitOn {separator c : Char} {text part : List Char}
    (h : part ∈ text.splitOn separator) (hc : c ∈ part) : c ∈ text := by
  induction text generalizing part with
  | nil =>
    rw [List.splitOn_nil, List.mem_singleton] at h
    exact h ▸ hc
  | cons d rest ih =>
    rw [List.splitOn_cons_eq_if_modifyHead] at h
    obtain ⟨first, others, hrest⟩ :=
      List.exists_cons_of_ne_nil (List.splitOn_ne_nil separator rest)
    rw [hrest] at h ih
    split at h
    · rcases List.mem_cons.mp h with rfl | h
      · cases hc
      · exact List.mem_cons_of_mem d (ih h hc)
    · rw [List.modifyHead_cons] at h
      rcases List.mem_cons.mp h with rfl | h
      · rcases List.mem_cons.mp hc with rfl | hc
        · exact List.mem_cons_self
        · exact List.mem_cons_of_mem d (ih List.mem_cons_self hc)
      · exact List.mem_cons_of_mem d (ih (List.mem_cons_of_mem first h) hc)

theorem splitOn_of_not_mem {separator : Char} {text : String} (h : separator ∉ text.toList) :
    splitOn text separator = [text] := by
  rw [splitOn, List.splitOn_eq_singleton h, List.map_singleton, String.ofList_toList]

theorem lines_append_newline (a b : String) : lines (a ++ "\n" ++ b) = lines a ++ lines b := by
  have htext : (a ++ "\n" ++ b).toList = a.toList ++ '\n' :: b.toList := by simp
  rw [lines, splitOn, htext, List.splitOn_append_cons_self, List.map_append]
  rfl

theorem lines_joined_eq {parts : List String} (hne : parts ≠ []) :
    lines (joined "\n" parts) = parts.flatMap lines := by
  induction parts with
  | nil => exact absurd rfl hne
  | cons part parts ih =>
    cases parts with
    | nil => simp [joined]
    | cons second others =>
      rw [joined_cons, lines_append_newline, ih (List.cons_ne_nil _ _)]
      rfl

theorem splitOn_append {separator : Char} {front : List Char} (hfront : separator ∉ front)
    (text : List Char) :
    (front ++ text).splitOn separator = (text.splitOn separator).modifyHead (front ++ ·) := by
  induction front with
  | nil =>
    rw [List.nil_append]
    cases text.splitOn separator <;> rfl
  | cons c front ih =>
    have hc : (c == separator) = false := by
      simpa using fun h : c = separator => hfront (h ▸ List.mem_cons_self)
    have hrest : separator ∉ front := fun h => hfront (List.mem_cons_of_mem _ h)
    rw [List.cons_append, List.splitOn_cons_eq_if_modifyHead, hc, ih hrest,
      List.modifyHead_modifyHead]
    rfl

theorem length_splitOn (separator : Char) (text : List Char) :
    (text.splitOn separator).length = text.count separator + 1 := by
  induction text with
  | nil => rfl
  | cons c text ih =>
    rw [List.splitOn_cons_eq_if_modifyHead, List.count_cons]
    split
    · rw [List.length_cons, ih]
    · rw [List.length_modifyHead, ih]

/-- A line of a text, between what is before it and what is after it. -/
structure Line where
  before : List Char
  text : List Char
  after : List Char
  starts : before = [] ∨ ∃ front, before = front ++ ['\n']
  unbroken : '\n' ∉ text
  ends : after = [] ∨ ∃ back, after = '\n' :: back

namespace Line

/-- The text that it is a line of. -/
def whole (line : Line) : List Char := line.before ++ line.text ++ line.after

/-- A line has as many lines before it as there are newlines before it. -/
theorem getElem?_lines (line : Line) :
    (line.whole.splitOn '\n')[line.before.count '\n']? = some line.text := by
  obtain ⟨before, text, after, hstarts, hunbroken, hends⟩ := line
  have hfirst : ∃ others, (text ++ after).splitOn '\n' = text :: others := by
    rcases hends with rfl | ⟨back, rfl⟩
    · exact ⟨[], by rw [List.append_nil, List.splitOn_eq_singleton hunbroken]⟩
    · refine ⟨back.splitOn '\n', ?_⟩
      rw [List.splitOn_append_cons_self, List.splitOn_eq_singleton hunbroken]
      rfl
  obtain ⟨others, hothers⟩ := hfirst
  rw [whole, List.append_assoc]
  rcases hstarts with rfl | ⟨front, rfl⟩
  · rw [List.nil_append, hothers]
    rfl
  · have hcount : (front ++ ['\n']).count '\n' = (front.splitOn '\n').length := by
      rw [List.count_append, length_splitOn]
      rfl
    rw [List.append_assoc, List.singleton_append, List.splitOn_append_cons_self, hothers, hcount,
      List.getElem?_append_right (Nat.le_refl _), Nat.sub_self]
    rfl

end Line

/-- What stands in front of a text and has no newline belongs to its first line. -/
theorem lines_append {front : String} (hfront : '\n' ∉ front.toList) (text : String) :
    lines (front ++ text) = (lines text).modifyHead (front ++ ·) := by
  rw [lines, splitOn, String.toList_append, splitOn_append hfront, lines, splitOn]
  cases text.toList.splitOn '\n' with
  | nil => rfl
  | cons first others => simp

end Cartridge.Text
