/-!
# White space

White space of every script, and the text that is left when it is taken off both ends.

* `stripLeft_blank_append`, `stripRight_append_blank`: blanks at an end do not matter.
* `exists_strip_append`: what neither begins nor ends with a blank stays where it is.
* `count_strip`: no other character than blanks is lost.
-/

namespace Cartridge.Text

/-- The code points of white space: the ASCII blanks and separators, and the spaces of Unicode. -/
def blankCodes : List Nat :=
  [0x20, 0x0A, 0x09, 0x0D, 0x0B, 0x0C, 0x1C, 0x1D, 0x1E, 0x1F, 0x85, 0xA0, 0x1680, 0x2000, 0x2001,
   0x2002, 0x2003, 0x2004, 0x2005, 0x2006, 0x2007, 0x2008, 0x2009, 0x200A, 0x2028, 0x2029, 0x202F,
   0x205F, 0x3000]

/-- Whether a character is white space. -/
def isBlank (c : Char) : Bool :=
  let n := c.toNat
  (n ≤ 0x20 || 0x85 ≤ n) && blankCodes.contains n

/-- The text without the white space it begins with. -/
def stripLeft (cs : List Char) : List Char := cs.dropWhile isBlank

/-- The text without the white space it ends with. -/
def stripRight (cs : List Char) : List Char := (cs.reverse.dropWhile isBlank).reverse

/-- The text without the white space at either end. -/
def strip (cs : List Char) : List Char := stripRight (stripLeft cs)

/-- Whether nothing but white space is there. -/
def allBlank (cs : List Char) : Bool := cs.all isBlank

/-- The string without the white space at either end. -/
def stripped (s : String) : String := .ofList (strip s.toList)

theorem stripLeft_blank_append {b : List Char} (hb : ∀ c ∈ b, isBlank c) (cs : List Char) :
    stripLeft (b ++ cs) = stripLeft cs := by
  induction b with
  | nil => rfl
  | cons c b ih =>
    have hc : isBlank c = true := hb c (by simp)
    have hrest : ∀ d ∈ b, isBlank d := fun d hd => hb d (by simp [hd])
    simpa [stripLeft, hc] using ih hrest

theorem stripRight_append_blank {b : List Char} (hb : ∀ c ∈ b, isBlank c) (cs : List Char) :
    stripRight (cs ++ b) = stripRight cs := by
  have hr : ∀ c ∈ b.reverse, isBlank c := fun c hc => hb c (List.mem_reverse.1 hc)
  have h := stripLeft_blank_append hr cs.reverse
  simp only [stripLeft] at h
  simp only [stripRight, List.reverse_append, h]

theorem stripLeft_of_head {c : Char} (hc : isBlank c = false) (cs : List Char) :
    stripLeft (c :: cs) = c :: cs := by
  simp [stripLeft, hc]

theorem exists_blank_append_stripLeft (cs : List Char) :
    ∃ gap, cs = gap ++ stripLeft cs ∧ ∀ c ∈ gap, isBlank c = true :=
  ⟨cs.takeWhile isBlank, List.takeWhile_append_dropWhile.symm,
    List.all_eq_true.mp List.all_takeWhile⟩

theorem stripLeft_cases (cs : List Char) :
    stripLeft cs = [] ∨ ∃ c rest, stripLeft cs = c :: rest ∧ isBlank c = false := by
  induction cs with
  | nil => exact .inl rfl
  | cons c cs ih =>
    by_cases hc : isBlank c = true
    · simpa [stripLeft, hc] using ih
    · exact .inr ⟨c, cs, by simp [stripLeft, hc], by simpa using hc⟩

theorem stripLeft_stripLeft (cs : List Char) : stripLeft (stripLeft cs) = stripLeft cs := by
  rcases stripLeft_cases cs with h | ⟨c, rest, h, hc⟩
  · rw [h]
    rfl
  · rw [h, stripLeft_of_head hc]

theorem not_blank_of_stripLeft_eq {c : Char} {cs : List Char} (h : stripLeft (c :: cs) = c :: cs) :
    isBlank c = false := by
  rcases stripLeft_cases (c :: cs) with hnil | ⟨d, rest, hd, hblank⟩
  · rw [h] at hnil
    cases hnil
  · rw [h] at hd
    cases hd
    exact hblank

/-- White space at the beginning ends where a text begins that has none there. -/
theorem stripLeft_append {back : List Char} (hback : stripLeft back = back) (cs : List Char) :
    stripLeft (cs ++ back) = stripLeft cs ++ back := by
  induction cs with
  | nil => exact hback
  | cons c cs ih =>
    by_cases hc : isBlank c = true
    · simpa [stripLeft, hc] using ih
    · simp [stripLeft, hc]

theorem exists_stripLeft_append {c : Char} (hc : isBlank c = false) (before tail : List Char) :
    ∃ before', stripLeft (before ++ c :: tail) = before' ++ c :: tail := by
  induction before with
  | nil => exact ⟨[], by simp [stripLeft, hc]⟩
  | cons d before ih =>
    by_cases hd : isBlank d = true
    · simpa [stripLeft, hd] using ih
    · exact ⟨d :: before, by simp [stripLeft, hd]⟩

theorem exists_stripRight_append {c : Char} (hc : isBlank c = false) (front after : List Char) :
    ∃ after', stripRight (front ++ c :: after) = front ++ c :: after' := by
  obtain ⟨before', h⟩ := exists_stripLeft_append hc after.reverse front.reverse
  refine ⟨before'.reverse, ?_⟩
  rw [stripLeft] at h
  rw [stripRight, List.reverse_append, List.reverse_cons, List.append_assoc,
    List.singleton_append, h]
  simp

theorem exists_strip_append {text : List Char} {first last : Char} (hfirst : isBlank first = false)
    (hlast : isBlank last = false) (hhead : text.head? = some first)
    (hend : text.getLast? = some last) (before after : List Char) :
    ∃ before' after', strip (before ++ text ++ after) = before' ++ text ++ after' := by
  obtain ⟨rest, rfl⟩ := List.head?_eq_some_iff.mp hhead
  obtain ⟨before', hbefore⟩ := exists_stripLeft_append hfirst before (rest ++ after)
  obtain ⟨front, hfront⟩ := List.getLast?_eq_some_iff.mp hend
  obtain ⟨after', hafter⟩ := exists_stripRight_append hlast (before' ++ front) after
  refine ⟨before', after', ?_⟩
  have hleft : stripLeft (before ++ first :: rest ++ after) =
      before' ++ front ++ last :: after := by
    calc stripLeft (before ++ first :: rest ++ after)
        = stripLeft (before ++ first :: (rest ++ after)) := by
          rw [List.append_assoc, List.cons_append]
      _ = before' ++ (first :: rest) ++ after := by
          rw [hbefore, List.append_assoc, List.cons_append]
      _ = before' ++ front ++ last :: after := by rw [hfront]; simp
  rw [strip, hleft, hafter, hfront]
  simp

theorem strip_subset (cs : List Char) : strip cs ⊆ cs := by
  intro c hc
  have hleft : c ∈ stripLeft cs := by
    have hc := List.mem_reverse.mp hc
    exact List.mem_reverse.mp ((List.dropWhile_suffix isBlank).subset hc)
  exact (List.dropWhile_suffix isBlank).subset hleft

theorem count_stripLeft {c : Char} (hc : isBlank c = false) (cs : List Char) :
    (stripLeft cs).count c = cs.count c := by
  induction cs with
  | nil => rfl
  | cons d cs ih =>
    by_cases hd : isBlank d = true
    · have hne : d ≠ c := by
        rintro rfl
        rw [hc] at hd
        cases hd
      have hleft : stripLeft (d :: cs) = stripLeft cs := by simp [stripLeft, hd]
      rw [hleft, ih, List.count_cons_of_ne hne]
    · have hleft : stripLeft (d :: cs) = d :: cs := by simp [stripLeft, hd]
      rw [hleft]

theorem count_strip {c : Char} (hc : isBlank c = false) (cs : List Char) :
    (strip cs).count c = cs.count c := by
  have hright : (stripRight (stripLeft cs)).count c = (stripLeft cs).count c := by
    rw [stripRight, List.count_reverse]
    refine (count_stripLeft hc (stripLeft cs).reverse).trans ?_
    rw [List.count_reverse]
  rw [strip, hright, count_stripLeft hc]

end Cartridge.Text
