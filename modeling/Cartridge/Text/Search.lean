/-!
# Searching texts

Looking for one text in another, counting and replacing it. Replacing scans from the left, and the
text put in is not looked at again.

* `occursIn_iff`: a text occurs in another exactly when it is a contiguous part of it.
* `append_cons_cut`: a text is on one side of a character that it does not have.
* `newline_not_mem_of_mem_lines`: no line has a newline in it.
* `splitOn_joined`, `lines_joined`: parts and lines that were joined come apart again.
-/

namespace Cartridge.Text

/-- Whether the needle stands somewhere in the text. -/
def occursIn (needle : List Char) : List Char → Bool
  | [] => needle.isEmpty
  | c :: rest => needle.isPrefixOf (c :: rest) || occursIn needle rest

/-- Whether the needle stands somewhere in the string. -/
def contains (text needle : String) : Bool := occursIn needle.toList text.toList

def startsWith (text start : String) : Bool := start.toList.isPrefixOf text.toList

def endsWith (text tail : String) : Bool := tail.toList.isSuffixOf text.toList

/-- One pass of replacement: `skip` characters are still part of the last needle found, `limit`
replacements are left (none: no limit), and `done` is the text so far, last character first. -/
def replacing (needle by_ : List Char) :
    List Char → Nat → Option Nat → List Char → List Char
  | [], _, _, done => done.reverse
  | _ :: rest, skip + 1, limit, done => replacing needle by_ rest skip limit done
  | c :: rest, 0, limit, done =>
    if limit ≠ some 0 && needle.isPrefixOf (c :: rest) then
      replacing needle by_ rest (needle.length - 1) (limit.map (· - 1)) (by_.reverse ++ done)
    else
      replacing needle by_ rest 0 limit (c :: done)

/-- The string with every occurrence of a non-empty needle replaced. -/
def replaceAll (text needle by_ : String) : String :=
  .ofList (replacing needle.toList by_.toList text.toList 0 none [])

/-- The string with the first occurrence of a non-empty needle replaced. -/
def replaceFirst (text needle by_ : String) : String :=
  .ofList (replacing needle.toList by_.toList text.toList 0 (some 1) [])

/-- The parts of a string between the separators: always one more than there are separators. -/
def splitOn (text : String) (separator : Char) : List String :=
  (text.toList.splitOn separator).map .ofList

/-- The lines of a text: what stands between its newlines. -/
def lines (text : String) : List String := splitOn text '\n'

/-- The number of characters of the string that are `c`. -/
def count (text : String) (c : Char) : Nat := text.toList.count c

/-- The strings joined with `separator` between neighbours. -/
def joined (separator : String) (parts : List String) : String := separator.intercalate parts

theorem occursIn_iff {needle text : List Char} :
    occursIn needle text = true ↔ ∃ a b, text = a ++ needle ++ b := by
  induction text with
  | nil =>
    constructor
    · intro h
      exact ⟨[], [], by simpa [occursIn] using h.symm⟩
    · rintro ⟨a, b, h⟩
      simp [occursIn, List.isEmpty_iff]
      simp_all
  | cons c rest ih =>
    simp only [occursIn, Bool.or_eq_true, List.isPrefixOf_iff_prefix, ih]
    constructor
    · rintro (⟨b, hb⟩ | ⟨a, b, rfl⟩)
      · exact ⟨[], b, by simpa using hb.symm⟩
      · exact ⟨c :: a, b, by simp⟩
    · rintro ⟨a, b, h⟩
      cases a with
      | nil => exact .inl ⟨b, by simpa using h.symm⟩
      | cons d a =>
        simp only [List.cons_append, List.cons.injEq] at h
        exact .inr ⟨a, b, h.2⟩

theorem occursIn_trans {part needle text : List Char} (hpart : occursIn part needle = true)
    (hneedle : occursIn needle text = true) : occursIn part text = true := by
  obtain ⟨a, b, rfl⟩ := occursIn_iff.mp hpart
  obtain ⟨a', b', rfl⟩ := occursIn_iff.mp hneedle
  exact occursIn_iff.mpr ⟨a' ++ a, b ++ b', by simp⟩

theorem occursIn_singleton {c : Char} {text : List Char} :
    occursIn [c] text = true ↔ c ∈ text := by
  rw [occursIn_iff]
  constructor
  · rintro ⟨a, b, rfl⟩
    simp
  · intro h
    obtain ⟨a, b, rfl⟩ := List.append_of_mem h
    exact ⟨a, b, by simp⟩

/-- A character that is not in the piece is on one side of it. -/
theorem append_cons_cut {e : Char} {before piece rest a b : List Char} (he : e ∉ piece)
    (h : before ++ (piece ++ rest) = a ++ e :: b) :
    (∃ t, a = before ++ (piece ++ t) ∧ rest = t ++ e :: b) ∨
      ∃ t, before = a ++ e :: t ∧ b = t ++ (piece ++ rest) := by
  rcases List.append_eq_append_iff.mp h with ⟨a', rfl, ha'⟩ | ⟨before', rfl, hbefore'⟩
  · rcases List.append_eq_append_iff.mp ha' with ⟨t, rfl, rfl⟩ | ⟨piece', rfl, hpiece'⟩
    · exact .inl ⟨t, rfl, rfl⟩
    · cases piece' with
      | nil => exact .inl ⟨[], by simp, by simpa using hpiece'.symm⟩
      | cons d piece' =>
        obtain ⟨rfl, -⟩ := List.cons.inj hpiece'
        exact absurd (by simp) he
  · cases before' with
    | nil =>
      cases piece with
      | nil => exact .inl ⟨[], by simp, by simpa using hbefore'.symm⟩
      | cons d piece =>
        obtain ⟨rfl, -⟩ := List.cons.inj hbefore'
        exact absurd (by simp) he
    | cons d t =>
      obtain ⟨rfl, rfl⟩ := List.cons.inj hbefore'
      exact .inr ⟨t, rfl, rfl⟩

theorem append_cons_inj {e : Char} {u v a b : List Char} (hu : e ∉ u) (hv : e ∉ v)
    (h : u ++ e :: a = v ++ e :: b) : u = v ∧ a = b := by
  have hcut : [] ++ (u ++ e :: a) = v ++ e :: b := h
  rcases append_cons_cut hu hcut with ⟨t, rfl, ht⟩ | ⟨t, ht, -⟩
  · cases t with
    | nil => exact ⟨by simp, (List.cons.inj ht).2⟩
    | cons d t =>
      obtain ⟨rfl, -⟩ := List.cons.inj ht
      simp at hv
  · simp at ht

theorem splitOn_eq_cons (separator : Char) (text : List Char) :
    ∃ others, text.splitOn separator = text.takeWhile (· ≠ separator) :: others := by
  induction text with
  | nil => exact ⟨[], List.splitOn_nil separator⟩
  | cons c rest ih =>
    obtain ⟨others, hothers⟩ := ih
    rw [List.splitOn_cons_eq_if_modifyHead]
    split
    · rename_i hc
      exact ⟨_, by rw [List.takeWhile_cons_of_neg (by simpa using hc)]⟩
    · rename_i hc
      rw [hothers, List.modifyHead_cons]
      exact ⟨others, by rw [List.takeWhile_cons_of_pos (by simpa using hc)]⟩

theorem not_mem_of_mem_splitOn {separator : Char} {text part : List Char}
    (h : part ∈ text.splitOn separator) : separator ∉ part := by
  induction text generalizing part with
  | nil =>
    rw [List.splitOn_nil, List.mem_singleton] at h
    simp [h]
  | cons c rest ih =>
    rw [List.splitOn_cons_eq_if_modifyHead] at h
    split at h
    · rcases List.mem_cons.mp h with rfl | h
      · simp
      · exact ih h
    · rename_i hc
      cases hs : rest.splitOn separator with
      | nil => exact absurd hs (List.splitOn_ne_nil separator rest)
      | cons first others =>
        rw [hs] at h ih
        rw [List.modifyHead_cons] at h
        rcases List.mem_cons.mp h with rfl | h
        · have hsep : separator ≠ c := by simpa using fun e => hc (by simp [e])
          exact List.not_mem_cons_of_ne_of_not_mem hsep (ih List.mem_cons_self)
        · exact ih (List.mem_cons_of_mem first h)

theorem newline_not_mem_of_mem_lines {text line : String} (h : line ∈ lines text) :
    '\n' ∉ line.toList := by
  obtain ⟨part, hpart, rfl⟩ := List.mem_map.mp h
  rw [String.toList_ofList]
  exact not_mem_of_mem_splitOn hpart

theorem splitOn_joined {separator : Char} {parts : List String} (hne : parts ≠ [])
    (h : ∀ part ∈ parts, separator ∉ part.toList) :
    splitOn (joined (String.singleton separator) parts) separator = parts := by
  have hsplit : ([separator].intercalate (parts.map String.toList)).splitOn separator =
      parts.map String.toList := by
    refine List.splitOn_intercalate separator ?_ (by simpa using hne)
    intro part hpart
    obtain ⟨p, hp, rfl⟩ := List.mem_map.mp hpart
    exact h p hp
  have htext : (joined (String.singleton separator) parts).toList =
      [separator].intercalate (parts.map String.toList) := by
    rw [joined, String.toList_intercalate, String.toList_singleton]
  rw [splitOn, htext, hsplit, List.map_map]
  simp

theorem lines_joined {parts : List String} (hne : parts ≠ [])
    (h : ∀ part ∈ parts, '\n' ∉ part.toList) : lines (joined "\n" parts) = parts :=
  splitOn_joined hne h

end Cartridge.Text
