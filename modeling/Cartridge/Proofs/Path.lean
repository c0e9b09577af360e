import Cartridge.Path
import Cartridge.Proofs.Text.Lines

/-!
# Paths that are written and read

A path that was read is written so that it is read again as it was. Names without slashes that are
no dots are components of their own.

* `Plain`, `Normal`: components and paths as they are read.
* `normal_ofString`, `Normal.parent`: what is read is normal, and so is the folder above it.
* `ofString_toString`: a normal path that was written is read again.
* `append_ne_append`: names with suffixes that end differently are different.
* `child_stem`: another suffix gives another file of the same folder.
-/

namespace Cartridge.Path

/-- A component that stays as it is when it is read. -/
structure Plain (part : String) : Prop where
  slash : '/' ∉ part.toList
  empty : part ≠ ""
  dot : part ≠ "."

/-- A path as it is read. -/
structure Normal (p : Path) : Prop where
  root : p.root = "" ∨ p.root = "/" ∨ p.root = "//"
  parts : ∀ part ∈ p.parts, Plain part

theorem normal_ofString (s : String) : Normal (ofString s) where
  root := by
    unfold ofString rootOf
    dsimp only
    split
    · exact .inl rfl
    · exact .inr (.inr rfl)
    · exact .inr (.inl rfl)
  parts := by
    intro part hpart
    obtain ⟨hsplit, hkept⟩ := List.mem_filter.mp hpart
    obtain ⟨cs, hcs, rfl⟩ := List.mem_map.mp hsplit
    simp only [Bool.and_eq_true, decide_eq_true_eq] at hkept
    refine ⟨?_, hkept.1, hkept.2⟩
    rw [String.toList_ofList]
    exact Text.not_mem_of_mem_splitOn hcs

theorem Normal.parent {p : Path} (h : Normal p) : Normal p.parent :=
  ⟨h.root, fun part hpart => h.parts part (List.dropLast_subset p.parts hpart)⟩

/-! ## Reading what was written -/

theorem filter_plain {parts : List String} (h : ∀ part ∈ parts, Plain part) :
    parts.filter (fun part => part ≠ "" && part ≠ ".") = parts := by
  refine List.filter_eq_self.mpr fun part hpart => ?_
  have hplain := h part hpart
  simp [hplain.empty, hplain.dot]

theorem exists_of_plain {part : String} (h : Plain part) :
    ∃ c cs, part.toList = c :: cs ∧ c ≠ '/' := by
  cases hlist : part.toList with
  | nil => exact absurd (String.toList_eq_nil_iff.mp hlist) h.empty
  | cons c cs =>
    refine ⟨c, cs, rfl, ?_⟩
    rintro rfl
    exact h.slash (hlist ▸ List.mem_cons_self)

/-- Slashes in front of a component are the root. -/
theorem rootOf_append {root part : String} (hroot : root = "" ∨ root = "/" ∨ root = "//")
    (hpart : Plain part) (rest : String) : rootOf (root ++ (part ++ rest)) = root := by
  obtain ⟨c, cs, hlist, hc⟩ := exists_of_plain hpart
  unfold rootOf
  rw [String.toList_append, String.toList_append, hlist]
  rcases hroot with rfl | rfl | rfl <;> simp [hc]

theorem splitOn_slash (s : String) : Text.splitOn ("/" ++ s) '/' = "" :: Text.splitOn s '/' := by
  have hsplit : ('/' :: s.toList).splitOn '/' = [] :: s.toList.splitOn '/' := by
    rw [List.splitOn_cons_eq_if_modifyHead]
    exact if_pos (beq_self_eq_true _)
  rw [Text.splitOn, String.toList_append]
  show (('/' :: s.toList).splitOn '/').map String.ofList = _
  rw [hsplit]
  rfl

/-- A normal path that was written is read again. -/
theorem ofString_toString {p : Path} (h : Normal p) : ofString p.toString = p := by
  obtain ⟨root, parts⟩ := p
  obtain ⟨hroot, hparts⟩ := h
  dsimp only at hroot hparts
  cases parts with
  | nil => rcases hroot with rfl | rfl | rfl <;> rfl
  | cons part rest =>
    have hwritten : toString ⟨root, part :: rest⟩ = root ++ "/".intercalate (part :: rest) := by
      rw [toString, List.isEmpty_cons, Bool.and_false]
      rfl
    have hsplit : Text.splitOn ("/".intercalate (part :: rest)) '/' = part :: rest :=
      Text.splitOn_joined (List.cons_ne_nil _ _) fun name hname => (hparts name hname).slash
    have hroots : rootOf (root ++ "/".intercalate (part :: rest)) = root := by
      obtain ⟨more, hmore⟩ : ∃ more, "/".intercalate (part :: rest) = part ++ more := by
        refine ⟨"/".intercalate ("" :: rest), ?_⟩
        rw [← String.intercalate_cons_append, String.append_empty]
      rw [hmore]
      exact rootOf_append hroot (hparts part List.mem_cons_self) more
    have hkept := filter_plain hparts
    rw [ofString, hwritten, hroots]
    congr 1
    rcases hroot with rfl | rfl | rfl
    · rw [String.empty_append, hsplit, hkept]
    · rw [splitOn_slash, hsplit]
      exact hkept
    · have hslashes : "//" ++ "/".intercalate (part :: rest) =
          "/" ++ ("/" ++ "/".intercalate (part :: rest)) := by
        rw [← String.append_assoc]
        rfl
      rw [hslashes, splitOn_slash, splitOn_slash, hsplit]
      exact hkept

/-! ## Names -/

/-- A component put behind a path. -/
theorem child_of_plain (p : Path) {name : String} (h : Plain name) :
    p.child name = ⟨p.root, p.parts ++ [name]⟩ := by
  have hroot : rootOf name = "" := by
    obtain ⟨c, cs, hlist, hc⟩ := exists_of_plain h
    unfold rootOf
    rw [hlist, List.takeWhile_cons_of_neg (by simpa using hc)]
  have hname : ofString name = ⟨"", [name]⟩ := by
    rw [ofString, hroot, Text.splitOn_of_not_mem h.slash,
      filter_plain (by simpa using h)]
  rw [child, hname]
  rfl

/-- Nothing is above a root. -/
theorem parent_of_nil {p : Path} (h : p.parts = []) : p.parent = p := by
  rw [parent, h]
  exact congrArg (Path.mk p.root) h.symm

theorem parent_child (p : Path) {name : String} (h : Plain name) : (p.child name).parent = p := by
  rw [child_of_plain p h, parent, List.dropLast_concat]

theorem hasNull_child (p : Path) {name : String} (h : Plain name) :
    (p.child name).hasNull = (p.hasNull || Text.contains name "\x00") := by
  rw [child_of_plain p h, hasNull, hasNull, List.any_append, List.any_cons, List.any_nil,
    Bool.or_false]

theorem mem_stemOf {name : String} {c : Char} (h : c ∈ (stemOf name).toList) : c ∈ name.toList := by
  unfold stemOf at h
  split at h
  · rw [String.toList_ofList] at h
    exact List.mem_of_mem_take h
  · exact h

theorem Normal.name {p : Path} (h : Normal p) : '/' ∉ p.name.toList := by
  unfold Path.name
  cases hlast : p.parts.getLast? with
  | none => exact List.not_mem_nil
  | some part => exact (h.parts part (List.mem_of_getLast? hlast)).slash

/-- A stem with a suffix of two characters or more is a component, whatever the stem is. -/
theorem plain_stem {p : Path} (h : Normal p) {suffix : String} (hslash : '/' ∉ suffix.toList)
    (hlength : 2 ≤ suffix.length) : Plain (p.stem ++ suffix) := by
  have hlong : 2 ≤ (p.stem ++ suffix).length := by
    rw [String.length_append]
    omega
  refine ⟨?_, ?_, ?_⟩
  · rw [String.toList_append, List.mem_append, not_or]
    exact ⟨fun hstem => h.name (mem_stemOf hstem), hslash⟩
  · intro hempty
    rw [hempty] at hlong
    exact absurd hlong (by decide)
  · intro hdot
    rw [hdot] at hlong
    exact absurd hlong (by decide)

theorem last_append (name : String) {suffix : String} {c : Char}
    (h : suffix.toList.getLast? = some c) : (name ++ suffix).toList.getLast? = some c := by
  rw [String.toList_append, List.getLast?_append, h]
  rfl

/-- Names with suffixes that end differently are different. -/
theorem append_ne_append (name suffix name' suffix' : String) {c c' : Char}
    (h : suffix.toList.getLast? = some c) (h' : suffix'.toList.getLast? = some c') (hne : c ≠ c') :
    name ++ suffix ≠ name' ++ suffix' := by
  intro heq
  have hlast := last_append name h
  rw [heq, last_append name' h'] at hlast
  exact hne (Option.some.inj hlast).symm

/-- A name with a suffix that does not end with a dot is no double dot. -/
theorem append_ne_dots (name : String) {suffix : String} {c : Char}
    (h : suffix.toList.getLast? = some c) (hc : c ≠ '.') : name ++ suffix ≠ ".." :=
  append_ne_append name suffix "" ".." h rfl hc

/-- The file with another suffix is in the folder of the file. -/
theorem child_stem {p : Path} (h : Normal p) {suffix : String} (hslash : '/' ∉ suffix.toList)
    (hlength : 2 ≤ suffix.length) : p.parent.child (p.stem ++ suffix) = p.withSuffix suffix :=
  child_of_plain _ (plain_stem h hslash hlength)

end Cartridge.Path
