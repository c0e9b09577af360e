import Cartridge.Project.Assembly
import Cartridge.Proofs.Project.Schema
import Cartridge.Proofs.Text.Lines

/-!
# Declarations as comments

The code of a project opens with a comment for each exported name. A name that was declared is a
word and has no newline, but an item of an export list is whatever stands between two commas, so it
may have several lines, and only the first of them is behind the mark of the comment.

* `Commented`: every line that is not empty is a comment.
* `commented_joined`, `commented_append`: texts that were put together.
* `isWord_of_declared`: declared names are words.
* `commented_forwardDeclarations_iff`: the declarations are comments if and only if every line of a
  listed item but the first is empty or a comment itself.
-/

namespace Cartridge

/-- Every line that is not empty is a comment. -/
def Commented (text : String) : Prop :=
  ∀ line ∈ Text.lines text, line ≠ "" → Text.startsWith line "//" = true

theorem commented_empty : Commented "" := by
  intro line hline hne
  exact absurd (List.mem_singleton.mp hline) hne

theorem commented_append_newline (a b : String) :
    Commented (a ++ "\n" ++ b) ↔ Commented a ∧ Commented b := by
  simp only [Commented, Text.lines_append_newline, List.forall_mem_append]

theorem commented_joined (parts : List String) :
    Commented (Text.joined "\n" parts) ↔ ∀ part ∈ parts, Commented part := by
  cases parts with
  | nil => exact iff_of_true commented_empty (fun _ h => nomatch h)
  | cons part parts =>
    simp only [Commented, Text.lines_joined_eq (List.cons_ne_nil part parts), List.mem_flatMap]
    constructor
    · intro h part hpart line hline
      exact h line ⟨part, hpart, hline⟩
    · rintro h line ⟨part, hpart, hline⟩
      exact h part hpart line hline

/-- A text behind the mark of a comment is commented if all its lines but the first are. -/
theorem commented_append {mark : String} (hmark : Text.startsWith mark "//" = true)
    (hline : '\n' ∉ mark.toList) (text : String) :
    Commented (mark ++ text) ↔
      ∀ line ∈ (Text.lines text).tail, line ≠ "" → Text.startsWith line "//" = true := by
  obtain ⟨first, others, hlines⟩ :=
    List.exists_cons_of_ne_nil (l := Text.lines text) (by simp [Text.lines, Text.splitOn])
  have hfirst : Text.startsWith (mark ++ first) "//" = true := by
    rw [Text.startsWith, List.isPrefixOf_iff_prefix, String.toList_append]
    exact (List.isPrefixOf_iff_prefix.mp hmark).trans (List.prefix_append _ _)
  rw [Commented, Text.lines_append hline, hlines, List.modifyHead_cons, List.forall_mem_cons]
  exact and_iff_right fun _ => hfirst

/-! ## Exported names -/

namespace Source

/-- The items of the export lists of a source text. -/
def listedExports (content : String) : List String :=
  (exportList.findAll content.toList).flatMap fun found => listItems (found.group 1)

theorem isWord_of_declared {cs : List Char} {found : Pattern.Found}
    (h : found ∈ exportedDeclaration.findAll cs) : ∀ c ∈ found.group 1, Text.isWord c = true :=
  Pattern.group_of_mem_findAll (Pattern.remembers_next _ <| Pattern.remembers_next _ <|
    Pattern.remembers_next _ <| Pattern.remembers_next _ remembers_name) h

/-- A declared name has one line. -/
theorem lines_of_declared {cs : List Char} {found : Pattern.Found}
    (h : found ∈ exportedDeclaration.findAll cs) :
    Text.lines (found.groupString 1) = [found.groupString 1] := by
  have hnewline : '\n' ∉ found.group 1 :=
    fun hmem => absurd (isWord_of_declared h _ hmem) (by decide)
  exact Text.splitOn_of_not_mem (by simpa [Pattern.Found.groupString] using hnewline)

theorem mem_of_mem_listItems {cs : List Char} {item : String} (h : item ∈ listItems cs) {c : Char}
    (hc : c ∈ item.toList) : c ∈ cs := by
  obtain ⟨hmem, -⟩ := List.mem_filter.mp h
  obtain ⟨part, hpart, rfl⟩ := List.mem_map.mp hmem
  rw [Text.splitOn, String.toList_ofList] at hpart
  obtain ⟨piece, hpiece, rfl⟩ := List.mem_map.mp hpart
  rw [Text.stripped, String.toList_ofList, String.toList_ofList] at hc
  exact Text.mem_of_mem_splitOn hpiece (Text.strip_subset piece hc)

theorem ne_empty_of_listed {content item : String} (h : item ∈ listedExports content) :
    item ≠ "" := by
  obtain ⟨found, -, hitem⟩ := List.mem_flatMap.mp h
  simpa using (List.mem_filter.mp hitem).2

/-- An item of an export list that stands on one line has one line. -/
theorem lines_of_listed {content item : String}
    (hlines : ∀ found ∈ exportList.findAll content.toList, '\n' ∉ found.group 1)
    (hitem : item ∈ listedExports content) : Text.lines item = [item] := by
  obtain ⟨found, hfound, hitem⟩ := List.mem_flatMap.mp hitem
  exact Text.splitOn_of_not_mem fun hc => hlines found hfound (mem_of_mem_listItems hitem hc)

end Source

/-! ## The declarations of a project -/

namespace Project

theorem commented_forwardDeclarations (files : List SourceFile) :
    Commented (forwardDeclarations files) ↔ ∀ file ∈ files, ∀ name ∈ file.exports,
      name ≠ "" → name ≠ "default" → Commented ("// Forward declaration for " ++ name) := by
  have hnames (name : String) :
      name ∈ (files.flatMap (·.exports)).filter (fun n => n ≠ "" && n ≠ "default") ↔
        ∃ file ∈ files, name ∈ file.exports ∧ name ≠ "" ∧ name ≠ "default" := by
    simp only [List.mem_filter, List.mem_flatMap, Bool.and_eq_true, decide_eq_true_eq]
    exact ⟨fun ⟨⟨file, hfile, hname⟩, hkept⟩ => ⟨file, hfile, hname, hkept⟩,
      fun ⟨file, hfile, hname, hkept⟩ => ⟨⟨file, hfile, hname⟩, hkept⟩⟩
  have hall : Commented (forwardDeclarations files) ↔
      ∀ name ∈ (files.flatMap (·.exports)).filter (fun n => n ≠ "" && n ≠ "default"),
        Commented ("// Forward declaration for " ++ name) := by
    rw [forwardDeclarations]
    generalize (files.flatMap (·.exports)).filter (fun n => n ≠ "" && n ≠ "default") = names
    cases names with
    | nil => exact iff_of_true commented_empty (fun _ h => nomatch h)
    | cons name names =>
      have hend (text : String) : Commented (text ++ "\n") ↔ Commented text := by
        have hsplit := commented_append_newline text ""
        rw [String.append_empty] at hsplit
        rw [hsplit]
        exact and_iff_left commented_empty
      show Commented (Text.joined "\n" _ ++ "\n") ↔ _
      rw [hend, commented_joined, List.forall_mem_map]
  rw [hall]
  simp only [hnames]
  constructor
  · intro h file hfile name hname hne hdefault
    exact h name ⟨file, hfile, hname, hne, hdefault⟩
  · rintro h name ⟨file, hfile, hname, hne, hdefault⟩
    exact h file hfile name hname hne hdefault

/-- The declarations of files whose exports were read from their content are comments if and only if
every line but the first of each item in their export lists is empty or a comment itself. If no
export list goes over more than one line, they are. -/
theorem commented_forwardDeclarations_iff (files : List SourceFile)
    (hexports : ∀ file ∈ files, file.exports = Source.exports file.content) :
    (Commented (forwardDeclarations files) ↔
        ∀ file ∈ files, ∀ item ∈ Source.listedExports file.content,
          ∀ line ∈ (Text.lines item).tail, line ≠ "" → Text.startsWith line "//" = true) ∧
      ((∀ file ∈ files, ∀ found ∈ Source.exportList.findAll file.content.toList,
          '\n' ∉ found.group 1) → Commented (forwardDeclarations files)) := by
  have hmark (name : String) : Commented ("// Forward declaration for " ++ name) ↔
      ∀ line ∈ (Text.lines name).tail, line ≠ "" → Text.startsWith line "//" = true :=
    commented_append (by decide) (by decide) name
  have hiff : Commented (forwardDeclarations files) ↔
      ∀ file ∈ files, ∀ item ∈ Source.listedExports file.content,
        ∀ line ∈ (Text.lines item).tail, line ≠ "" → Text.startsWith line "//" = true := by
    rw [commented_forwardDeclarations]
    constructor
    · intro h file hfile item hitem
      have hexported : item ∈ file.exports := by
        rw [hexports file hfile]
        exact List.mem_append_right _ hitem
      by_cases hdefault : item = "default"
      · have hlines : Text.lines "default" = ["default"] := Text.splitOn_of_not_mem (by decide)
        rw [hdefault, hlines]
        exact fun line hline => nomatch hline
      · have hne := Source.ne_empty_of_listed hitem
        exact (hmark item).mp (h file hfile item hexported hne hdefault)
    · intro h file hfile name hname _ _
      rw [hexports file hfile] at hname
      rw [hmark]
      rcases List.mem_append.mp hname with hdeclared | hlisted
      · obtain ⟨found, hfound, rfl⟩ := List.mem_map.mp hdeclared
        rw [Source.lines_of_declared hfound]
        exact fun line hline => nomatch hline
      · exact h file hfile name hlisted
  refine ⟨hiff, ?_⟩
  intro hlines
  refine hiff.mpr fun file hfile item hitem line hline => ?_
  rw [Source.lines_of_listed (hlines file hfile) hitem] at hline
  cases hline

/-- A listed name whose new name stands on the next line is not a comment as a whole; a comment in
the list does no harm. -/
theorem commented_forwardDeclarations_iff_of_renamed :
    let renamed : SourceFile :=
      { location := "/game/a.ts", path := "a.ts", content := "export \x7b player\n  as hero \x7d;"
        exports := ["player\n  as hero"] }
    let noted : SourceFile :=
      { location := "/game/b.ts", path := "b.ts", content := "export \x7b enemy\n// later\n \x7d;"
        exports := ["enemy\n// later"] }
    (∀ file ∈ [renamed, noted], file.exports = Source.exports file.content) ∧
      ¬ Commented (forwardDeclarations [renamed, noted]) ∧
      Commented (forwardDeclarations [noted]) := by
  intro renamed noted
  have hrenamed : renamed.exports = Source.exports renamed.content := by decide
  have hnoted : noted.exports = Source.exports noted.content := by decide
  have hboth : ∀ file ∈ [renamed, noted], file.exports = Source.exports file.content := by
    simp [hrenamed, hnoted]
  have hone : ∀ file ∈ [noted], file.exports = Source.exports file.content := by simp [hnoted]
  have hhero : "  as hero" ∈ (Text.lines "player\n  as hero").tail := by decide
  have hlisted : "player\n  as hero" ∈ Source.listedExports renamed.content := by decide
  refine ⟨hboth, ?_, ?_⟩
  · intro h
    have hline := (commented_forwardDeclarations_iff _ hboth).1.mp h renamed (by simp) _ hlisted _
      hhero (by decide)
    exact absurd hline (by decide)
  · exact (commented_forwardDeclarations_iff _ hone).1.mpr (by decide)

end Project

end Cartridge
