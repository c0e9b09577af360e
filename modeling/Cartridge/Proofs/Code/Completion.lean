import Cartridge.Code.Review
import Cartridge.Proofs.Code.Keywords

/-!
# Completed code

Placement adds headers and hints and takes nothing away. Both headers are in the code after it: a
hint cannot come between the characters of a header, so one that is there stays there.

* `sublist_placed`: all characters of the code are kept, in their order.
* `contains_withHeaders`, `contains_placed`: both headers are there.
* `noHeader_not_mem_findings`: a review of placed code does not miss the header.
-/

namespace Cartridge.Code

/-! ## What is kept -/

theorem sublist_withHeaders (code : String) : code.toList.Sublist (withHeaders code).toList := by
  have hconsole : Text.contains (consoleHeader ++ "\n" ++ code) consoleHeader = true :=
    Text.occursIn_iff.mpr ⟨[], '\n' :: code.toList, by simp⟩
  have hio {code : String} (h : Text.contains code consoleHeader = true) : code.toList.Sublist
      (Text.replaceFirst code consoleHeader (consoleHeader ++ "\n" ++ ioHeader)).toList := by
    obtain ⟨a, b, hcode, hreplaced⟩ :=
      replacing_once (consoleHeader ++ "\n" ++ ioHeader).toList (by decide) h []
    rw [Text.replaceFirst, String.toList_ofList, hreplaced, hcode, String.toList_append,
      String.toList_append, List.append_assoc, List.append_assoc]
    refine (List.Sublist.refl a).append ((List.Sublist.refl _).append ?_)
    exact (List.sublist_append_right _ _).trans (List.sublist_append_right _ _)
  have hfront : code.toList.Sublist (consoleHeader ++ "\n" ++ code).toList := by
    rw [String.toList_append]
    exact List.sublist_append_right _ _
  rw [withHeaders]
  by_cases hcode : Text.contains code consoleHeader = true
  · rw [if_pos hcode]
    split
    · exact .refl _
    · exact hio hcode
  · rw [if_neg hcode]
    split
    · exact hfront
    · exact hfront.trans (hio hconsole)

/-- Placement keeps every character of the code, in its order. -/
theorem sublist_placed (code : String) : code.toList.Sublist (placed code).toList := by
  rw [toList_placed]
  exact (sublist_withHeaders code).trans ((insert_sublist stateHint _).trans
    ((insert_sublist constantHint _).trans (insert_sublist registerHint _)))

/-! ## The headers -/

/-- The headers that generated code needs. -/
def headers : List String := [consoleHeader, ioHeader]

theorem contains_ioHeader {code : String} (h : Text.contains code consoleHeader = true) :
    ∀ header ∈ headers, Text.contains (Text.replaceFirst code consoleHeader
      (consoleHeader ++ "\n" ++ ioHeader)) header = true := by
  obtain ⟨a, b, -, hreplaced⟩ :=
    replacing_once (consoleHeader ++ "\n" ++ ioHeader).toList (by decide) h []
  have hboth : ∀ header ∈ headers,
      Text.contains (consoleHeader ++ "\n" ++ ioHeader) header = true := by decide
  intro header hheader
  refine Text.occursIn_trans (hboth header hheader) ?_
  rw [Text.replaceFirst, String.toList_ofList, hreplaced]
  exact Text.occursIn_iff.mpr ⟨a, b, by simp⟩

theorem contains_withHeaders (code : String) :
    ∀ header ∈ headers, Text.contains (withHeaders code) header = true := by
  have hconsole : Text.contains (consoleHeader ++ "\n" ++ code) consoleHeader = true :=
    Text.occursIn_iff.mpr ⟨[], '\n' :: code.toList, by simp⟩
  have hpair {code : String} (hfirst : Text.contains code consoleHeader = true)
      (hsecond : Text.contains code ioHeader = true) :
      ∀ header ∈ headers, Text.contains code header = true := by
    simp [headers, hfirst, hsecond]
  rw [withHeaders]
  by_cases hcode : Text.contains code consoleHeader = true
  · rw [if_pos hcode]
    split
    · exact hpair hcode ‹_›
    · exact contains_ioHeader hcode
  · rw [if_neg hcode]
    split
    · exact hpair hconsole ‹_›
    · exact contains_ioHeader hconsole

/-- Code that has both headers gets none. -/
theorem withHeaders_eq_self {code : String}
    (h : ∀ header ∈ headers, Text.contains code header = true) : withHeaders code = code := by
  have hfirst := h consoleHeader (by simp [headers])
  have hsecond := h ioHeader (by simp [headers])
  rw [withHeaders, if_pos hfirst, if_pos hsecond]

theorem keywordless_of_header {header : String} (h : header ∈ headers) :
    Keywordless header.toList := by
  have hall : ∀ header ∈ headers, Keywordless header.toList := by decide
  exact hall header h

/-- Both headers are in the code after placement. -/
theorem contains_placed (code : String) :
    ∀ header ∈ headers, Text.contains (placed code) header = true := by
  intro header hheader
  have hsolid := keywordless_of_header hheader
  rw [Text.contains, toList_placed]
  refine occursIn_insert (by simp [hints]) hsolid ?_
  refine occursIn_insert (by simp [hints]) hsolid ?_
  exact occursIn_insert (by simp [hints]) hsolid (contains_withHeaders code header hheader)

/-! ## Reviews -/

theorem noHeader_mem_findings_iff (code : String) :
    Finding.noHeader ∈ findings code ↔ Text.contains code consoleHeader = false := by
  have hline (number : Nat) (line : String) : Finding.noHeader ∉ lineFindings number line := by
    unfold lineFindings
    split <;> split <;> simp
  have hmain : Finding.noHeader ∉ if mainHead.occursIn code then [] else [Finding.noMain] := by
    split <;> decide
  have hbraces : Finding.noHeader ∉
      if Text.count code '\x7b' = Text.count code '\x7d' then [] else [Finding.unbalanced] := by
    split <;> decide
  rw [findings, List.mem_append, List.mem_append, List.mem_append,
    or_iff_right (a := Finding.noHeader ∈ List.flatMap _ _), or_iff_right hmain,
    or_iff_left hbraces]
  · cases Text.contains code consoleHeader <;> decide
  · intro hmem
    obtain ⟨⟨line, number⟩, -, hmem⟩ := List.mem_flatMap.mp hmem
    exact hline number line hmem

theorem noHeader_not_mem_findings (code : String) :
    Finding.noHeader ∉ findings (placed code) := by
  rw [noHeader_mem_findings_iff, contains_placed code consoleHeader (by simp [headers])]
  exact Bool.noConfusion

end Cartridge.Code
