import Cartridge.Prompt.Build
import Cartridge.Proofs.Text.Filling

/-!
# Places of the template

The places of the template are filled one after the other, so a text that is put in is looked at
again for the places whose turn comes later. Each line of the template is a place or has no brace,
so the prompt is known line by line. What a later turn puts into an earlier text brings newlines or
takes a brace away, and nothing makes up for it, so the prompt is the template filled at one go if
and only if no text has a place whose turn comes later.

* `fillings_cuts`: the characters at which the prompt falls into parts.
* `fillInTurn_place`, `fillAll_place`: what becomes of a line that is a place.
* `IsTemplate.fillInTurn_eq_iff`: when the places can be filled one after the other.
* `Between`, `IsTemplate.contains_fillInTurn`: what stands between two separators of the target's
  text.
* `build_eq_fillAll_iff`: the prompt and the template filled at one go.
-/

namespace Cartridge.Prompt

open Text (Cuts fillAll fillInTurn contains count joined)

variable {t : Target} {samples : List Sample}

/-! ## The places -/

/-- The places of the template in the order in which they are filled. -/
def places : List String :=
  ["GAMEBOY_CONSTRAINTS", "GBDK_FUNCTIONS", "CONTEXT_INFO", "OUTPUT_FORMAT", "EXAMPLES"].map slot

theorem map_fst_fillings (t : Target) (samples : List Sample) :
    (fillings t samples).map Prod.fst = places := rfl

theorem mem_places {entry : String × String} (h : entry ∈ fillings t samples) :
    entry.1 ∈ places := by
  rw [← map_fst_fillings t samples]
  exact List.mem_map_of_mem h

/-- The characters between the parts of a text that is put in. -/
def separators : List Char := ['\n', ' ', ',']

theorem fillings_cuts {c : Char} (hc : c ∈ separators) : Cuts c (fillings t samples) := by
  have hplaces : ∀ place ∈ places, place ≠ "" ∧ ∀ c ∈ separators, c ∉ place.toList := by
    simp [places, slot, separators]
  intro entry hentry
  exact ⟨(hplaces _ (mem_places hentry)).1, (hplaces _ (mem_places hentry)).2 c hc⟩

theorem newline_cuts : Cuts '\n' (fillings t samples) := fillings_cuts List.mem_cons_self

theorem brace_place {entry : String × String} (h : entry ∈ fillings t samples) :
    0 < count entry.1 '\x7b' := by
  have hplaces : ∀ place ∈ places, 0 < count place '\x7b' := by decide
  exact hplaces _ (mem_places h)

theorem not_contains_place {text : String} (h : '\x7b' ∉ text.toList) {entry : String × String}
    (hentry : entry ∈ fillings t samples) : contains text entry.1 = false := by
  rw [Bool.eq_false_iff]
  intro hcontains
  have hbrace : '\x7b' ∈ entry.1.toList := List.count_pos_iff.mp (brace_place hentry)
  obtain ⟨a, b, hsplit⟩ := Text.occursIn_iff.mp hcontains
  apply h
  rw [hsplit]
  simp [hbrace]

/-! ## The texts that are put in -/

theorem libraryInfo_eq (t : Target) : ∃ lines,
    libraryInfo t = "AVAILABLE GBDK FUNCTIONS:\n```c\n" ++ text lines ++ "\n```" := ⟨_, rfl⟩

/-- What a target says of the project. -/
def projectInfo (project : Option String) : String :=
  match project with
  | some summary =>
    if summary = "" then "" else "\nPROJECT CONTEXT:\n" ++ Text.stripped summary ++ "\n"
  | none => ""

theorem targetInfo_eq (t : Target) :
    targetInfo t = "CONTEXT INFORMATION:\n" ++ (t.layout.map layoutInfo).getD "" ++
      focusInfo t.focus ++ projectInfo t.project := rfl

/-- A text that is put in has a newline or is empty. -/
theorem newline_content {entry : String × String} (h : entry ∈ fillings t samples) :
    0 < count entry.2 '\n' ∨ entry.2 = "" := by
  simp only [fillings, List.mem_cons, List.not_mem_nil, or_false] at h
  rcases h with rfl | rfl | rfl | rfl | rfl
  · have hbreak : 0 < count "\n\n" '\n' := by decide
    left
    simp only [Text.count_append]
    omega
  · have hfirst : 0 < count "AVAILABLE GBDK FUNCTIONS:\n```c\n" '\n' := by decide
    obtain ⟨lines, hlibrary⟩ := libraryInfo_eq t
    left
    simp only [hlibrary, Text.count_append]
    omega
  · have hfirst : 0 < count "CONTEXT INFORMATION:\n" '\n' := by decide
    left
    simp only [targetInfo_eq, Text.count_append]
    omega
  · have hrules : 0 < count (text answerRules) '\n' := by
      rw [text, Text.count_joined]
      exact Nat.lt_of_lt_of_le (by decide : 0 < (answerRules.length - 1) * count "\n" '\n')
        (Nat.le_add_left _ _)
    exact .inl hrules
  · have hfirst : 0 < count "\n\nEXAMPLES OF GOOD CONVERSIONS:\n" '\n' := by decide
    cases samples with
    | nil => exact .inr rfl
    | cons sample samples =>
      have hsamples : ∃ rest, samplesText (sample :: samples) =
          "\n\nEXAMPLES OF GOOD CONVERSIONS:\n" ++ rest := ⟨_, rfl⟩
      obtain ⟨rest, hsamples⟩ := hsamples
      left
      simp only [hsamples, Text.count_append]
      omega

/-! ## The lines of the template -/

section Place

variable {before after : List (String × String)} {entry : String × String}

theorem not_contains_earlier (hsplit : fillings t samples = before ++ entry :: after) :
    ∀ e ∈ before, contains entry.1 e.1 = false := by
  have hplaces : places.Pairwise fun earlier later => contains later earlier = false := by decide
  rw [← map_fst_fillings t samples, List.pairwise_map, hsplit, List.pairwise_append] at hplaces
  exact fun e he => hplaces.2.2 e he entry List.mem_cons_self

theorem fillAll_place (hsplit : fillings t samples = before ++ entry :: after) :
    fillAll (fillings t samples) entry.1 = entry.2 := by
  have hentry : entry ∈ fillings t samples := by simp [hsplit]
  have hne : entry.1 ≠ "" := (newline_cuts entry hentry).1
  rw [hsplit]
  exact Text.fillAll_own hne (not_contains_earlier hsplit)

/-- What is put into a place goes through the turns of the later places. -/
theorem fillInTurn_place (hsplit : fillings t samples = before ++ entry :: after) :
    fillInTurn (fillings t samples) entry.1 = fillInTurn after entry.2 := by
  have hcuts : Cuts '\n' (before ++ entry :: after) := hsplit ▸ newline_cuts
  have hbefore : fillInTurn before entry.1 = entry.1 :=
    Text.fillInTurn_of_not_contains (fun e he => hcuts e (List.mem_append_left _ he))
      (not_contains_earlier hsplit)
  have hne : entry.1 ≠ "" := (hcuts entry (by simp)).1
  have hentry : fillAll ([] ++ entry :: []) entry.1 = entry.2 :=
    Text.fillAll_own hne (fun e he => nomatch he)
  rw [List.nil_append] at hentry
  rw [hsplit, Text.fillInTurn_append, hbefore, Text.fillInTurn_cons, hentry]

end Place

/-- Lines of which each is a place or has no brace, and every place is one. -/
structure IsTemplate (lines : List String) : Prop where
  line : ∀ line ∈ lines, line ∈ places ∨ '\x7b' ∉ line.toList
  place : ∀ place ∈ places, place ∈ lines

theorem isTemplate_templateLines : IsTemplate templateLines where
  line := by
    have hfirst : '\x7b' ∉ (templateLines.headD "").toList := by decide +kernel
    have hothers : ∀ line ∈ templateLines.tail, line ∈ places ∨ '\x7b' ∉ line.toList := by
      simp [templateLines, places, slot]
    intro line hline
    rcases List.mem_cons.mp hline with rfl | hline
    · exact .inr hfirst
    · exact hothers line hline
  place := by decide

/-! ## One place after the other and all at one go -/

theorem IsTemplate.cases {lines : List String} (hlines : IsTemplate lines) (t : Target)
    (samples : List Sample) {line : String} (hline : line ∈ lines) :
    (fillInTurn (fillings t samples) line = line ∧ fillAll (fillings t samples) line = line) ∨
      ∃ before entry after, fillings t samples = before ++ entry :: after ∧ line = entry.1 := by
  rcases hlines.line line hline with hplace | hplain
  · right
    rw [← map_fst_fillings t samples] at hplace
    obtain ⟨entry, hentry, rfl⟩ := List.mem_map.mp hplace
    obtain ⟨before, after, hsplit⟩ := List.append_of_mem hentry
    exact ⟨before, entry, after, hsplit, rfl⟩
  · left
    have hnone : ∀ entry ∈ fillings t samples, contains line entry.1 = false :=
      fun entry hentry => not_contains_place hplain hentry
    exact ⟨Text.fillInTurn_of_not_contains newline_cuts hnone,
      Text.fillAll_of_not_contains newline_cuts hnone⟩

/-- The texts that are put in have no place whose turn comes later. -/
def Undisturbed (table : List (String × String)) : Prop :=
  table.Pairwise fun earlier later => contains earlier.2 later.1 = false

theorem undisturbed_iff {table : List (String × String)} :
    Undisturbed table ↔ ∀ before entry after, table = before ++ entry :: after →
      ∀ later ∈ after, contains entry.2 later.1 = false := by
  constructor
  · rintro h before entry after rfl
    exact (List.pairwise_cons.mp (List.pairwise_append.mp h).2.1).1
  · intro h
    induction table with
    | nil => exact List.Pairwise.nil
    | cons entry table ih =>
      refine List.pairwise_cons.mpr ⟨h [] entry table rfl, ih ?_⟩
      rintro before later after rfl
      exact h (entry :: before) later after rfl

theorem eq_of_sum_eq {α : Type} (f g : α → Nat) (l : List α) (hle : ∀ a ∈ l, f a ≤ g a)
    (hsum : (l.map f).sum = (l.map g).sum) : ∀ a ∈ l, f a = g a := by
  have hsums (l : List α) (hle : ∀ a ∈ l, f a ≤ g a) : (l.map f).sum ≤ (l.map g).sum := by
    induction l with
    | nil => exact Nat.le_refl _
    | cons a l ih =>
      obtain ⟨hfirst, hrest⟩ := List.forall_mem_cons.mp hle
      exact Nat.add_le_add hfirst (ih hrest)
  induction l with
  | nil => exact fun a ha => nomatch ha
  | cons a l ih =>
    obtain ⟨hfirst, hrest⟩ := List.forall_mem_cons.mp hle
    have hothers := hsums l hrest
    simp only [List.map_cons, List.sum_cons] at hsum
    exact List.forall_mem_cons.mpr ⟨by omega, ih hrest (by omega)⟩

section Turns

variable {before after : List (String × String)} {entry : String × String} {lines : List String}

theorem later_cuts (hsplit : fillings t samples = before ++ entry :: after) : Cuts '\n' after := by
  intro e he
  exact newline_cuts e (hsplit ▸ List.mem_append_right _ (List.mem_cons_of_mem _ he))

/-- Where the later turns add no newline, they take braces away, if they do anything. -/
theorem later_turns (hsplit : fillings t samples = before ++ entry :: after)
    (hsame : count (fillInTurn after entry.2) '\n' = count entry.2 '\n') :
    count (fillInTurn after entry.2) '\x7b' ≤ count entry.2 '\x7b' ∧
      (count (fillInTurn after entry.2) '\x7b' = count entry.2 '\x7b' →
        ∀ later ∈ after, contains entry.2 later.1 = false) := by
  have hmem : ∀ e ∈ after, e ∈ fillings t samples := fun e he => by simp [hsplit, he]
  exact Text.not_contains_of_counts (later_cuts hsplit) (fun e he => brace_place (hmem e he))
    (fun e he => newline_content (hmem e he)) hsame

/-- A character stands as often in all lines filled in turn as in all lines filled at one go if the
two texts are the same. -/
theorem sum_count_eq {table : List (String × String)}
    (hsame : joined "\n" (lines.map (fillInTurn table)) = joined "\n" (lines.map (fillAll table)))
    (c : Char) : (lines.map fun line => count (fillInTurn table line) c).sum =
      (lines.map fun line => count (fillAll table line) c).sum := by
  have hcount : count (joined "\n" (lines.map (fillInTurn table))) c =
      count (joined "\n" (lines.map (fillAll table))) c := by rw [hsame]
  rw [Text.count_joined, Text.count_joined, List.map_map, List.map_map, List.length_map,
    List.length_map] at hcount
  exact Nat.add_right_cancel hcount

/-- Filling in turn gives what filling at one go gives exactly if no text that is put in is
disturbed. The newlines tell whether a later text that has some was put in, and then the braces
whether a place was emptied. -/
theorem IsTemplate.fillInTurn_eq_iff (hlines : IsTemplate lines) :
    fillInTurn (fillings t samples) (joined "\n" lines) =
        fillAll (fillings t samples) (joined "\n" lines) ↔ Undisturbed (fillings t samples) := by
  rw [undisturbed_iff, Text.fillInTurn_joined newline_cuts, Text.fillAll_joined newline_cuts]
  constructor
  · intro hsame
    have hnewlines : ∀ line ∈ lines, count (fillAll (fillings t samples) line) '\n' =
        count (fillInTurn (fillings t samples) line) '\n' := by
      refine eq_of_sum_eq _ _ lines (fun line hline => ?_) (sum_count_eq hsame '\n').symm
      rcases hlines.cases t samples hline with
        ⟨hturn, hall⟩ | ⟨before, entry, after, hsplit, rfl⟩
      · rw [hturn, hall]
      · rw [fillInTurn_place hsplit, fillAll_place hsplit]
        exact Text.count_le_fillInTurn (later_cuts hsplit)
    have hbraces : ∀ line ∈ lines, count (fillInTurn (fillings t samples) line) '\x7b' =
        count (fillAll (fillings t samples) line) '\x7b' := by
      refine eq_of_sum_eq _ _ lines (fun line hline => ?_) (sum_count_eq hsame '\x7b')
      have hnewline := hnewlines line hline
      rcases hlines.cases t samples hline with
        ⟨hturn, hall⟩ | ⟨before, entry, after, hsplit, rfl⟩
      · rw [hturn, hall]
      · rw [fillInTurn_place hsplit, fillAll_place hsplit] at hnewline ⊢
        exact (later_turns hsplit hnewline.symm).1
    intro before entry after hsplit
    have hentry : entry ∈ fillings t samples := by simp [hsplit]
    have hline : entry.1 ∈ lines := hlines.place _ (mem_places hentry)
    have hnewline := hnewlines _ hline
    have hbrace := hbraces _ hline
    rw [fillInTurn_place hsplit, fillAll_place hsplit] at hnewline hbrace
    exact (later_turns hsplit hnewline.symm).2 hbrace
  · intro hundisturbed
    refine congrArg (joined "\n") (List.map_congr_left fun line hline => ?_)
    rcases hlines.cases t samples hline with ⟨hturn, hall⟩ | ⟨before, entry, after, hsplit, rfl⟩
    · rw [hturn, hall]
    · rw [fillInTurn_place hsplit, fillAll_place hsplit]
      exact Text.fillInTurn_of_not_contains (later_cuts hsplit)
        (hundisturbed before entry after hsplit)

end Turns

/-! ## What stands between blanks -/

/-- The piece stands in the text, with characters on either side that no place has. -/
def Between (text piece : String) : Prop :=
  ∃ c ∈ separators, ∃ d ∈ separators, ∃ a b,
    text = a ++ String.singleton c ++ (piece ++ String.singleton d ++ b)

section Between

variable {whole piece name : String}

theorem Between.append (h : Between whole piece) (front back : String) :
    Between (front ++ whole ++ back) piece := by
  obtain ⟨c, hc, d, hd, a, b, rfl⟩ := h
  exact ⟨c, hc, d, hd, front ++ a, b ++ back, by simp only [String.append_assoc]⟩

theorem Between.contains (h : Between whole piece) : Text.contains whole piece = true := by
  obtain ⟨c, -, d, -, a, b, rfl⟩ := h
  exact Text.occursIn_iff.mpr ⟨(a ++ String.singleton c).toList, (String.singleton d ++ b).toList,
    by simp only [String.toList_append, List.append_assoc]⟩

theorem between_joined {names : List String} (h : name ∈ names) :
    Between (" " ++ joined ", " names ++ "\n") name := by
  induction names with
  | nil => cases h
  | cons first names ih =>
    cases names with
    | nil =>
      rw [List.mem_singleton.mp h]
      refine ⟨' ', by decide, '\n', by decide, "", "", ?_⟩
      simp [joined, String.append_assoc]
    | cons second others =>
      -- the separator ends one name and begins the next
      have hsplit : " " ++ joined ", " (first :: second :: others) ++ "\n" =
          " " ++ first ++ "," ++ (" " ++ joined ", " (second :: others) ++ "\n") := by
        rw [Text.joined_cons, show ", " = "," ++ " " from rfl]
        simp only [String.append_assoc]
      rw [hsplit]
      rcases List.mem_cons.mp h with rfl | h
      · refine ⟨' ', by decide, ',', by decide, "",
          " " ++ joined ", " (second :: others) ++ "\n", ?_⟩
        simp [String.append_assoc]
      · have hlater := (ih h).append (" " ++ first ++ ",") ""
        rwa [String.append_empty] at hlater

theorem between_layoutInfo {l : Layout} (h : name ∈ l.workRam) : Between (layoutInfo l) name := by
  obtain ⟨back, hback⟩ : ∃ back, layoutInfo l = "- Zero page variables: " ++
      joined ", " l.zeroPage ++ "\n" ++ "- Work RAM variables: " ++ joined ", " l.workRam ++ "\n" ++
        back := ⟨_, rfl⟩
  have hsplit : layoutInfo l = ("- Zero page variables: " ++ joined ", " l.zeroPage ++ "\n" ++
      "- Work RAM variables:") ++ (" " ++ joined ", " l.workRam ++ "\n") ++ back := by
    rw [hback, show "- Work RAM variables: " = "- Work RAM variables:" ++ " " from rfl]
    simp only [String.append_assoc]
  rw [hsplit]
  exact (between_joined h).append _ back

theorem between_of_layout {l : Layout} (hlayout : t.layout = some l) (h : name ∈ l.workRam) :
    Between (targetInfo t) name := by
  rw [targetInfo_eq, hlayout]
  have hinfo := (between_layoutInfo h).append "CONTEXT INFORMATION:\n"
    (focusInfo t.focus ++ projectInfo t.project)
  rwa [← String.append_assoc] at hinfo

theorem between_of_project {summary : String} (hproject : t.project = some summary)
    (hne : summary ≠ "") : Between (targetInfo t) (Text.stripped summary) := by
  refine ⟨'\n', by decide, '\n', by decide, "CONTEXT INFORMATION:\n" ++
    (t.layout.map layoutInfo).getD "" ++ focusInfo t.focus ++ "\nPROJECT CONTEXT:", "", ?_⟩
  have hinfo : projectInfo t.project =
      "\nPROJECT CONTEXT:" ++ "\n" ++ Text.stripped summary ++ "\n" := by
    rw [hproject, projectInfo, if_neg hne]
    rfl
  rw [targetInfo_eq, hinfo, String.append_empty]
  simp only [String.append_assoc]
  rfl

/-- A piece of a text that is put in stands there in the end if it has no later place in it. -/
theorem IsTemplate.contains_fillInTurn {lines : List String} (hlines : IsTemplate lines)
    {before after : List (String × String)} {entry : String × String}
    (hsplit : fillings t samples = before ++ entry :: after) (h : Between entry.2 piece)
    (hpiece : ∀ e ∈ after, Text.contains piece e.1 = false) :
    Text.contains (fillInTurn (fillings t samples) (joined "\n" lines)) piece = true := by
  have hentry : entry ∈ fillings t samples := by simp [hsplit]
  have hcuts {c : Char} (hc : c ∈ separators) : Cuts c after :=
    fun e he => fillings_cuts hc e (hsplit ▸ List.mem_append_right _ (List.mem_cons_of_mem _ he))
  have hkept : fillInTurn after piece = piece :=
    Text.fillInTurn_of_not_contains (hcuts List.mem_cons_self) hpiece
  have hline : Text.contains (fillInTurn (fillings t samples) entry.1) piece = true := by
    obtain ⟨c, hc, d, hd, a, b, hinfo⟩ := h
    rw [fillInTurn_place hsplit, hinfo, Text.fillInTurn_add (hcuts hc),
      Text.fillInTurn_add (hcuts hd), hkept]
    exact Between.contains ⟨c, hc, d, hd, _, _, rfl⟩
  rw [Text.fillInTurn_joined newline_cuts]
  exact Text.contains_trans
    (Text.contains_joined (List.mem_map_of_mem (hlines.place _ (mem_places hentry)))) hline

theorem fillings_split : fillings t samples =
    [(slot "GAMEBOY_CONSTRAINTS", text hardware ++ "\n\n" ++ constraints t),
      (slot "GBDK_FUNCTIONS", libraryInfo t)] ++ (slot "CONTEXT_INFO", targetInfo t) ::
      [(slot "OUTPUT_FORMAT", text answerRules), (slot "EXAMPLES", samplesText samples)] := rfl

theorem contains_template (h : Between (targetInfo t) piece)
    (hrules : Text.contains piece (slot "OUTPUT_FORMAT") = false)
    (hexamples : Text.contains piece (slot "EXAMPLES") = false) :
    Text.contains (fillInTurn (fillings t samples) (joined "\n" templateLines)) piece = true := by
  refine isTemplate_templateLines.contains_fillInTurn fillings_split h ?_
  simp only [List.forall_mem_cons]
  exact ⟨hrules, hexamples, fun e he => nomatch he⟩

end Between

/-! ## The prompt -/

/-- The prompt is the template filled at one go, with the request behind it, if and only if no text
that is put in has a place whose turn comes later. Whatever else is put in, the summary of the
project and the names of variables for the work memory stand in the prompt as they are, unless they
have one of the last two places in them. -/
theorem build_eq_fillAll_iff (source : String) (t : Target) (samples : List Sample) :
    (build source t samples = fillAll (fillings t samples) template ++ request source ↔
        Undisturbed (fillings t samples)) ∧
      (∀ summary, t.project = some summary →
        contains (Text.stripped summary) (slot "OUTPUT_FORMAT") = false →
        contains (Text.stripped summary) (slot "EXAMPLES") = false →
        contains (build source t samples) (Text.stripped summary) = true) ∧
      ∀ layout, t.layout = some layout → ∀ name ∈ layout.workRam,
        contains name (slot "OUTPUT_FORMAT") = false → contains name (slot "EXAMPLES") = false →
        contains (build source t samples) name = true := by
  have htemplate : template = joined "\n" templateLines := rfl
  have hbuild : build source t samples =
      fillInTurn (fillings t samples) template ++ request source := rfl
  have hfront {piece : String}
      (h : contains (fillInTurn (fillings t samples) (joined "\n" templateLines)) piece = true) :
      contains (fillInTurn (fillings t samples) (joined "\n" templateLines) ++ request source)
        piece = true :=
    Text.contains_trans (Text.contains_append _ _) h
  rw [hbuild, htemplate, String.append_left_inj]
  refine ⟨isTemplate_templateLines.fillInTurn_eq_iff, ?_, ?_⟩
  · intro summary hproject hrules hexamples
    by_cases hne : summary = ""
    · have hempty : Text.stripped summary = "" := by rw [hne]; decide
      rw [hempty]
      exact Text.contains_empty _
    · exact hfront (contains_template (between_of_project hproject hne) hrules hexamples)
  · intro layout hlayout name hname hrules hexamples
    exact hfront (contains_template (between_of_layout hlayout hname) hrules hexamples)

/-- A summary that quotes the place of the examples loses the quotation, and one that quotes the
place that it is put into itself keeps it. -/
theorem build_eq_fillAll_iff_of_quoting :
    let quoting : Target := { project := some "import \x7bEXAMPLES\x7d from './docs';" }
    let harmless : Target := { project := some "import \x7bCONTEXT_INFO\x7d from './docs';\n" }
    build "let x = 1;" quoting [] ≠
        fillAll (fillings quoting []) template ++ request "let x = 1;" ∧
      contains (build "let x = 1;" harmless []) "import \x7bCONTEXT_INFO\x7d from './docs';" =
        true := by
  intro quoting harmless
  have hsummary : contains (targetInfo quoting) (slot "EXAMPLES") = true := by
    have hstands := (between_of_project (t := quoting) rfl (by decide)).contains
    have hplace : contains (Text.stripped "import \x7bEXAMPLES\x7d from './docs';")
        (slot "EXAMPLES") = true := by decide
    exact Text.contains_trans hstands hplace
  have hstripped : Text.stripped "import \x7bCONTEXT_INFO\x7d from './docs';\n" =
      "import \x7bCONTEXT_INFO\x7d from './docs';" := by decide
  constructor
  · intro hsame
    have hundisturbed := (build_eq_fillAll_iff "let x = 1;" quoting []).1.mp hsame
    have hnot := undisturbed_iff.mp hundisturbed _ (slot "CONTEXT_INFO", targetInfo quoting) _
      fillings_split (slot "EXAMPLES", "") (by simp [samplesText])
    rw [hsummary] at hnot
    cases hnot
  · have hkept := (build_eq_fillAll_iff "let x = 1;" harmless []).2.1 _ rfl
    rw [hstripped] at hkept
    exact hkept (by decide) (by decide)

end Cartridge.Prompt
