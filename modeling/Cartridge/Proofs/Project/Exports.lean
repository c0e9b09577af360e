import Cartridge.Proofs.Pattern.Longest
import Cartridge.Proofs.Pattern.Matches
import Cartridge.Proofs.Project.Comments
import Cartridge.Proofs.Project.Schema

/-!
# Exported functions

What a file exports is told twice: its list of exports has the names of declarations behind the word
`export` and the items of export lists, and a function is recorded as exported if that word stands
anywhere in its declaration. The two agree on a function that is announced by `export function`.
They do not if another modifier comes between, if the word only stands in the name, the parameters
or the result, or if the word itself is taken for the name of another export.

* `Announces`: a text begins with `export`, a keyword and a name.
* `announces_inj`: in one way.
* `exported_foundAt`, `foundAt_of_announces`: where an exported declaration is found.
* `declaration_foundAt`: what a declaration of a function begins with.
* `recorded_iff`: which functions are recorded as exported.
* `exported_mem_exports_iff`: which of them are listed.
-/

namespace Cartridge

/-! ## Words and gaps -/

namespace Text

theorem isWord_of_isBlank {c : Char} (h : isBlank c = true) : isWord c = false := by
  have hall : blankCodes.all (fun n => !CharSet.within wordCharacters.bounds n) = true := by
    decide +kernel
  have hcode : c.toNat ∈ blankCodes := by
    unfold isBlank at h
    rw [Bool.and_eq_true] at h
    simpa using h.2
  have hwithin : (!CharSet.within wordCharacters.bounds c.toNat) = true :=
    List.all_eq_true.mp hall c.toNat hcode
  exact Bool.not_eq_true' _ |>.mp hwithin

/-- Characters of a class that are followed by one outside it, or by nothing, are told from what
follows them. -/
theorem run_inj {p : Char → Bool} {u v a b : List Char} (hu : ∀ c ∈ u, p c = true)
    (hv : ∀ c ∈ v, p c = true) (ha : a.head?.any p = false) (hb : b.head?.any p = false)
    (h : u ++ a = v ++ b) : u = v ∧ a = b := by
  have htake {w d : List Char} (hw : ∀ c ∈ w, p c = true) (hd : d.head?.any p = false) :
      (w ++ d).takeWhile p = w := by
    rw [List.takeWhile_append_of_pos hw]
    cases d with
    | nil => exact List.append_nil w
    | cons c d => rw [List.takeWhile_cons_of_neg (by simpa using hd), List.append_nil]
  have huv : u = v := by rw [← htake hu ha, h, htake hv hb]
  subst huv
  exact ⟨rfl, List.append_cancel_left h⟩

end Text

namespace Source

open Pattern

/-- White space between two words. -/
def Gap (gap : List Char) : Prop := gap ≠ [] ∧ ∀ c ∈ gap, Text.isBlank c = true

/-- Word characters, at least one of them. -/
def Word (word : List Char) : Prop := word ≠ [] ∧ IsWord word

theorem Gap.head {gap : List Char} (h : Gap gap) (rest : List Char) :
    (gap ++ rest).head?.any Text.isWord = false := by
  obtain ⟨c, gap, rfl⟩ := List.exists_cons_of_ne_nil h.1
  exact Text.isWord_of_isBlank (h.2 c List.mem_cons_self)

theorem Word.head {word : List Char} (h : Word word) (rest : List Char) :
    (word ++ rest).head?.any Text.isBlank = false := by
  obtain ⟨c, word, rfl⟩ := List.exists_cons_of_ne_nil h.1
  refine Bool.eq_false_iff.mpr fun hblank => ?_
  have hword := h.2 c List.mem_cons_self
  rw [Text.isWord_of_isBlank hblank] at hword
  cases hword

/-- A gap and a word behind it are told from what follows them. -/
theorem gap_word_inj {gap gap' word word' rest rest' : List Char} (hgap : Gap gap)
    (hgap' : Gap gap') (hword : Word word) (hword' : Word word')
    (hrest : rest.head?.any Text.isWord = false) (hrest' : rest'.head?.any Text.isWord = false)
    (h : gap ++ (word ++ rest) = gap' ++ (word' ++ rest')) : word = word' ∧ rest = rest' := by
  obtain ⟨-, h⟩ := Text.run_inj hgap.2 hgap'.2 (hword.head rest) (hword'.head rest') h
  exact Text.run_inj hword.2 hword'.2 hrest hrest' h

/-! ## Exported declarations -/

/-- The keywords of exported declarations. -/
def exportKeywords : List String :=
  ["function", "class", "interface", "type", "const", "let", "var"]

/-- A text begins with the word `export`, a keyword and a name, which ends there. -/
def Announces (text keyword name : List Char) : Prop :=
  ∃ gap gap' rest, Gap gap ∧ Gap gap' ∧ Word keyword ∧ Word name ∧
    rest.head?.any Text.isWord = false ∧
    text = "export".toList ++ (gap ++ (keyword ++ (gap' ++ (name ++ rest))))

/-- A text announces one declaration. -/
theorem announces_inj {text keyword keyword' name name' : List Char}
    (h : Announces text keyword name) (h' : Announces text keyword' name') :
    keyword = keyword' ∧ name = name' := by
  obtain ⟨gap₁, gap₂, rest, hgap₁, hgap₂, hkeyword, hname, hrest, rfl⟩ := h
  obtain ⟨gap₁', gap₂', rest', hgap₁', hgap₂', hkeyword', hname', hrest', h⟩ := h'
  obtain ⟨hkeywords, h⟩ := gap_word_inj hgap₁ hgap₁' hkeyword hkeyword' (hgap₂.head _)
    (hgap₂'.head _) (List.append_cancel_left h)
  exact ⟨hkeywords, (gap_word_inj hgap₂ hgap₂' hname hname' hrest hrest' h).1⟩

theorem spells_oneOf {words : List String} {before piece after : List Char} :
    (oneOf (words.map exactly)).Spells before piece after ↔
      ∃ word ∈ words, piece = word.toList := by
  induction words with
  | nil => simp [oneOf, Spells]
  | cons word words ih =>
    cases words with
    | nil => simp [oneOf, exactly, Spells]
    | cons other words =>
      rw [List.map_cons, List.map_cons, oneOf, ← List.map_cons, Spells, ih]
      · simp only [List.mem_cons, exists_eq_or_imp]
        rfl
      · exact List.cons_ne_nil _ _

theorem gap_of_blanks {before piece after : List Char} (h : blanks.Spells before piece after) :
    Gap piece :=
  ⟨List.length_pos_iff.mp h.1, h.2⟩

theorem word_of_name {before piece after : List Char} (h : name.Spells before piece after) :
    Word piece :=
  ⟨List.length_pos_iff.mp h.1, h.2⟩

theorem word_of_keyword {keyword : String} (h : keyword ∈ "async" :: exportKeywords) :
    Word keyword.toList := by
  have hall : ("async" :: exportKeywords).all
      (fun keyword => keyword.toList ≠ [] && keyword.toList.all Text.isWord) = true := by
    decide +kernel
  have hword := List.all_eq_true.mp hall keyword h
  rw [Bool.and_eq_true, decide_eq_true_eq, List.all_eq_true] at hword
  exact hword

/-- An exported declaration ends where its name does. -/
theorem reaches_exportedDeclaration :
    Reaches exportedDeclaration fun there => there.rest.head?.any Text.isWord = false :=
  reaches_next _ <| reaches_next _ <| reaches_next _ <| reaches_next _ <|
    reaches_within_group 1 (reaches_many Text.isWord) fun _ _ h => h

/-- An exported declaration that is found is announced. -/
theorem exported_foundAt {here : Place} {m : Found} (hhere : here.Counted)
    (h : exportedDeclaration.foundAt here = some m) :
    ∃ keyword ∈ exportKeywords, Announces here.rest keyword.toList (m.group 1) := by
  have hend := stop_of_foundAt reaches_exportedDeclaration hhere h
  obtain ⟨_, here₁, hrest, rfl, hhere₁, h⟩ := match?_next_sound hhere h
  obtain ⟨gap, here₂, hrest₁, hgap, hhere₂, h⟩ := match?_next_sound hhere₁ h
  obtain ⟨_, here₃, hrest₂, hkeyword, hhere₃, h⟩ := match?_next_sound hhere₂ h
  obtain ⟨gap', here₄, hrest₃, hgap', hhere₄, h⟩ := match?_next_sound hhere₃ h
  obtain ⟨declared, stop, span, hrest₄, hdeclared, -, hspan, htext, h⟩ :=
    match?_group_sound hhere₄ h
  obtain ⟨keyword, hmem, rfl⟩ := spells_oneOf.mp hkeyword
  split at h
  · cases h
    have hgroup : Found.group ⟨here, stop⟩ 1 = declared := by
      rw [Found.group, Found.group?, hspan, ← htext]
      rfl
    refine ⟨keyword, hmem, gap, gap', stop.rest, gap_of_blanks hgap, gap_of_blanks hgap',
      word_of_keyword (List.mem_cons_of_mem _ hmem), ?_, hend, ?_⟩
    · rw [hgroup]
      exact word_of_name hdeclared
    · rw [hrest, hrest₁, hrest₂, hrest₃, hrest₄, hgroup]
  · cases h

/-- Where a declaration with one of the keywords is announced, it is found. -/
theorem foundAt_of_announces {here : Place} (keyword : String) {declared : List Char}
    (hhere : here.Counted) (hkeyword : keyword ∈ exportKeywords)
    (h : Announces here.rest keyword.toList declared) :
    ∃ m, exportedDeclaration.foundAt here = some m ∧ m.group 1 = declared := by
  obtain ⟨gap, gap', rest, hgap, hgap', -, hdeclared, -, hrest⟩ := id h
  have hsome : (exportedDeclaration.foundAt here).isSome := by
    refine (foundAt_isSome_iff hhere).mpr
      ⟨"export".toList ++ (gap ++ (keyword.toList ++ (gap' ++ declared))), rest, ?_,
        by simp, "export".toList, _, rfl, rfl, gap, _, rfl, ?_, keyword.toList, _, rfl,
        spells_oneOf.mpr ⟨keyword, hkeyword, rfl⟩, gap', declared, rfl, ?_, ?_⟩
    · simp only [hrest, List.append_assoc]
    · exact ⟨List.length_pos_iff.mpr hgap.1, hgap.2⟩
    · exact ⟨List.length_pos_iff.mpr hgap'.1, hgap'.2⟩
    · exact ⟨List.length_pos_iff.mpr hdeclared.1, hdeclared.2⟩
  obtain ⟨m, hm⟩ := Option.isSome_iff_exists.mp hsome
  obtain ⟨keyword', -, hannounced⟩ := exported_foundAt hhere hm
  exact ⟨m, hm, (announces_inj hannounced h).2⟩

/-! ## Declarations of functions -/

/-- A modifier with the white space behind it, or nothing. -/
def Modifier (word : String) (text : List Char) : Prop :=
  text = [] ∨ ∃ gap, Gap gap ∧ text = word.toList ++ gap

theorem modifier_of_spells {word : String} {before piece after : List Char}
    (h : (modifier word).Spells before piece after) : Modifier word piece := by
  rcases h with ⟨_, gap, rfl, rfl, hgap⟩ | rfl
  · exact .inr ⟨gap, gap_of_blanks hgap, rfl⟩
  · exact .inl rfl

theorem not_word_parenthesis : Text.isWord '(' = false := by decide +kernel

/-- A declaration of a function that is found begins with its modifiers, the word `function` and its
name. -/
theorem declaration_foundAt {here : Place} {m : Found} (hhere : here.Counted)
    (h : functionDeclaration.foundAt here = some m) :
    ∃ exported async gap rest, Modifier "export" exported ∧ Modifier "async" async ∧ Gap gap ∧
      Word (m.group 1) ∧ rest.head?.any Text.isWord = false ∧
      here.rest = exported ++ (async ++ ("function".toList ++ (gap ++ (m.group 1 ++ rest)))) := by
  obtain ⟨exported, here₁, hrest, hexported, hhere₁, h⟩ := match?_next_sound hhere h
  obtain ⟨async, here₂, hrest₁, hasync, hhere₂, h⟩ := match?_next_sound hhere₁ h
  obtain ⟨_, here₃, hrest₂, rfl, hhere₃, h⟩ := match?_next_sound hhere₂ h
  obtain ⟨gap, here₄, hrest₃, hgap, hhere₄, h⟩ := match?_next_sound hhere₃ h
  obtain ⟨declared, here₅, span, hrest₄, hdeclared, hhere₅, hspan, htext, h⟩ :=
    match?_group_sound (n := 1) (p := name) hhere₄ h
  obtain ⟨tail, stop, hrest₅, htail, -, hgroup, h⟩ :=
    match?_sound_of_no_group (n := 1) rfl hhere₅ h
  split at h
  · cases h
    have hgroup : Found.group ⟨here, stop⟩ 1 = declared := by
      rw [Found.group, Found.group?, hgroup.trans hspan, ← htext]
      rfl
    refine ⟨exported, async, gap, here₅.rest, modifier_of_spells hexported,
      modifier_of_spells hasync, gap_of_blanks hgap, ?_, ?_, ?_⟩
    · rw [hgroup]
      exact word_of_name hdeclared
    · obtain ⟨gap', _, rfl, ⟨-, hgap'⟩, _, more, rfl, rfl, -⟩ := htail
      rw [hrest₅]
      cases gap' with
      | nil => exact not_word_parenthesis
      | cons c gap' => exact Text.isWord_of_isBlank (hgap' c List.mem_cons_self)
    · rw [hrest, hrest₁, hrest₂, hrest₃, hrest₄, hgroup]
  · cases h

/-- Where a declaration of a function is found, nothing but the function itself is exported. -/
theorem announces_function {here : Place} {m : Found} {keyword : String} {name : List Char}
    (hhere : here.Counted) (hfound : functionDeclaration.foundAt here = some m)
    (hkeyword : keyword ∈ exportKeywords) (h : Announces here.rest keyword.toList name) :
    Announces here.rest "function".toList (m.group 1) := by
  obtain ⟨exported, async, gap, rest, hexported, hasync, hgap, hword, hrest, htext⟩ :=
    declaration_foundAt hhere hfound
  have hfunction : Word "function".toList := word_of_keyword (by decide)
  rcases hexported with rfl | ⟨gap₁, hgap₁, rfl⟩
  · -- the text would begin with another letter than `export`
    obtain ⟨_, _, _, -, -, -, -, -, hannounced⟩ := h
    rcases hasync with rfl | ⟨gap₂, -, rfl⟩
    · have := List.head_eq_of_cons_eq (htext.symm.trans hannounced)
      exact absurd this (by decide)
    · have := List.head_eq_of_cons_eq (htext.symm.trans hannounced)
      exact absurd this (by decide)
  · rw [List.append_assoc] at htext
    rcases hasync with rfl | ⟨gap₂, hgap₂, rfl⟩
    · exact ⟨gap₁, gap, rest, hgap₁, hgap, hfunction, hword, hrest, htext⟩
    · have hasync : Announces here.rest "async".toList "function".toList :=
        ⟨gap₁, gap₂, _, hgap₁, hgap₂, word_of_keyword (by decide), hfunction, hgap.head _, by
          rw [htext, List.append_assoc]⟩
      rw [String.toList_inj.mp (announces_inj h hasync).1] at hkeyword
      exact absurd hkeyword (by decide)

/-! ## Functions that are recorded as exported -/

/-- The last declaration of a function with a name. -/
def lastDeclaration? (content name : String) : Option Found :=
  (functionDeclaration.findAll content.toList).reverse.find? (·.groupString 1 = name)

/-- Whether the word `export` stands anywhere in a declaration. -/
def mentionsExport (m : Found) : Bool := Text.occursIn "export".toList m.text

/-- What reads like a method adds functions that are not known already, and none of them as
exported. -/
theorem get?_methods (path name : String) (methods : List Found) (known : Entries Signature) :
    let all := methods.foldl (fun (all : Entries Signature) found =>
      let name := found.groupString 1
      if notMethods.contains name || all.has name then all
      else all.put name (signatureOf path false found)) known
    (∀ s, known.get? name = some s → all.get? name = some s) ∧
      ∀ s, all.get? name = some s → known.get? name = some s ∨ s.exported = false := by
  have hstart : (∀ s, known.get? name = some s → known.get? name = some s) ∧
      ∀ s, known.get? name = some s → known.get? name = some s ∨ s.exported = false :=
    ⟨fun _ h => h, fun _ h => .inl h⟩
  refine List.foldlRecOn (motive := fun all : Entries Signature =>
    (∀ s, known.get? name = some s → all.get? name = some s) ∧
      ∀ s, all.get? name = some s → known.get? name = some s ∨ s.exported = false)
    methods _ hstart fun all hall found _ => ?_
  dsimp only
  split
  · exact hall
  · rename_i hnew
    rw [Bool.or_eq_true, not_or] at hnew
    by_cases hname : name = found.groupString 1
    · subst hname
      have hnone : all.get? (found.groupString 1) = none := by simpa [Entries.has] using hnew.2
      rw [Entries.get?_put_self]
      refine ⟨fun s hs => ?_, fun s hs => ?_⟩
      · have hthere := hall.1 s hs
        rw [hnone] at hthere
        cases hthere
      · cases hs
        exact .inr rfl
    · rw [Entries.get?_put_of_ne _ _ hname]
      exact hall

theorem get?_declared (path content name : String) :
    let declared : Entries Signature :=
      (functionDeclaration.findAll content.toList).foldl (fun all found =>
        let exported := Text.occursIn "export".toList found.text
        all.put (found.groupString 1) (signatureOf path exported found)) []
    declared.get? name = (lastDeclaration? content name).map fun found =>
      signatureOf path (mentionsExport found) found := by
  refine (Entries.get?_foldl_put (·.groupString 1)
    (fun found => signatureOf path (mentionsExport found) found) _ [] name).trans ?_
  exact Option.or_none

/-- The declaration of a function that comes last decides on what is recorded of it. -/
theorem get?_functions {f : SourceFile} {name : String} {found : Found}
    (h : lastDeclaration? f.content name = some found) :
    (declarations f).functions.get? name =
      some (signatureOf f.path (mentionsExport found) found) := by
  refine (get?_methods f.path name _ _).1 _ ?_
  rw [get?_declared, h]
  rfl

/-- A function is recorded as exported if and only if the word `export` stands in its last
declaration. -/
theorem recorded_iff {f : SourceFile} {name : String} :
    (∃ s, (declarations f).functions.get? name = some s ∧ s.exported = true) ↔
      ∃ found, lastDeclaration? f.content name = some found ∧ mentionsExport found = true := by
  constructor
  · rintro ⟨s, hs, hexported⟩
    cases hlast : lastDeclaration? f.content name with
    | some found =>
      rw [get?_functions hlast] at hs
      cases hs
      exact ⟨found, rfl, hexported⟩
    | none =>
      rcases (get?_methods f.path name _ _).2 s hs with hknown | hmethod
      · rw [get?_declared, hlast] at hknown
        cases hknown
      · rw [hmethod] at hexported
        cases hexported
  · rintro ⟨found, hlast, hmentions⟩
    exact ⟨_, get?_functions hlast, hmentions⟩

/-! ## Functions that are listed -/

theorem mem_exports {content name : String} : name ∈ exports content ↔
    (∃ m ∈ exportedDeclaration.findAll content.toList, m.groupString 1 = name) ∨
      name ∈ listedExports content := by
  rw [exports, List.mem_append, List.mem_map]
  rfl

theorem toList_groupString (m : Found) (n : Nat) : (m.groupString n).toList = m.group n :=
  String.toList_ofList

/-- The declaration of a function is itself an exported declaration of the file if and only if it is
announced by `export function` at a place that no other one reaches over. -/
theorem exported_at_declaration {cs : List Char} {found : Found}
    (hfound : found ∈ functionDeclaration.findAll cs) :
    (∃ m ∈ exportedDeclaration.findAll cs, m.start.index = found.start.index ∧
        m.group 1 = found.group 1) ↔
      Announces found.start.rest "function".toList (found.group 1) ∧
        ∀ m ∈ exportedDeclaration.findAll cs, ¬ m.Covers found.start.index := by
  obtain ⟨⟨before, rest, htext, hfound⟩, -⟩ := mem_findAll_iff.mp hfound
  have hhere : (placeAt before rest).Counted := rfl
  have hstart := (start_of_foundAt hfound hhere).1
  rw [hstart]
  constructor
  · rintro ⟨m, hm, hindex, -⟩
    obtain ⟨⟨before', rest', htext', hm⟩, hcovers⟩ := mem_findAll_iff.mp hm
    have hhere' : (placeAt before' rest').Counted := rfl
    rw [(start_of_foundAt hm hhere').1] at hindex hcovers
    obtain ⟨rfl, rfl⟩ := placeAt_inj (htext'.trans htext.symm) hindex
    obtain ⟨keyword, hkeyword, hannounced⟩ := exported_foundAt hhere hm
    exact ⟨announces_function hhere hfound hkeyword hannounced, hcovers⟩
  · rintro ⟨hannounced, hcovers⟩
    obtain ⟨m, hm, hname⟩ :=
      foundAt_of_announces "function" hhere (by decide) hannounced
    have hmstart := (start_of_foundAt hm hhere).1
    refine ⟨m, mem_findAll_iff.mpr ⟨⟨before, rest, htext, hm⟩, ?_⟩, ?_, hname⟩
    · rw [hmstart]
      exact hcovers
    · rw [hmstart]

/-- A function is recorded as exported if and only if the word `export` stands anywhere in its last
declaration. It is listed among the exports of its file if and only if that declaration is announced
by `export function` at a place that no other exported declaration reaches over, or the name is
exported elsewhere in the file. -/
theorem exported_mem_exports_iff (f : SourceFile) (name : String) :
    ((∃ s, (declarations f).functions.get? name = some s ∧ s.exported = true) ↔
        ∃ found, lastDeclaration? f.content name = some found ∧ mentionsExport found = true) ∧
      ∀ found, lastDeclaration? f.content name = some found →
        (name ∈ exports f.content ↔
          Announces found.start.rest "function".toList name.toList ∧
              (∀ m ∈ exportedDeclaration.findAll f.content.toList,
                ¬ m.Covers found.start.index) ∨
            (∃ m ∈ exportedDeclaration.findAll f.content.toList,
              m.start.index ≠ found.start.index ∧ m.groupString 1 = name) ∨
            name ∈ listedExports f.content) := by
  refine ⟨recorded_iff, fun found hlast => ?_⟩
  obtain ⟨hmem, hname⟩ : found ∈ functionDeclaration.findAll f.content.toList ∧
      found.groupString 1 = name :=
    ⟨List.mem_reverse.mp (List.mem_of_find?_eq_some hlast), by simpa using List.find?_some hlast⟩
  subst hname
  rw [mem_exports, toList_groupString, ← exported_at_declaration hmem, ← or_assoc]
  refine or_congr_left ⟨?_, ?_⟩
  · rintro ⟨m, hm, hname⟩
    by_cases hindex : m.start.index = found.start.index
    · exact .inl ⟨m, hm, hindex, by rw [← toList_groupString, hname, toList_groupString]⟩
    · exact .inr ⟨m, hm, hindex, hname⟩
  · rintro (⟨m, hm, -, hname⟩ | ⟨m, hm, -, hname⟩)
    · exact ⟨m, hm, congrArg String.ofList hname⟩
    · exact ⟨m, hm, hname⟩

/-- `async` comes between the words of the first declaration, and the name of the second one stands
behind them: both functions are recorded as exported, and only the second one is listed. -/
theorem exported_mem_exports_iff_of_async :
    let f : SourceFile :=
      { location := "/game/a.ts", path := "a.ts",
        content := "export async function load() {}\nexport function save() {}" }
    (∀ name ∈ ["load", "save"],
        ∃ s, (declarations f).functions.get? name = some s ∧ s.exported = true) ∧
      "load" ∉ exports f.content ∧ "save" ∈ exports f.content ∧
      ∃ found, lastDeclaration? f.content "load" = some found ∧ mentionsExport found = true ∧
        ¬ (Announces found.start.rest "function".toList "load".toList ∧
          ∀ m ∈ exportedDeclaration.findAll f.content.toList, ¬ m.Covers found.start.index) := by
  intro f
  have hmentions : ∀ name ∈ ["load", "save"],
      (lastDeclaration? f.content name).any mentionsExport = true := by
    decide +kernel
  have hload : "load" ∉ exports f.content := by decide +kernel
  have hsave : "save" ∈ exports f.content := by decide +kernel
  refine ⟨fun name hname => (exported_mem_exports_iff f name).1.mpr ?_, hload, hsave, ?_⟩
  · obtain ⟨found, hlast, hfound⟩ := (Option.any_eq_true _ _).mp (hmentions name hname)
    exact ⟨found, hlast, hfound⟩
  · obtain ⟨found, hlast, hfound⟩ := (Option.any_eq_true _ _).mp (hmentions "load" (by decide))
    refine ⟨found, hlast, hfound, fun hannounced => hload ?_⟩
    exact ((exported_mem_exports_iff f "load").2 found hlast).mpr (.inl hannounced)

end Source

end Cartridge
