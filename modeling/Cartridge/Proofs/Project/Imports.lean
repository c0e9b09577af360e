import Cartridge.Proofs.Pattern.Forced
import Cartridge.Proofs.Project.Exports
import Cartridge.Proofs.Text.Lines

/-!
# Import statements

Import statements that are written one on a line are read back, in their order, whatever the names
and the modules look like: a name has no character that could end it, and a module none that could
end the quotation.

* `Statement`: what may be written; `Statement.written`, `Statement.imported`: how, and what it is
  read as.
* `origin_match`, `clause_match`, `statement_match`: the one way in which a statement is matched.
* `listItems_joined`: the names in braces.
* `scans_page`: the search goes from one statement to the next.
* `imports_written`: what is read.
-/

namespace Cartridge.Source

open Pattern

/-! ## Statements -/

/-- A name that can be imported. -/
structure ImportName where
  text : String
  word : Word text.toList

/-- What a statement imports from a module: names in braces, at least one of them, the whole module
under a name, or the default under a name. -/
inductive Clause where
  | named (first : ImportName) (others : List ImportName)
  | whole (name : ImportName)
  | single (name : ImportName)

/-- An import statement as it may be written: its module is not empty and has no quotation mark. -/
structure Statement where
  clause : Clause
  module : String
  module_ne : module.toList ≠ []
  unquoted : ∀ c ∈ module.toList, isQuote c = false

namespace Clause

/-- The names of a clause. -/
def names : Clause → List String
  | named first others => (first :: others).map (·.text)
  | whole name => [name.text]
  | single name => [name.text]

def written : Clause → String
  | named first others =>
    "\x7b " ++ Text.joined ", " ((first :: others).map (·.text)) ++ " \x7d"
  | whole name => "* as " ++ name.text
  | single name => name.text

end Clause

namespace Statement

/-- The statement without the semicolon. -/
def text (s : Statement) : String := "import " ++ s.clause.written ++ " from '" ++ s.module ++ "'"

def written (s : Statement) : String := s.text ++ ";"

/-- What the statement is read as. -/
def imported (s : Statement) : Import := { module := s.module, names := s.clause.names }

end Statement

/-! ## Parts of the pattern -/

section Parts

variable {α : Type} {k : Place → Option α} {here : Place} {rest : List Char} {c : Char}

theorem blank_of_space : ∀ c ∈ [' '], Text.isBlank c = true :=
  List.forall_mem_singleton.mpr (by decide +kernel)

theorem blank_match (h : here.rest = ' ' :: rest) (hrest : rest.head? = some c)
    (hc : Text.isBlank c = false) :
    blanks.match? k here = k (here.past [' '] rest here.groups) := by
  have hend : rest.head?.any Text.isBlank = false := by
    rw [hrest]
    exact hc
  exact match?_many_run h (by decide) blank_of_space hend fun _ _ _ _ _ hlong =>
    absurd hlong (by decide)

/-- The pattern of what a statement imports. -/
def clausePattern : Pattern :=
  oneOf [braced 1, inOrder [exactly "*", blanks, exactly "as", blanks, .group 2 name],
    .group 3 name]

/-- The pattern of what stands behind it. -/
def originPattern : Pattern :=
  inOrder [blanks, exactly "from", blanks, .one isQuote,
    .group 4 (.many (fun c => !isQuote c) 1), .one isQuote]

theorem importStatement_eq :
    importStatement = inOrder [exactly "import", blanks, clausePattern, originPattern] := rfl

/-- What a statement remembers of the module. -/
def Statement.moduleGroup (s : Statement) (rest : List Char) : Nat × Span :=
  (4, Span.run s.module.toList ('\'' :: rest))

theorem not_blank {c : Char} (h : c ∈ ['f', '\'', '\x7b', '*', 'a']) :
    Text.isBlank c = false := by
  have hall : ['f', '\'', '\x7b', '*', 'a'].all (!Text.isBlank ·) = true := by decide +kernel
  simpa using List.all_eq_true.mp hall c h

theorem origin_match (s : Statement)
    (h : here.rest = (" from '" ++ s.module ++ "'").toList ++ rest) :
    originPattern.match? k here = k (here.past (" from '" ++ s.module ++ "'").toList rest
      (s.moduleGroup rest :: here.groups)) := by
  have hquote : isQuote '\'' = true := by decide
  have hunquoted : ∀ c ∈ s.module.toList, (!isQuote c) = true := fun c hc => by
    rw [s.unquoted c hc]
    rfl
  have hstart : here.rest = ' ' :: ("from".toList ++ ' ' :: '\'' ::
      (s.module.toList ++ '\'' :: rest)) := by
    rw [h]
    simp
  refine (blank_match (c := 'f') hstart (by rfl) (not_blank (by decide))).trans ?_
  refine (match?_text_append (by rfl)).trans ?_
  refine (blank_match (c := '\'') (by rfl) (by rfl) (not_blank (by decide))).trans ?_
  refine (match?_next ..).trans ((match?_one_cons (by rfl) hquote).trans ?_)
  refine (match?_group_many_run (by rfl) s.module_ne hunquoted (by rfl) ?_).trans ?_
  · intro there c ahead hthere hc _
    refine match?_one_of_not ?_
    rw [hthere]
    simpa using hc
  · refine (match?_one_cons (by rfl) hquote).trans ?_
    simp [Place.past_past, Statement.moduleGroup]

/-- Where a word goes on, no module is named. -/
theorem origin_match_of_word {there : Place} {ahead : List Char} (h : there.rest = c :: ahead)
    (hc : Text.isWord c = true) : originPattern.match? k there = none := by
  refine match?_many_of_not ?_
  rw [h]
  refine Bool.eq_false_iff.mpr fun hblank => ?_
  rw [Text.isWord_of_isBlank hblank] at hc
  cases hc

/-- What a clause remembers, with what stands behind it. -/
def Clause.groups (rest : List Char) : Clause → List (Nat × Span)
  | .named first others =>
    [(1, Span.run (" " ++ Text.joined ", " ((first :: others).map (·.text)) ++ " ").toList
      ('\x7d' :: rest))]
  | .whole name => [(2, Span.run name.text.toList rest)]
  | .single name => [(3, Span.run name.text.toList rest)]

theorem not_blank_of_word {c : Char} (h : Text.isWord c = true) : Text.isBlank c = false := by
  refine Bool.eq_false_iff.mpr fun hblank => ?_
  rw [Text.isWord_of_isBlank hblank] at h
  cases h

theorem not_word_sign {c : Char} (h : c ∈ ['\x7b', '\x7d', '*', ',']) : Text.isWord c = false := by
  have hall : ['\x7b', '\x7d', '*', ','].all (!Text.isWord ·) = true := by decide +kernel
  simpa using List.all_eq_true.mp hall c h

theorem ImportName.head? (name : ImportName) (rest : List Char) :
    ∃ c, (name.text.toList ++ rest).head? = some c ∧ Text.isWord c = true := by
  obtain ⟨c, word, hname⟩ := List.exists_cons_of_ne_nil name.word.1
  exact ⟨c, by rw [hname]; rfl, name.word.2 c (by rw [hname]; exact List.mem_cons_self)⟩

/-- The characters between braces. -/
theorem mem_listed {names : List ImportName} {c : Char}
    (h : c ∈ (" " ++ Text.joined ", " (names.map (·.text)) ++ " ").toList) :
    c = ' ' ∨ c = ',' ∨ Text.isWord c = true := by
  simp only [String.toList_append, List.mem_append] at h
  rcases h with (h | h) | h
  · exact .inl (by simpa using h)
  · rcases Text.mem_joined h with hseparator | ⟨part, hpart, hc⟩
    · rcases (by simpa using hseparator : c = ',' ∨ c = ' ') with hc | hc
      · exact .inr (.inl hc)
      · exact .inl hc
    · obtain ⟨name, -, rfl⟩ := List.mem_map.mp hpart
      exact .inr (.inr (name.word.2 c hc))
  · exact .inl (by simpa using h)

theorem not_brace_of_listed {names : List ImportName} {c : Char}
    (h : c ∈ (" " ++ Text.joined ", " (names.map (·.text)) ++ " ").toList) : c ≠ '\x7d' := by
  rintro rfl
  rcases mem_listed h with h | h | h
  · exact absurd h (by decide)
  · exact absurd h (by decide)
  · rw [not_word_sign (by decide)] at h
    cases h

theorem name_match {n : Nat} (name : ImportName) (h : here.rest = name.text.toList ++ rest)
    (hrest : rest.head? = some ' ')
    (hk : ∀ (there : Place) (c : Char) (ahead : List Char), there.rest = c :: ahead →
      Text.isWord c = true → k there = none) :
    (group n Source.name).match? k here = k (here.past name.text.toList rest
      ((n, Span.run name.text.toList rest) :: here.groups)) := by
  have hend : rest.head?.any Text.isWord = false := by
    rw [hrest]
    exact Text.not_word (by decide)
  exact match?_group_many_run h name.word.1 name.word.2 hend
    fun there c ahead hthere hc _ => hk there c ahead hthere hc

theorem braced_match {names : List ImportName} (h : here.rest =
      ("\x7b " ++ Text.joined ", " (names.map (·.text)) ++ " \x7d").toList ++ rest) :
    (braced 1).match? k here =
      k (here.past ("\x7b " ++ Text.joined ", " (names.map (·.text)) ++ " \x7d").toList rest
        ((1, Span.run (" " ++ Text.joined ", " (names.map (·.text)) ++ " ").toList
          ('\x7d' :: rest)) :: here.groups)) := by
  have hstart : here.rest = "\x7b".toList ++
      ((" " ++ Text.joined ", " (names.map (·.text)) ++ " ").toList ++ '\x7d' :: rest) := by
    rw [h]
    simp [-String.reduceAppend]
  refine (match?_text_append hstart).trans ?_
  refine (match?_group_many_run (by rfl) (by simp) (fun c hc => ?_) (by rfl) ?_).trans ?_
  · exact decide_eq_true (not_brace_of_listed hc)
  · intro there c ahead hthere hc _
    refine match?_text_of_ne (d := '\x7d') ?_
    rw [hthere]
    simpa using hc
  · refine (match?_text_append (by rfl)).trans ?_
    simp [Place.past_past, -String.reduceAppend]

theorem clause_match (clause : Clause)
    (h : here.rest = clause.written.toList ++ rest) (hrest : rest.head? = some ' ')
    (hk : ∀ (there : Place) (c : Char) (ahead : List Char), there.rest = c :: ahead →
      Text.isWord c = true → k there = none) :
    clausePattern.match? k here =
      k (here.past clause.written.toList rest (clause.groups rest ++ here.groups)) := by
  cases clause with
  | named first others =>
    have hhead : here.rest.head? = some '\x7b' := by
      rw [h, Clause.written]
      simp
    refine (match?_either_left ?_).trans (braced_match h)
    refine (match?_either_right ?_).trans (match?_many_of_not ?_)
    · exact match?_text_of_ne (d := '*') (by rw [hhead]; decide)
    · rw [hhead]
      exact not_word_sign (by decide)
  | whole name =>
    have hhead : here.rest.head? = some '*' := by
      rw [h, Clause.written]
      simp
    have hstart : here.rest = "*".toList ++ (' ' :: ("as".toList ++ ' ' ::
        (name.text.toList ++ rest))) := by
      rw [h, Clause.written]
      simp
    obtain ⟨c, hc, hword⟩ := name.head? rest
    refine (match?_either_right ?_).trans ((match?_either_left ?_).trans ?_)
    · exact match?_text_of_ne (d := '\x7b') (by rw [hhead]; decide)
    · refine match?_many_of_not ?_
      rw [hhead]
      exact not_word_sign (by decide)
    · refine (match?_text_append hstart).trans ?_
      refine (blank_match (c := 'a') (by rfl) (by rfl) (not_blank (by decide))).trans ?_
      refine (match?_text_append (by rfl)).trans ?_
      refine (blank_match (by rfl) hc (not_blank_of_word hword)).trans ?_
      refine (name_match name (by rfl) hrest hk).trans ?_
      simp [Place.past_past, Clause.written, Clause.groups]
  | single name =>
    obtain ⟨c, hc, hword⟩ := name.head? rest
    rw [← show here.rest = name.text.toList ++ rest from h] at hc
    have hsign {d : Char} (hd : d ∈ ['\x7b', '\x7d', '*', ',']) : here.rest.head? ≠ some d := by
      rw [hc]
      rintro hsame
      cases hsame
      rw [not_word_sign hd] at hword
      cases hword
    refine (match?_either_right ?_).trans ((match?_either_right ?_).trans
      (name_match name h hrest hk))
    · exact match?_text_of_ne (d := '\x7b') (hsign (by decide))
    · exact match?_text_of_ne (d := '*') (hsign (by decide))

/-- What a statement remembers, with what stands behind it. -/
def Statement.groups (s : Statement) (rest : List Char) : List (Nat × Span) :=
  s.moduleGroup rest :: s.clause.groups ((" from '" ++ s.module ++ "'").toList ++ rest)

theorem statement_match (s : Statement) (h : here.rest = s.text.toList ++ rest) :
    importStatement.match? k here =
      k (here.past s.text.toList rest (s.groups rest ++ here.groups)) := by
  have hstart : here.rest = "import".toList ++ ' ' ::
      (s.clause.written.toList ++ ((" from '" ++ s.module ++ "'").toList ++ rest)) := by
    rw [h, Statement.text]
    simp [-String.reduceAppend]
  have hclause : ∃ c, (s.clause.written.toList ++
      ((" from '" ++ s.module ++ "'").toList ++ rest)).head? = some c ∧
      Text.isBlank c = false := by
    cases s.clause with
    | named first others => exact ⟨'\x7b', by simp [Clause.written], not_blank (by decide)⟩
    | whole name => exact ⟨'*', by simp [Clause.written], not_blank (by decide)⟩
    | single name =>
      obtain ⟨c, hc, hword⟩ := name.head? ((" from '" ++ s.module ++ "'").toList ++ rest)
      exact ⟨c, hc, not_blank_of_word hword⟩
  obtain ⟨c, hc, hblank⟩ := hclause
  rw [importStatement_eq]
  refine (match?_text_append hstart).trans ?_
  refine (blank_match (by rfl) hc hblank).trans ?_
  refine (clause_match s.clause (by rfl) (by simp) fun _ _ _ => origin_match_of_word).trans ?_
  refine (origin_match s (by rfl)).trans ?_
  simp [Place.past_past, Statement.groups, Statement.text, -String.reduceAppend]

end Parts

/-! ## Reading -/

/-- What a match of the pattern is read as. -/
def importOf (found : Found) : Import where
  module := found.groupString 4
  names :=
    match found.group? 1, found.group? 2 with
    | some inBraces, _ => listItems inBraces
    | none, some whole => [.ofList whole]
    | none, none => [found.groupString 3]

theorem imports_eq (content : String) :
    imports content = (importStatement.findAll content.toList).map importOf := rfl

/-- White space around a word is taken off. -/
theorem ImportName.stripped (name : ImportName) (tail : List Char)
    (htail : ∀ c ∈ tail, Text.isBlank c = true) :
    Text.strip (' ' :: (name.text.toList ++ tail)) = name.text.toList := by
  have hleft {word : List Char} (hword : Word word) (rest : List Char) :
      Text.stripLeft (word ++ rest) = word ++ rest := by
    obtain ⟨c, word, rfl⟩ := List.exists_cons_of_ne_nil hword.1
    exact Text.stripLeft_of_head (not_blank_of_word (hword.2 c List.mem_cons_self)) _
  have hreverse : Word name.text.toList.reverse :=
    ⟨by simpa using name.word.1, fun c hc => name.word.2 c (List.mem_reverse.mp hc)⟩
  have hright : Text.stripRight name.text.toList = name.text.toList := by
    have h := hleft hreverse []
    rw [List.append_nil, Text.stripLeft] at h
    rw [Text.stripRight, h, List.reverse_reverse]
  calc Text.strip (' ' :: (name.text.toList ++ tail))
      = Text.stripRight (Text.stripLeft (name.text.toList ++ tail)) :=
        congrArg Text.stripRight (Text.stripLeft_blank_append blank_of_space _)
    _ = Text.stripRight name.text.toList := by
        rw [hleft name.word, Text.stripRight_append_blank htail]
    _ = name.text.toList := hright

/-- The items of a list in braces, with the white space around them. -/
def padded (first : ImportName) : List ImportName → List String
  | [] => [" " ++ first.text ++ " "]
  | second :: others => (" " ++ first.text) :: padded second others

theorem joined_padded (first : ImportName) (others : List ImportName) :
    Text.joined "," (padded first others) =
      " " ++ Text.joined ", " ((first :: others).map (·.text)) ++ " " := by
  induction others generalizing first with
  | nil => simp [padded, Text.joined]
  | cons second others ih =>
    obtain ⟨part, parts, hparts⟩ : ∃ part parts, padded second others = part :: parts := by
      cases others <;> exact ⟨_, _, rfl⟩
    have h := ih second
    rw [hparts] at h
    rw [padded, hparts, Text.joined_cons, h]
    simp only [List.map_cons, Text.joined_cons]
    apply String.toList_inj.mp
    simp

theorem comma_not_mem_padded {first : ImportName} {others : List ImportName} :
    ∀ part ∈ padded first others, ',' ∉ part.toList := by
  have hname (name : ImportName) : ',' ∉ name.text.toList := fun hmem => by
    have hword := name.word.2 ',' hmem
    rw [not_word_sign (by decide)] at hword
    cases hword
  induction others generalizing first with
  | nil => simpa [padded] using hname first
  | cons second others ih =>
    rw [padded, List.forall_mem_cons]
    exact ⟨by simpa using hname first, ih⟩

theorem map_stripped_padded (first : ImportName) (others : List ImportName) :
    (padded first others).map Text.stripped = (first :: others).map (·.text) := by
  induction others generalizing first with
  | nil =>
    have h := first.stripped [' '] blank_of_space
    simp [padded, Text.stripped, h]
  | cons second others ih =>
    have h := first.stripped [] (by simp)
    rw [List.append_nil] at h
    rw [padded, List.map_cons, ih]
    simp [Text.stripped, h]

/-- The names in braces are read back. -/
theorem listItems_joined (first : ImportName) (others : List ImportName) :
    listItems (" " ++ Text.joined ", " ((first :: others).map (·.text)) ++ " ").toList =
      (first :: others).map (·.text) := by
  have hne : padded first others ≠ [] := by cases others <;> exact List.cons_ne_nil _ _
  have hsplit : Text.splitOn (Text.joined "," (padded first others)) ',' = padded first others :=
    Text.splitOn_joined hne comma_not_mem_padded
  rw [listItems, String.ofList_toList, ← joined_padded, hsplit, map_stripped_padded]
  refine List.filter_eq_self.mpr fun text htext => ?_
  obtain ⟨name, -, rfl⟩ := List.mem_map.mp htext
  refine decide_eq_true fun hempty => name.word.1 ?_
  rw [hempty]
  rfl

/-- The match of a statement between what stands before it and what stands behind it. -/
def Statement.found (s : Statement) (before rest : List Char) : Found where
  start := placeAt before (s.text.toList ++ rest)
  stop := (placeAt before (s.text.toList ++ rest)).past s.text.toList rest (s.groups rest)

theorem Statement.foundAt (s : Statement) (before rest : List Char) :
    importStatement.foundAt (placeAt before (s.text.toList ++ rest)) =
      some (s.found before rest) := by
  have hlonger : before.length < before.length + s.text.toList.length := by
    simp [Statement.text]
  refine (statement_match s rfl).trans (if_pos ?_ |>.trans ?_)
  · exact hlonger
  · simp [Statement.found, placeAt]

theorem Statement.importOf_found (s : Statement) (before rest : List Char) :
    importOf (s.found before rest) = s.imported := by
  have hgroup (n : Nat) : (s.found before rest).group? n =
      ((s.groups rest).lookup n).map Span.text := rfl
  have hmodule : (s.found before rest).groupString 4 = s.module := by
    simp [Found.groupString, Found.group, hgroup, Statement.groups, Statement.moduleGroup]
  rw [importOf, hmodule, Statement.imported]
  refine congrArg (Import.mk s.module) ?_
  cases hclause : s.clause with
  | named first others =>
    have hbraces : (s.found before rest).group? 1 =
        some (" " ++ Text.joined ", " ((first :: others).map (·.text)) ++ " ").toList := by
      simp [hgroup, Statement.groups, Statement.moduleGroup, hclause, Clause.groups,
        List.lookup_cons, -String.reduceAppend]
    rw [hbraces]
    exact listItems_joined first others
  | whole name =>
    simp [hgroup, Statement.groups, Statement.moduleGroup, hclause, Clause.groups,
      List.lookup_cons, Clause.names]
  | single name =>
    simp [Found.groupString, Found.group, hgroup, Statement.groups, Statement.moduleGroup, hclause,
      Clause.groups, List.lookup_cons, Clause.names]

/-! ## Lines of statements -/

/-- The statements with what stands between them and behind the last of them. -/
def page (tail : List Char) : List Statement → List Char
  | [] => tail
  | [s] => s.written.toList ++ tail
  | s :: second :: others => s.written.toList ++ '\n' :: page tail (second :: others)

theorem toList_joined_written (statements : List Statement) (tail : List Char) :
    (Text.joined "\n" (statements.map Statement.written)).toList ++ tail =
      page tail statements := by
  induction statements with
  | nil => rfl
  | cons s statements ih =>
    cases statements with
    | nil => simp [page, Text.joined]
    | cons second others =>
      rw [page, ← ih, List.map_cons, List.map_cons, Text.joined_cons]
      simp

/-- No statement begins at a character that is not its first. -/
theorem foundAt_of_other {before rest : List Char} {c : Char} (hc : c ≠ 'i') :
    importStatement.foundAt (placeAt before (c :: rest)) = none := by
  refine foundAt_of_not_begins (Bool.eq_false_iff.mpr fun hprefix => hc ?_)
  obtain ⟨after, hafter⟩ := List.isPrefixOf_iff_prefix.mp hprefix
  exact (List.cons.inj hafter).1.symm

theorem scans_of_others {before tail : List Char} (h : ∀ c ∈ tail, c ≠ 'i') :
    Scans importStatement before tail [] := by
  induction tail generalizing before with
  | nil => exact .done before
  | cons c tail ih =>
    rw [List.forall_mem_cons] at h
    exact .pass (foundAt_of_other h.1) (ih h.2)

/-- The search finds the statements of the lines one after another. -/
theorem scans_page {tail : List Char} (htail : ∀ c ∈ tail, c ≠ 'i') (statements : List Statement)
    (before : List Char) : ∃ ms, Scans importStatement before (page tail statements) ms ∧
      ms.map importOf = statements.map Statement.imported := by
  -- behind the statement stands a semicolon, which begins no other one
  have hstatement (s : Statement) {rest before : List Char} {ms : List Found}
      (h : Scans importStatement (';' :: (s.text.toList.reverse ++ before)) rest ms) :
      Scans importStatement before (s.written.toList ++ rest)
        (s.found before (';' :: rest) :: ms) := by
    have hwritten : s.written.toList ++ rest = s.text.toList ++ ';' :: rest := by
      simp [Statement.written]
    rw [hwritten]
    exact .take (s.foundAt before _) (by simp [Statement.text]) rfl
      (.pass (foundAt_of_other (by decide)) h)
  induction statements generalizing before with
  | nil => exact ⟨[], scans_of_others htail, rfl⟩
  | cons s statements ih =>
    cases statements with
    | nil =>
      exact ⟨_, hstatement s (scans_of_others htail), by rw [List.map_cons, s.importOf_found]; rfl⟩
    | cons second others =>
      obtain ⟨ms, hscans, hms⟩ := ih ('\n' :: ';' :: (s.text.toList.reverse ++ before))
      refine ⟨_, hstatement s (.pass (foundAt_of_other (by decide)) hscans), ?_⟩
      rw [List.map_cons, s.importOf_found, hms]
      rfl

theorem imports_page {content : String} (tail : List Char) {statements : List Statement}
    (htail : ∀ c ∈ tail, c ≠ 'i') (h : content.toList = page tail statements) :
    imports content = statements.map Statement.imported := by
  obtain ⟨ms, hscans, hms⟩ := scans_page htail statements []
  rw [imports_eq, h, hscans.findAll_eq, hms]

theorem isRelative_iff (i : Import) : i.isRelative = true ↔
    ∃ tail, i.module = "./" ++ tail ∨ i.module = "../" ++ tail := by
  have hstart (text start : String) :
      Text.startsWith text start = true ↔ ∃ tail, text = start ++ tail := by
    rw [Text.startsWith, List.isPrefixOf_iff_prefix]
    constructor
    · rintro ⟨tail, htail⟩
      refine ⟨.ofList tail, String.toList_inj.mp ?_⟩
      rw [String.toList_append, String.toList_ofList, htail]
    · rintro ⟨tail, rfl⟩
      exact ⟨tail.toList, (String.toList_append ..).symm⟩
  rw [Import.isRelative, Bool.or_eq_true, hstart, hstart, exists_or]

/-- Import statements written one on a line, with or without a newline behind the last of them, are
read back in their order, and a module is relative if and only if it begins with `./` or `../`. -/
theorem imports_written (statements : List Statement) :
    imports (Text.joined "\n" (statements.map Statement.written)) =
        statements.map Statement.imported ∧
      imports (Text.joined "\n" (statements.map Statement.written) ++ "\n") =
        statements.map Statement.imported ∧
      ∀ s ∈ statements, s.imported.isRelative = true ↔
        ∃ tail, s.module = "./" ++ tail ∨ s.module = "../" ++ tail := by
  refine ⟨imports_page [] (by simp) ?_, imports_page ['\n'] (by simp) ?_,
    fun s _ => isRelative_iff s.imported⟩
  · rw [← toList_joined_written, List.append_nil]
  · rw [← toList_joined_written, String.toList_append]
    rfl

/-- Names and modules may look like statements themselves. -/
example :
    imports "import \x7b from, as \x7d from 'import x from y';\nimport from from '../from';" =
      [{ module := "import x from y", names := ["from", "as"] },
        { module := "../from", names := ["from"] }] := by
  decide +kernel

end Cartridge.Source
