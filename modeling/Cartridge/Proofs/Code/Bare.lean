import Cartridge.Code.Extraction
import Cartridge.Proofs.Pattern.Substitution

/-!
# C without fences

An answer that is C from end to end, without fences and without two asterisks in a row, keeps all
its characters but some of its asterisks: the first and second one of a line, the third and fourth
one, and so on, are taken for the signs of emphasis.

* `withoutPairs`: a text without the asterisks that have a partner on their line.
* `substitute_emphasis`: that is what is left when emphasis loses its signs.
* `withoutPairs_eq_self_iff`: no asterisk has a partner exactly when no line has two of them.
* `looksLikeC_withoutPairs`: what looks like C still does afterwards.
* `extract_bare_iff`: such an answer is given unchanged exactly when no line has two asterisks.
-/

namespace Cartridge.Code

open Pattern (exactly inOrder nearest foundAt cutting)

/-! ## Asterisks in pairs -/

/-- The text without the asterisks that have a partner on their line. While `isOpen`, the partner of
the last asterisk is still to come. -/
def withoutPairs : Bool → List Char → List Char
  | _, [] => []
  | true, c :: rest => if c = '*' then withoutPairs false rest else c :: withoutPairs true rest
  | false, c :: rest =>
    if c = '*' ∧ '*' ∈ rest.takeWhile (· ≠ '\n') then withoutPairs true rest
    else c :: withoutPairs false rest

theorem withoutPairs_of_ne {c : Char} (hc : c ≠ '*') (isOpen : Bool) (rest : List Char) :
    withoutPairs isOpen (c :: rest) = c :: withoutPairs isOpen rest := by
  cases isOpen with
  | true => rw [withoutPairs, if_neg hc]
  | false => rw [withoutPairs, if_neg fun h => hc h.1]

theorem withoutPairs_append {inner : List Char} (hinner : '*' ∉ inner) (isOpen : Bool)
    (tail : List Char) :
    withoutPairs isOpen (inner ++ tail) = inner ++ withoutPairs isOpen tail := by
  induction inner with
  | nil => rfl
  | cons c inner ih =>
    have hc : c ≠ '*' := fun h => hinner (h ▸ List.mem_cons_self)
    rw [List.cons_append, withoutPairs_of_ne hc, ih fun h => hinner (List.mem_cons_of_mem c h),
      List.cons_append]

theorem withoutPairs_sublist (isOpen : Bool) (cs : List Char) :
    (withoutPairs isOpen cs).Sublist cs := by
  induction cs generalizing isOpen with
  | nil => cases isOpen <;> exact List.Sublist.refl _
  | cons c rest ih =>
    cases isOpen with
    | true =>
      rw [withoutPairs]
      split
      · exact (ih false).cons c
      · exact (ih true).cons_cons c
    | false =>
      rw [withoutPairs]
      split
      · exact (ih true).cons c
      · exact (ih false).cons_cons c

theorem filter_withoutPairs (isOpen : Bool) (cs : List Char) :
    (withoutPairs isOpen cs).filter (· ≠ '*') = cs.filter (· ≠ '*') := by
  induction cs generalizing isOpen with
  | nil => cases isOpen <;> rfl
  | cons c rest ih =>
    by_cases hc : c = '*'
    · subst hc
      cases isOpen with
      | true => simpa [withoutPairs] using ih false
      | false =>
        rw [withoutPairs]
        split
        · simpa using ih true
        · simpa using ih false
    · rw [withoutPairs_of_ne hc, List.filter_cons, List.filter_cons, ih]

/-- What stands in front of a text does not change what becomes of it, but for an asterisk that may
still await its partner. -/
theorem exists_withoutPairs_append (isOpen : Bool) (before tail : List Char) :
    ∃ before' isOpen', withoutPairs isOpen (before ++ tail) =
      before' ++ withoutPairs isOpen' tail := by
  induction before generalizing isOpen with
  | nil => exact ⟨[], isOpen, rfl⟩
  | cons c before ih =>
    obtain ⟨left, leftOpen, hleft⟩ := ih false
    obtain ⟨inside, insideOpen, hinside⟩ := ih true
    rw [List.cons_append]
    cases isOpen with
    | true =>
      rw [withoutPairs]
      split
      · exact ⟨left, leftOpen, hleft⟩
      · exact ⟨c :: inside, insideOpen, by rw [hinside, List.cons_append]⟩
    | false =>
      rw [withoutPairs]
      split
      · exact ⟨inside, insideOpen, hinside⟩
      · exact ⟨c :: left, leftOpen, by rw [hleft, List.cons_append]⟩

theorem occursIn_withoutPairs {mark cs : List Char} (hmark : '*' ∉ mark) (isOpen : Bool)
    (h : Text.occursIn mark cs = true) : Text.occursIn mark (withoutPairs isOpen cs) = true := by
  obtain ⟨before, after, rfl⟩ := Text.occursIn_iff.mp h
  obtain ⟨before', isOpen', hsplit⟩ := exists_withoutPairs_append isOpen before (mark ++ after)
  rw [List.append_assoc, hsplit, withoutPairs_append hmark]
  exact Text.occursIn_iff.mpr ⟨before', _, (List.append_assoc ..).symm⟩

/-! ## Emphasis -/

/-- What emphasised text looks like behind its first asterisk, and whether it ends on its line. -/
theorem emphasis_split (rest : List Char) :
    ∃ inner tail, rest = inner ++ tail ∧ (∀ c ∈ inner, c ≠ '*' ∧ c ≠ '\n') ∧
      (tail = [] ∨ (∃ after, tail = '\n' :: after) ∨ ∃ after, tail = '*' :: after) := by
  induction rest with
  | nil => exact ⟨[], [], rfl, by simp, .inl rfl⟩
  | cons c rest ih =>
    by_cases hstar : c = '*'
    · exact ⟨[], c :: rest, rfl, by simp, .inr (.inr ⟨rest, by rw [hstar]⟩)⟩
    · by_cases hline : c = '\n'
      · exact ⟨[], c :: rest, rfl, by simp, .inr (.inl ⟨rest, by rw [hline]⟩)⟩
      · obtain ⟨inner, tail, hrest, hinner, htail⟩ := ih
        refine ⟨c :: inner, tail, by rw [hrest, List.cons_append], ?_, htail⟩
        intro d hd
        rcases List.mem_cons.mp hd with rfl | hd
        · exact ⟨hstar, hline⟩
        · exact hinner d hd

/-- What follows the words of emphasised text: an asterisk; the words are remembered. -/
def closing (start : Place) (k : Place → Option Pattern.Found) (stop : Place) :
    Option Pattern.Found :=
  (exactly "*").match? k { stop with groups := (1, start.spanTo stop) :: stop.groups }

theorem closing_of_ne {start stop : Place} {k : Place → Option Pattern.Found}
    (h : ∀ after, stop.rest ≠ '*' :: after) : closing start k stop = none := by
  show (if ['*'].isPrefixOf stop.rest then _ else none) = none
  cases hrest : stop.rest with
  | nil => rfl
  | cons c after =>
    have hc : c ≠ '*' := fun hstar => h after (by rw [hrest, hstar])
    simp [hc.symm]

theorem closing_of_star {start stop : Place} {k : Place → Option Pattern.Found} {after : List Char}
    (h : stop.rest = '*' :: after) :
    closing start k stop =
      k ({ stop with groups := (1, start.spanTo stop) :: stop.groups }.pass '*' after) := by
  have hskip : Place.skip { stop with groups := (1, start.spanTo stop) :: stop.groups } 1 =
      { stop with groups := (1, start.spanTo stop) :: stop.groups }.pass '*' after :=
    Place.skip_succ (by exact h) 0
  show (if ['*'].isPrefixOf stop.rest then
    k (Place.skip { stop with groups := (1, start.spanTo stop) :: stop.groups } 1) else none) = _
  rw [hskip, h, if_pos (by simp [List.isPrefixOf])]

theorem emphasis_foundAt_of_ne {before rest : List Char} {index : Nat} {c : Char} (hc : c ≠ '*') :
    emphasis.foundAt ⟨before, c :: rest, index, []⟩ = none :=
  Pattern.foundAt_of_not_begins (by simp [List.isPrefixOf, hc.symm])

section Star

variable {before inner tail : List Char} {index : Nat}

def behindStar (before rest : List Char) (index : Nat) : Place :=
  ⟨'*' :: before, rest, index + 1, []⟩

theorem emphasis_foundAt_star (hinner : ∀ c ∈ inner, c ≠ '*' ∧ c ≠ '\n') :
    emphasis.foundAt ⟨before, '*' :: (inner ++ tail), index, []⟩ =
      nearest (· ≠ '\n')
        (closing (behindStar before (inner ++ tail) index) fun stop =>
          if index < stop.index then
            some ⟨⟨before, '*' :: (inner ++ tail), index, []⟩, stop⟩
          else none)
        tail 0 ((behindStar before (inner ++ tail) index).skip inner.length) := by
  refine Pattern.nearest_append rfl ?_ ?_
  · intro c hc
    exact decide_eq_true (hinner c hc).2
  · intro there c rest hrest hc
    refine closing_of_ne ?_
    intro after hafter
    rw [hrest] at hafter
    cases hafter
    exact (hinner '*' hc).1 rfl

theorem rest_behindStar (before inner tail : List Char) (index : Nat) :
    ((behindStar before (inner ++ tail) index).skip inner.length).rest = tail := by
  rw [Place.skip_rest]
  exact List.drop_left ..

theorem emphasis_foundAt_unpaired (hinner : ∀ c ∈ inner, c ≠ '*' ∧ c ≠ '\n')
    (htail : tail = [] ∨ ∃ after, tail = '\n' :: after) :
    emphasis.foundAt ⟨before, '*' :: (inner ++ tail), index, []⟩ = none := by
  have hrest := rest_behindStar before inner tail index
  rw [emphasis_foundAt_star hinner]
  rcases htail with rfl | ⟨after, rfl⟩
  · rw [nearest]
    refine closing_of_ne ?_
    rw [hrest]
    intro after hafter
    cases hafter
  · rw [nearest, closing_of_ne]
    · rfl
    · rw [hrest]
      intro after' hafter
      cases hafter

/-- Emphasised text reaches to the second asterisk, and its words stand between the two. -/
theorem emphasis_foundAt_paired (hinner : ∀ c ∈ inner, c ≠ '*' ∧ c ≠ '\n')
    (before after : List Char) (index : Nat) :
    ∃ m, emphasis.foundAt ⟨before, '*' :: (inner ++ '*' :: after), index, []⟩ = some m ∧
      m.stop.index = index + 1 + (inner.length + 1) ∧ m.group 1 = inner := by
  have hrest := rest_behindStar before inner ('*' :: after) index
  have hindex : ((behindStar before (inner ++ '*' :: after) index).skip inner.length).index =
      index + 1 + inner.length := Place.skip_index (by simp [behindStar])
  have hwords : (inner ++ '*' :: after).take
      (((behindStar before (inner ++ '*' :: after) index).skip inner.length).index - (index + 1)) =
        inner := by
    rw [hindex, Nat.add_sub_cancel_left]
    exact List.take_left ..
  have hlt : index < index + 1 + inner.length + 1 := by omega
  rw [emphasis_foundAt_star hinner, nearest, closing_of_star hrest]
  simp only [Place.pass, hindex, if_pos hlt]
  exact ⟨_, rfl, Nat.add_assoc .., hwords⟩

end Star

theorem takeWhile_line {inner : List Char} (hinner : ∀ c ∈ inner, c ≠ '*' ∧ c ≠ '\n')
    (tail : List Char) :
    (inner ++ tail).takeWhile (· ≠ '\n') = inner ++ tail.takeWhile (· ≠ '\n') :=
  List.takeWhile_append_of_pos fun c hc => decide_eq_true (hinner c hc).2

theorem substituteFrom_emphasis (n : Nat) {cs : List Char} (hn : cs.length ≤ n)
    (before : List Char) (index : Nat) :
    emphasis.substituteFrom (·.group 1) cs before index = withoutPairs false cs := by
  induction n generalizing cs before index with
  | zero =>
    rw [List.length_eq_zero_iff.mp (Nat.le_zero.mp hn)]
    rfl
  | succ n ih =>
    cases cs with
    | nil => rfl
    | cons c rest =>
      have hrest : rest.length ≤ n := Nat.le_of_succ_le_succ hn
      by_cases hc : c = '*'
      · subst hc
        obtain ⟨inner, tail, rfl, hinner, htail⟩ := emphasis_split rest
        have hstar : '*' ∉ inner := fun hmem => (hinner '*' hmem).1 rfl
        rw [withoutPairs, takeWhile_line hinner]
        rcases htail with htail | htail | ⟨after, rfl⟩
        · have hline : '*' ∉ inner ++ tail.takeWhile (· ≠ '\n') := by simpa [htail] using hstar
          rw [Pattern.substituteFrom_plain (emphasis_foundAt_unpaired hinner (.inl htail)),
            ih hrest, if_neg fun h => hline h.2]
        · have hline : '*' ∉ inner ++ tail.takeWhile (· ≠ '\n') := by
            obtain ⟨after, rfl⟩ := htail
            simpa using hstar
          rw [Pattern.substituteFrom_plain (emphasis_foundAt_unpaired hinner (.inr htail)),
            ih hrest, if_neg fun h => hline h.2]
        · obtain ⟨m, hfound, hstop, hgroup⟩ := emphasis_foundAt_paired hinner before after index
          have hdrop : (inner ++ '*' :: after).drop (inner.length + 1) = after :=
            List.drop_length_add_append 1
          rw [List.length_append, List.length_cons] at hrest
          rw [Pattern.substituteFrom_found hfound (by simp) hstop, hgroup, hdrop, ih (by omega),
            if_pos (by simp), withoutPairs_append hstar, withoutPairs, if_pos rfl]
      · rw [Pattern.substituteFrom_plain (emphasis_foundAt_of_ne hc), withoutPairs_of_ne hc,
          ih hrest]

theorem substitute_emphasis (cs : List Char) :
    emphasis.substitute (·.group 1) cs = withoutPairs false cs := by
  rw [Pattern.substitute_eq]
  exact substituteFrom_emphasis cs.length (Nat.le_refl _) [] 0

/-! ## Marks of C -/

theorem marks_firm : ∀ mark ∈ marks, '*' ∉ mark.toList ∧
    (∃ first, mark.toList.head? = some first ∧ Text.isBlank first = false) ∧
    ∃ last, mark.toList.getLast? = some last ∧ Text.isBlank last = false := by
  simp [marks, Text.isBlank, Text.blankCodes]

theorem occursIn_strip {mark : String} (hmark : mark ∈ marks) {cs : List Char}
    (h : Text.occursIn mark.toList cs = true) :
    Text.occursIn mark.toList (Text.strip cs) = true := by
  obtain ⟨-, ⟨first, hhead, hfirst⟩, last, hend, hlast⟩ := marks_firm mark hmark
  obtain ⟨before, after, rfl⟩ := Text.occursIn_iff.mp h
  obtain ⟨before', after', hstrip⟩ :=
    Text.exists_strip_append hfirst hlast hhead hend before after
  exact Text.occursIn_iff.mpr ⟨before', after', hstrip⟩

theorem looksLikeC_withoutPairs {cs : List Char} (h : looksLikeC (.ofList cs) = true) :
    looksLikeC (.ofList (Text.strip (withoutPairs false cs))) = true := by
  have hmarks : ∀ mark ∈ marks, Text.contains (.ofList cs) mark = true →
      Text.contains (.ofList (Text.strip (withoutPairs false cs))) mark = true := by
    intro mark hmark hoccurs
    rw [Text.contains, String.toList_ofList] at hoccurs ⊢
    exact occursIn_strip hmark (occursIn_withoutPairs (marks_firm mark hmark).1 false hoccurs)
  rw [looksLikeC, decide_eq_true_eq] at h ⊢
  exact Nat.le_trans h (List.countP_mono_left hmarks)

/-! ## Lines with two asterisks -/

/-- No other character is lost, so a text that keeps all its asterisks stays as it is. -/
theorem withoutPairs_of_count {isOpen : Bool} {cs : List Char}
    (h : (withoutPairs isOpen cs).count '*' = cs.count '*') : withoutPairs isOpen cs = cs := by
  have hlength (text : List Char) :
      text.length = text.count '*' + (text.filter (· ≠ '*')).length := by
    rw [← List.countP_eq_length_filter, List.count, text.length_eq_countP_add_countP (· == '*')]
    simp
  refine (withoutPairs_sublist isOpen cs).eq_of_length ?_
  rw [hlength, hlength cs, h, filter_withoutPairs]

theorem withoutPairs_eq_self_iff (cs : List Char) :
    withoutPairs false cs = cs ↔ ∀ line ∈ cs.splitOn '\n', line.count '*' ≤ 1 := by
  induction cs with
  | nil => simp [withoutPairs]
  | cons c rest ih =>
    obtain ⟨others, hlines⟩ := Text.splitOn_eq_cons '\n' rest
    rw [hlines, List.forall_mem_cons] at ih
    rw [List.splitOn_cons_eq_if_modifyHead, hlines]
    by_cases hc : c = '*'
    · subst hc
      rw [if_neg (by decide), List.modifyHead_cons, List.forall_mem_cons, List.count_cons_self,
        withoutPairs]
      by_cases hpaired : '*' ∈ rest.takeWhile (· ≠ '\n')
      · rw [if_pos ⟨rfl, hpaired⟩]
        -- the text has become shorter, and its first line has two asterisks
        have hpos := List.count_pos_iff.mpr hpaired
        have hle := (withoutPairs_sublist true rest).length_le
        constructor
        · intro heq
          rw [heq, List.length_cons] at hle
          omega
        · rintro ⟨hfirst, -⟩
          omega
      · have hzero := List.count_eq_zero.mpr hpaired
        rw [if_neg fun h => hpaired h.2, List.cons_inj_right, ih, hzero]
        simp
    · rw [withoutPairs_of_ne hc, List.cons_inj_right, ih]
      by_cases hline : c = '\n'
      · simp [hline]
      · rw [if_neg (by simpa using hline), List.modifyHead_cons, List.forall_mem_cons,
          List.count_cons_of_ne hc]

/-! ## Unfenced C -/

section Unfenced

variable {cs : List Char}

theorem not_occurs_of_part {part needle text : List Char}
    (hneedle : Text.occursIn part needle = true) (h : Text.occursIn part text = false) :
    Text.occursIn needle text = false := by
  rw [Bool.eq_false_iff] at h ⊢
  intro hoccurs
  exact h (Text.occursIn_trans hneedle hoccurs)

theorem not_occurs_withoutPairs {tick : Char} (h : Text.occursIn [tick] cs = false) :
    Text.occursIn [tick] (withoutPairs false cs) = false := by
  rw [Bool.eq_false_iff] at h ⊢
  intro hoccurs
  have hmem : tick ∈ withoutPairs false cs := Text.occursIn_singleton.mp hoccurs
  exact h (Text.occursIn_singleton.mpr ((withoutPairs_sublist false cs).mem hmem))

theorem withoutMarkup_bare (htick : Text.occursIn "`".toList cs = false)
    (hstars : Text.occursIn "**".toList cs = false) :
    withoutMarkup cs = withoutPairs false cs := by
  -- of all marks only those of emphasis can be found
  have hprose : anyFence.substitute (fun _ => []) cs = cs :=
    Pattern.substitute_of_not_occurs _ (not_occurs_of_part (by decide) htick)
  have hbold : bold.substitute (·.group 1) cs = cs := Pattern.substitute_of_not_occurs _ hstars
  have hcode : inlineCode.substitute (·.group 1) (withoutPairs false cs) =
      withoutPairs false cs :=
    Pattern.substitute_of_not_occurs _ (not_occurs_withoutPairs htick)
  rw [withoutMarkup, hprose]
  simp only [List.foldl_cons, List.foldl_nil, hbold, substitute_emphasis, hcode]

theorem extract_bare {answer : String} (htick : Text.contains answer "`" = false)
    (hstars : Text.contains answer "**" = false) (hC : looksLikeC answer = true) :
    extract answer = .ofList (Text.strip (withoutPairs false answer.toList)) := by
  have hcFence : fenced? cFence answer.toList = none := by
    rw [fenced?, cFence, Pattern.find?_of_not_occurs (not_occurs_of_part (by decide) htick)]
  have hplainFence : fenced? plainFence answer.toList = none := by
    rw [fenced?, plainFence, Pattern.find?_of_not_occurs (not_occurs_of_part (by decide) htick)]
  have hcleaned : looksLikeC (.ofList (Text.strip (withoutPairs false answer.toList))) = true :=
    looksLikeC_withoutPairs (by rwa [String.ofList_toList])
  simp only [extract, hcFence, hplainFence, unfenced, withoutMarkup_bare htick hstars, hcleaned,
    if_true]

end Unfenced

theorem strip_withoutPairs_eq_iff (cs : List Char) :
    Text.strip (withoutPairs false cs) = Text.strip cs ↔ withoutPairs false cs = cs := by
  constructor
  · intro h
    have hblank : Text.isBlank '*' = false := by decide
    refine withoutPairs_of_count ?_
    rw [← Text.count_strip hblank, h, Text.count_strip hblank]
  · intro h
    rw [h]

/-- An answer that looks like C, without a backtick and without two asterisks in a row, loses the
blanks at its ends and the asterisks that have a partner on their line. So it is passed through
exactly when no line has two asterisks. -/
theorem extract_bare_iff (answer : String) (htick : Text.contains answer "`" = false)
    (hstars : Text.contains answer "**" = false) (hC : looksLikeC answer = true) :
    extract answer = .ofList (Text.strip (withoutPairs false answer.toList)) ∧
      (extract answer = Text.stripped answer ↔
        ∀ line ∈ Text.lines answer, Text.count line '*' ≤ 1) := by
  have hextract := extract_bare htick hstars hC
  refine ⟨hextract, ?_⟩
  calc extract answer = Text.stripped answer
      ↔ Text.strip (withoutPairs false answer.toList) = Text.strip answer.toList := by
        rw [hextract, Text.stripped, String.ofList_inj]
    _ ↔ withoutPairs false answer.toList = answer.toList := strip_withoutPairs_eq_iff _
    _ ↔ ∀ line ∈ answer.toList.splitOn '\n', line.count '*' ≤ 1 := withoutPairs_eq_self_iff _
    _ ↔ ∀ line ∈ Text.lines answer, Text.count line '*' ≤ 1 := by
        simp [Text.lines, Text.splitOn, Text.count]

/-- Two pointers on one line are no emphasis, but their asterisks are lost. -/
theorem extract_bare_of_two_pointers :
    extract "void set(int *a, int *b) \x7b\n  *a = 1;\n\x7d" =
        "void set(int a, int b) \x7b\n  *a = 1;\n\x7d" ∧
      extract "void set(int *a, int *b) \x7b\n  *a = 1;\n\x7d" ≠
        Text.stripped "void set(int *a, int *b) \x7b\n  *a = 1;\n\x7d" := by
  have h := extract_bare_iff "void set(int *a, int *b) \x7b\n  *a = 1;\n\x7d" (by decide)
    (by decide) (by decide)
  refine ⟨h.1.trans (by decide), ?_⟩
  rw [Ne, h.2]
  decide

end Cartridge.Code
