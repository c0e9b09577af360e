import Cartridge.Proofs.Code.Hints

/-!
# Declarations of variables

What code says of the storage of its variables: which it declares at which address, and which it
declares without one.

* `Declares`, `Unplaced`, `Shares`: the declarations of variables in code.
* `somewhere_cons`: a declaration is on one side of a separator.
* `declaresLarge_withHeaders_iff`, `unplaced_withHeaders_iff`: the headers change no declaration.
-/

namespace Cartridge.Code

/-! ## Declarations of variables -/

/-- What is in front of a variable that is kept at an address. -/
def place (address : List Char) : List Char := "__at(".toList ++ (address ++ ") ".toList)

theorem place_append (address rest : List Char) :
    place address ++ rest = "__at(".toList ++ (address ++ ')' :: ' ' :: rest) := by
  rw [place, List.append_assoc, List.append_assoc]
  rfl

/-- The declaration of a variable of one byte, or of an array of bytes up to its size. -/
def byte (name : List Char) : List Char := "unsigned char ".toList ++ name

/-- The first address of the fast memory. -/
def fast : List Char := "0xFF80".toList

/-- An address as it is written, an expression without blanks and brackets. -/
def IsAddress (cs : List Char) : Prop := ∀ c ∈ cs, c ∉ " \n()<>#".toList

theorem isAddress_fast : IsAddress fast := by
  have hall : fast.all (· ∉ " \n()<>#".toList) = true := by decide
  exact fun c hc => of_decide_eq_true (List.all_eq_true.mp hall c hc)

/-- The name of a variable is whole: no more of a name follows, and no parameters of a function. -/
def endsName (rest : List Char) : Bool :=
  (rest.dropWhile (· == ' ')).head?.all fun c => !Text.isWord c && c != '('

/-- An array of up to four bytes, from behind its name on. -/
def Tiny (rest : List Char) : Prop :=
  ∃ size tail, rest = '[' :: size :: ']' :: tail ∧ '1' ≤ size ∧ size ≤ '4'

/-- The code has the piece at a place of which something holds. -/
def Somewhere (cs piece : List Char) (holds : List Char → List Char → Prop) : Prop :=
  ∃ before rest, cs = before ++ (piece ++ rest) ∧ holds before rest

/-- The place is one of a whole declaration. -/
def Whole (before rest : List Char) : Prop := Clear before.reverse ∧ endsName rest = true

/-- The place is one of a whole declaration, and not of a tiny array. -/
def Large (before rest : List Char) : Prop := Whole before rest ∧ ¬ Tiny rest

/-- The place is one of a whole declaration, not of a tiny array, and not at the fast memory's first
address. -/
def Bare (before rest : List Char) : Prop := Large before rest ∧ ¬ place fast <:+ before

/-- The code declares the variable at the address. -/
def Declares (cs address name : List Char) : Prop :=
  IsAddress address ∧ IsName name ∧ Somewhere cs (place address ++ byte name) Whole

/-- The code declares the variable at the address, and not as a tiny array. -/
def DeclaresLarge (cs address name : List Char) : Prop :=
  IsAddress address ∧ IsName name ∧ Somewhere cs (place address ++ byte name) Large

/-- The code declares the variable, not at the fast memory's first address and not as a tiny
array. -/
def Unplaced (cs name : List Char) : Prop := IsName name ∧ Somewhere cs (byte name) Bare

/-- Two variables share their storage. -/
def Shares (cs address x y : List Char) : Prop :=
  x ≠ y ∧ Declares cs address x ∧ Declares cs address y

/-! ## Separators -/

/-- The character keeps what holds of a place apart from what is beyond it. -/
def Separates (e : Char) (holds : List Char → List Char → Prop) : Prop :=
  (∀ a before rest, holds (a ++ e :: before) rest ↔ holds before rest) ∧
    ∀ before rest b, holds before (rest ++ e :: b) ↔ holds before rest

theorem somewhere_cons {e : Char} {piece : List Char} {holds : List Char → List Char → Prop}
    (he : e ∉ piece) (hholds : Separates e holds) (a b : List Char) :
    Somewhere (a ++ e :: b) piece holds ↔ Somewhere a piece holds ∨ Somewhere b piece holds := by
  constructor
  · rintro ⟨before, rest, hsplit, h⟩
    rcases Text.append_cons_cut he hsplit.symm with ⟨t, rfl, rfl⟩ | ⟨t, rfl, rfl⟩
    · exact .inl ⟨before, t, rfl, (hholds.2 ..).mp h⟩
    · exact .inr ⟨t, rest, rfl, (hholds.1 ..).mp h⟩
  · rintro (⟨before, rest, rfl, h⟩ | ⟨before, rest, rfl, h⟩)
    · exact ⟨before, rest ++ e :: b, by simp, (hholds.2 ..).mpr h⟩
    · exact ⟨a ++ e :: before, rest, by simp, (hholds.1 ..).mpr h⟩

theorem clear_reverse_append {e : Char} (he : Text.isWord e = false) (a before : List Char) :
    Clear (a ++ e :: before).reverse ↔ Clear before.reverse := by
  rcases List.eq_nil_or_concat before with rfl | ⟨before, d, rfl⟩
  · simp [Clear, he]
  · simp [Clear]

theorem endsName_append {e : Char} (hblank : e ≠ ' ') (hword : Text.isWord e = false)
    (hopen : e ≠ '(') (rest b : List Char) : endsName (rest ++ e :: b) = endsName rest := by
  induction rest with
  | nil => simp [endsName, hblank, hword, hopen]
  | cons d rest ih =>
    by_cases hd : d = ' '
    · subst hd
      exact ih
    · simp [endsName, hd]

theorem tiny_append {e : Char} (he : e ∉ "[]".toList) (hsize : ¬ ('1' ≤ e ∧ e ≤ '4'))
    (rest b : List Char) : Tiny (rest ++ e :: b) ↔ Tiny rest := by
  constructor
  · rintro ⟨size, tail, hsplit, hleast, hmost⟩
    have hnot : e ∉ ['[', size, ']'] := by
      simp only [List.mem_cons, List.not_mem_nil, or_false]
      rintro (rfl | rfl | rfl)
      · exact he (by decide)
      · exact hsize ⟨hleast, hmost⟩
      · exact he (by decide)
    have hcut : [] ++ (['[', size, ']'] ++ tail) = rest ++ e :: b := hsplit.symm
    rcases Text.append_cons_cut hnot hcut with ⟨t, rfl, -⟩ | ⟨t, h, -⟩
    · exact ⟨size, t, rfl, hleast, hmost⟩
    · simp at h
  · rintro ⟨size, tail, rfl, hsize⟩
    exact ⟨size, tail ++ e :: b, rfl, hsize⟩

theorem suffix_append_cons {e : Char} {piece : List Char} (he : e ∉ piece) (a before : List Char) :
    piece <:+ a ++ e :: before ↔ piece <:+ before := by
  constructor
  · rintro ⟨t, ht⟩
    have hcut : t ++ (piece ++ []) = a ++ e :: before := by rwa [List.append_nil]
    rcases Text.append_cons_cut he hcut with ⟨t', -, h⟩ | ⟨t', -, rfl⟩
    · simp at h
    · simp
  · exact fun h => h.trans ⟨a ++ [e], by simp⟩

/-- The characters that no declaration has in it, and that end one. -/
def separators : List Char := ['\n', '>']

theorem mem_separators {e : Char} : e ∈ separators ↔ e = '\n' ∨ e = '>' := by
  simp [separators]

theorem whole_separates {e : Char} (he : e ∈ separators) : Separates e Whole := by
  obtain ⟨hblank, hopen, hstop⟩ : e ≠ ' ' ∧ e ≠ '(' ∧ e ∈ ['\n', ' ', '>', '['] := by
    rcases mem_separators.mp he with rfl | rfl <;> decide
  have hword := Text.not_word hstop
  refine ⟨fun a before rest => ?_, fun before rest b => ?_⟩
  · rw [Whole, clear_reverse_append hword, Whole]
  · rw [Whole, endsName_append hblank hword hopen, Whole]

theorem large_separates {e : Char} (he : e ∈ separators) : Separates e Large := by
  obtain ⟨hmem, hsize⟩ : e ∉ "[]".toList ∧ ¬ ('1' ≤ e ∧ e ≤ '4') := by
    rcases mem_separators.mp he with rfl | rfl <;> decide
  refine ⟨fun a before rest => ?_, fun before rest b => ?_⟩
  · rw [Large, (whole_separates he).1, Large]
  · rw [Large, (whole_separates he).2, tiny_append hmem hsize, Large]

theorem bare_separates {e : Char} (he : e ∈ separators) : Separates e Bare := by
  have hmem : e ∉ place fast := by
    rcases mem_separators.mp he with rfl | rfl <;> decide
  refine ⟨fun a before rest => ?_, fun before rest b => ?_⟩
  · rw [Bare, (large_separates he).1, suffix_append_cons hmem, Bare]
  · rw [Bare, (large_separates he).2, Bare]

/-! ## The headers -/

theorem replacing_none_left (needle by_ : List Char) (text done : List Char) (skip : Nat) :
    Text.replacing needle by_ text skip (some 0) done = done.reverse ++ text.drop skip := by
  induction text generalizing skip done with
  | nil => simp [Text.replacing]
  | cons c text ih =>
    cases skip with
    | zero => simp [Text.replacing, ih]
    | succ skip => simp [Text.replacing, ih]

theorem replacing_once (by_ : List Char) {needle text : List Char} (hne : needle ≠ [])
    (h : Text.occursIn needle text = true) (done : List Char) :
    ∃ a b, text = a ++ (needle ++ b) ∧
      Text.replacing needle by_ text 0 (some 1) done = done.reverse ++ (a ++ (by_ ++ b)) := by
  induction text generalizing done with
  | nil => simp [Text.occursIn, hne] at h
  | cons c text ih =>
    by_cases hhere : needle.isPrefixOf (c :: text) = true
    · obtain ⟨b, hb⟩ := List.isPrefixOf_iff_prefix.mp hhere
      refine ⟨[], b, hb.symm, ?_⟩
      have hpos : 0 < needle.length := List.length_pos_iff.mpr hne
      have hdrop : text.drop (needle.length - 1) = b := by
        have hdrop : (c :: text).drop needle.length = b := by rw [← hb, List.drop_left]
        rwa [show needle.length = needle.length - 1 + 1 by omega, List.drop_succ_cons] at hdrop
      simp [Text.replacing, hhere, replacing_none_left, hdrop]
    · have hrest : Text.occursIn needle text = true := by simpa [Text.occursIn, hhere] using h
      obtain ⟨a, b, rfl, hreplaced⟩ := ih hrest (c :: done)
      exact ⟨c :: a, b, rfl, by simp [Text.replacing, hhere, hreplaced]⟩

section Headers

variable {piece : List Char} {holds : List Char → List Char → Prop}

theorem not_somewhere {c : Char} {cs : List Char} (hpiece : c ∈ piece) (hcs : c ∉ cs) :
    ¬ Somewhere cs piece holds := by
  rintro ⟨before, rest, rfl, -⟩
  simp [hpiece] at hcs

variable (hholds : ∀ e ∈ separators, Separates e holds) (hpiece : ∀ e ∈ separators, e ∉ piece)
  (hletter : 'a' ∈ piece)

include hholds hpiece hletter

theorem somewhere_consoleHeader (code : String) :
    Somewhere (consoleHeader ++ "\n" ++ code).toList piece holds ↔
      Somewhere code.toList piece holds := by
  have hsplit : (consoleHeader ++ "\n" ++ code).toList =
      "#include <gb/gb.h".toList ++ '>' :: ([] ++ '\n' :: code.toList) := by
    simp [consoleHeader]
  rw [hsplit, somewhere_cons (hpiece _ (by decide)) (hholds _ (by decide)),
    somewhere_cons (hpiece _ (by decide)) (hholds _ (by decide)),
    or_iff_right (not_somewhere hletter (by decide)),
    or_iff_right (not_somewhere hletter (by decide))]

theorem somewhere_ioHeader {code : String} (h : Text.contains code consoleHeader = true) :
    Somewhere (Text.replaceFirst code consoleHeader (consoleHeader ++ "\n" ++ ioHeader)).toList
      piece holds ↔ Somewhere code.toList piece holds := by
  obtain ⟨a, b, hcode, hreplaced⟩ :=
    replacing_once (consoleHeader ++ "\n" ++ ioHeader).toList (by decide) h []
  have hbefore : code.toList = (a ++ "#include <gb/gb.h".toList) ++ '>' :: b := by
    rw [hcode]
    simp [consoleHeader]
  have hafter : (Text.replaceFirst code consoleHeader (consoleHeader ++ "\n" ++ ioHeader)).toList =
      (a ++ "#include <gb/gb.h".toList) ++ '>' :: ("\n#include <stdio.h".toList ++ '>' :: b) := by
    rw [Text.replaceFirst, String.toList_ofList, hreplaced]
    simp [consoleHeader, ioHeader]
  have hcut := fun a b => somewhere_cons (hpiece '>' (by decide)) (hholds '>' (by decide)) a b
  have hio : ¬ Somewhere "\n#include <stdio.h".toList piece holds :=
    not_somewhere hletter (by decide)
  rw [hbefore, hafter, hcut, hcut, hcut, or_iff_right hio]

/-- The headers declare no variable, so the declarations with them are those without. -/
theorem somewhere_withHeaders (code : String) :
    Somewhere (withHeaders code).toList piece holds ↔ Somewhere code.toList piece holds := by
  have hconsole : Text.contains (consoleHeader ++ "\n" ++ code) consoleHeader = true :=
    Text.occursIn_iff.mpr ⟨[], '\n' :: code.toList, by simp⟩
  rw [withHeaders]
  by_cases hcode : Text.contains code consoleHeader = true
  · rw [if_pos hcode]
    split
    · rfl
    · exact somewhere_ioHeader hholds hpiece hletter hcode
  · rw [if_neg hcode]
    split
    · exact somewhere_consoleHeader hholds hpiece hletter code
    · rw [somewhere_ioHeader hholds hpiece hletter hconsole,
        somewhere_consoleHeader hholds hpiece hletter]

end Headers

theorem not_mem_byte {name : List Char} (hname : IsName name) {e : Char} (he : e ∈ separators) :
    e ∉ byte name := by
  obtain ⟨hbyte, hstop⟩ : e ∉ "unsigned char ".toList ∧ e ∈ ['\n', ' ', '>', '['] := by
    rcases mem_separators.mp he with rfl | rfl <;> decide
  intro hmem
  rcases List.mem_append.mp hmem with hmem | hmem
  · exact hbyte hmem
  · exact not_mem_of_isName hname hstop hmem

theorem not_mem_place {address : List Char} (haddress : IsAddress address) {e : Char}
    (he : e ∈ separators) : e ∉ place address := by
  obtain ⟨hin, hat, hclose⟩ :
      e ∈ " \n()<>#".toList ∧ e ∉ "__at(".toList ∧ e ∉ ") ".toList := by
    rcases mem_separators.mp he with rfl | rfl <;> decide
  intro hmem
  rcases List.mem_append.mp hmem with hmem | hmem
  · exact hat hmem
  · rcases List.mem_append.mp hmem with hmem | hmem
    · exact haddress e hmem hin
    · exact hclose hmem

theorem letter_mem_byte (name : List Char) : 'a' ∈ byte name :=
  List.mem_append_left _ (by decide)

theorem declaresLarge_withHeaders_iff (code : String) (address name : List Char) :
    DeclaresLarge (withHeaders code).toList address name ↔
      DeclaresLarge code.toList address name := by
  refine and_congr_right fun haddress => and_congr_right fun hname => ?_
  refine somewhere_withHeaders (fun e he => large_separates he) (fun e he hmem => ?_)
    (List.mem_append_right _ (letter_mem_byte name)) code
  rcases List.mem_append.mp hmem with hmem | hmem
  · exact not_mem_place haddress he hmem
  · exact not_mem_byte hname he hmem

theorem unplaced_withHeaders_iff (code : String) (name : List Char) :
    Unplaced (withHeaders code).toList name ↔ Unplaced code.toList name := by
  refine and_congr_right fun hname => ?_
  exact somewhere_withHeaders (fun e he => bare_separates he) (fun e he => not_mem_byte hname he)
    (letter_mem_byte name) code

end Cartridge.Code
