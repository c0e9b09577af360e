import Cartridge.Proofs.Json.Escape

/-!
# Reading a written value from its end

A document without floating-point numbers that stands at the end of a line is known from the line,
and so is where it begins. For an object nothing need be known of what comes before it; any other
value has to come after a blank or an opening bracket. The texts in a document are known by their
UTF-16 units only, so documents hold these here.

* `row_unique`: items between brackets are known if each item is.
* `Value.text`: documents whose texts are units, on one line.
* `Value.known`: a value after a blank or an opening bracket.
* `Value.obj_unique`: an object after anything.
* `Spells`: so it is for documents whose texts are strings.
-/

namespace Cartridge.Json

open Text (points units)

/-- The value on one line, as characters. -/
def text (v : Json) : List Char := v.line.toList

/-! ## Values without inner structure -/

/-- The value is null, a truth value or a whole number. -/
def IsAtom : Json → Prop
  | .null | .bool _ | .int _ => True
  | _ => False

/-- The characters that separate values and stand around them. -/
def marks : List Char := [' ', '[', '\x7b', '"', ']', '\x7d']

/-- A character of a written whole number. -/
def IsIntChar (c : Char) : Prop := c.isDigit = true ∨ c = '-'

theorem text_int (n : Int) : text (.int n) = n.repr.toList := by
  rw [text, line]
  rfl

theorem repr_ofNat (n : Nat) : (Int.ofNat n).repr.toList = Nat.toDigits 10 n := Nat.toList_repr

theorem repr_negSucc (n : Nat) :
    (Int.negSucc n).repr.toList = '-' :: Nat.toDigits 10 (n + 1) := by
  show ("-" ++ Nat.repr (n + 1)).toList = _
  rw [String.toList_append, Nat.toList_repr]
  rfl

theorem isDigit_of_mem {n : Nat} {c : Char} (hc : c ∈ Nat.toDigits 10 n) : c.isDigit = true :=
  Nat.isDigit_of_mem_toDigits (by decide) (by decide) hc

theorem toDigits_inj {n m : Nat} (h : Nat.toDigits 10 n = Nat.toDigits 10 m) : n = m := by
  have hvalue := congrArg (fun digits => Nat.ofDigitChars 10 digits 0) h
  simpa using hvalue

theorem isIntChar_of_mem {n : Int} {c : Char} (hc : c ∈ n.repr.toList) : IsIntChar c := by
  cases n with
  | ofNat n =>
    rw [repr_ofNat] at hc
    exact .inl (isDigit_of_mem hc)
  | negSucc n =>
    rw [repr_negSucc] at hc
    rcases List.mem_cons.mp hc with rfl | hc
    · exact .inr rfl
    · exact .inl (isDigit_of_mem hc)

theorem repr_inj {n m : Int} (h : n.repr.toList = m.repr.toList) : n = m := by
  have hminus : ∀ k, '-' ∉ Nat.toDigits 10 k := fun k hmem => by simpa using isDigit_of_mem hmem
  cases n with
  | ofNat n =>
    cases m with
    | ofNat m =>
      rw [repr_ofNat, repr_ofNat] at h
      rw [toDigits_inj h]
    | negSucc m =>
      rw [repr_ofNat, repr_negSucc] at h
      exact absurd (h ▸ List.mem_cons_self) (hminus n)
  | negSucc n =>
    cases m with
    | ofNat m =>
      rw [repr_ofNat, repr_negSucc] at h
      exact absurd (h ▸ List.mem_cons_self) (hminus m)
    | negSucc m =>
      rw [repr_negSucc, repr_negSucc] at h
      have hsucc := toDigits_inj (List.cons.inj h).2
      rw [Nat.succ.inj hsucc]

theorem opening_mem_marks {c : Char} (hc : c ∈ [' ', '[', '\x7b']) : c ∈ marks :=
  List.mem_append_left ['"', ']', '\x7d'] hc

theorem closing_mem_marks {c : Char} (hc : c ∈ ['"', ']', '\x7d']) : c ∈ marks :=
  List.mem_append_right [' ', '[', '\x7b'] hc

/-- No mark is among characters that are all different from the marks. -/
theorem not_mem_of_mem_marks {c : Char} (hc : c ∈ marks) {l : List Char}
    (hl : l.all (fun a => !marks.contains a) = true) : c ∉ l := by
  intro hmem
  have hnot := List.all_eq_true.mp hl c hmem
  simp [hc] at hnot

theorem not_isIntChar_of_mem {c : Char} (hc : c ∈ marks) : ¬ IsIntChar c := by
  have hall : marks.all (fun c => !(c.isDigit || c == '-')) = true := by decide
  have hnot := List.all_eq_true.mp hall c hc
  unfold IsIntChar
  simpa using hnot

theorem repr_ne_nil (n : Int) : n.repr.toList ≠ [] := by
  cases n with
  | ofNat n =>
    rw [repr_ofNat]
    exact Nat.toDigits_ne_nil
  | negSucc n =>
    rw [repr_negSucc]
    exact List.cons_ne_nil _ _

theorem text_null : text .null = ['n', 'u', 'l', 'l'] := by
  rw [text, line]
  rfl

theorem text_bool (b : Bool) :
    text (.bool b) = if b then ['t', 'r', 'u', 'e'] else ['f', 'a', 'l', 's', 'e'] := by
  rw [text, line]
  cases b <;> rfl

theorem not_mem_text_of_atom {v : Json} (hv : IsAtom v) {c : Char} (hc : c ∈ marks) :
    c ∉ text v := by
  cases v with
  | null =>
    rw [text_null]
    exact not_mem_of_mem_marks hc (by decide)
  | bool b =>
    rw [text_bool]
    cases b
    · exact not_mem_of_mem_marks hc (by decide)
    · exact not_mem_of_mem_marks hc (by decide)
  | int n =>
    rw [text_int]
    exact fun hmem => not_isIntChar_of_mem hc (isIntChar_of_mem hmem)
  | _ => exact hv.elim

theorem text_atom_ne_nil {v : Json} (hv : IsAtom v) : text v ≠ [] := by
  cases v with
  | null =>
    rw [text_null]
    decide
  | bool b =>
    rw [text_bool]
    cases b <;> decide
  | int n =>
    rw [text_int]
    exact repr_ne_nil n
  | _ => exact hv.elim

theorem text_int_ne {n : Int} {l : List Char} {c : Char} (hc : c ∈ l) (hint : ¬ IsIntChar c) :
    text (.int n) ≠ l := by
  rintro rfl
  rw [text_int] at hc
  exact hint (isIntChar_of_mem hc)

theorem atom_inj {v w : Json} (hv : IsAtom v) (hw : IsAtom w) (h : text v = text w) : v = w := by
  have hn : ¬ IsIntChar 'n' := by unfold IsIntChar; decide
  have ht : ¬ IsIntChar 'e' := by unfold IsIntChar; decide
  have hbool : ∀ b, 'e' ∈ text (.bool b) := fun b => by
    rw [text_bool]
    cases b <;> decide
  have hnull : 'n' ∈ text .null := by
    rw [text_null]
    decide
  cases v with
  | null =>
    cases w with
    | null => rfl
    | bool b =>
      rw [text_null, text_bool] at h
      cases b <;> cases h
    | int m => exact absurd h.symm (text_int_ne hnull hn)
    | _ => exact hw.elim
  | bool b =>
    cases w with
    | null =>
      rw [text_null, text_bool] at h
      cases b <;> cases h
    | bool b' =>
      rw [text_bool, text_bool] at h
      cases b <;> cases b' <;> first | rfl | cases h
    | int m => exact absurd h.symm (text_int_ne (hbool b) ht)
    | _ => exact hw.elim
  | int n =>
    cases w with
    | null => exact absurd h (text_int_ne hnull hn)
    | bool b => exact absurd h (text_int_ne (hbool b) ht)
    | int m =>
      rw [text_int, text_int] at h
      rw [repr_inj h]
    | _ => exact hw.elim
  | _ => exact hv.elim

/-! ## Where a value begins -/

theorem atom_overhang {v : Json} (hv : IsAtom v) {A M Q : List Char} (hopens : Opens (A ++ M))
    (h : text v = M ++ Q) : M = [] := by
  rcases List.eq_nil_or_concat M with rfl | ⟨M', c, rfl⟩
  · rfl
  · obtain ⟨A', c', hA', hc'⟩ := hopens
    rw [List.concat_eq_append, ← List.append_assoc] at hA'
    obtain ⟨-, rfl⟩ := List.append_singleton_inj.mp hA'
    exact absurd (by simp [h]) (not_mem_text_of_atom hv (opening_mem_marks hc'))

theorem atom_unique {v w : Json} (hv : IsAtom v) (hw : IsAtom w) {A B : List Char} (hA : Opens A)
    (hB : Opens B) (h : A ++ text v = B ++ text w) : A = B ∧ v = w := by
  suffices hAB : A = B by
    rw [hAB, List.append_cancel_left_eq] at h
    exact ⟨hAB, atom_inj hv hw h⟩
  rcases List.append_eq_append_iff.mp h with ⟨M, rfl, hM⟩ | ⟨M, rfl, hM⟩
  · rw [atom_overhang hv hB hM, List.append_nil]
  · rw [atom_overhang hw hA hM, List.append_nil]

/-! ## Items between brackets -/

/-- Items in a row. -/
def row {α : Type} (f : α → List Char) (l : List α) : List Char :=
  [',', ' '].intercalate (l.map f)

/-- What comes before the item after some others. -/
def lead {α : Type} (f : α → List Char) (opening : Char) (l : List α) : List Char :=
  if l = [] then [opening] else opening :: row f l ++ [',', ' ']

section Rows

variable {α : Type} {f : α → List Char} {opening : Char}

theorem row_concat (l : List α) (hl : l ≠ []) (a : α) :
    row f (l ++ [a]) = row f l ++ [',', ' '] ++ f a := by
  induction l with
  | nil => exact absurd rfl hl
  | cons b l ih =>
    cases l with
    | nil => simp [row]
    | cons c l =>
      have hstep : ∀ k : List α, row f (b :: c :: k) = f b ++ [',', ' '] ++ row f (c :: k) :=
        fun k => List.intercalate_cons_cons
      rw [List.cons_append, List.cons_append, hstep, hstep, ← List.cons_append,
        ih (List.cons_ne_nil _ _)]
      simp only [List.append_assoc]

theorem row_lead (l : List α) (a : α) : opening :: row f (l ++ [a]) = lead f opening l ++ f a := by
  unfold lead
  split
  · rename_i hl
    rw [hl, row]
    simp
  · rename_i hl
    rw [row_concat l hl]
    simp

theorem opens_lead (hopening : opening ∈ [' ', '[', '\x7b']) (A : List Char) (l : List α) :
    Opens (A ++ lead f opening l) := by
  unfold lead
  split
  · exact ⟨A, opening, rfl, hopening⟩
  · exact ⟨A ++ opening :: row f l ++ [','], ' ', by simp, by simp⟩

theorem append_ne {c d : Char} (hcd : c ≠ d) (A B : List Char) : A ++ [c] ≠ B ++ [d] :=
  fun h => hcd (List.append_singleton_inj.mp h).2

/-- What comes before an item tells whether the item is the first. -/
theorem lead_unique (hopening : opening ≠ ' ') {l m : List α} {A B : List Char}
    (h : A ++ lead f opening l = B ++ lead f opening m) :
    A ++ opening :: row f l = B ++ opening :: row f m := by
  unfold lead at h
  by_cases hl : l = []
  · by_cases hm : m = []
    · rw [if_pos hl, if_pos hm] at h
      rw [hl, hm]
      exact h
    · rw [if_pos hl, if_neg hm] at h
      exact absurd (h.trans (by simp)) (append_ne hopening A (B ++ opening :: row f m ++ [',']))
  · by_cases hm : m = []
    · rw [if_neg hl, if_pos hm] at h
      exact absurd (h.symm.trans (by simp))
        (append_ne hopening B (A ++ opening :: row f l ++ [',']))
    · rw [if_neg hl, if_neg hm, ← List.append_assoc, ← List.append_assoc] at h
      exact List.append_cancel_right h

/-- Items that are known one by one from the end are known together. -/
theorem row_unique (hopening : opening ∈ ['[', '\x7b']) {l m : List α}
    (hend : ∀ a, a ∈ l ∨ a ∈ m → ∃ X c, f a = X ++ [c] ∧ c ≠ opening)
    (hitem : ∀ a ∈ l, ∀ b ∈ m, ∀ A B, Opens A → Opens B → A ++ f a = B ++ f b → A = B ∧ a = b)
    {A B : List Char} (h : A ++ opening :: row f l = B ++ opening :: row f m) : A = B ∧ l = m := by
  have hspace : opening ≠ ' ' := by
    rintro rfl
    revert hopening
    decide
  induction l using List.reverseRecOn generalizing m with
  | nil =>
    rcases List.eq_nil_or_concat m with rfl | ⟨m, b, rfl⟩
    · exact ⟨List.append_cancel_right h, rfl⟩
    · obtain ⟨X, c, hX, hc⟩ := hend b (by simp)
      rw [List.concat_eq_append, row_lead, hX] at h
      exact absurd (h.trans (by simp)) (append_ne hc.symm A (B ++ lead f opening m ++ X))
  | append_singleton l a ih =>
    rcases List.eq_nil_or_concat m with rfl | ⟨m, b, rfl⟩
    · obtain ⟨X, c, hX, hc⟩ := hend a (by simp)
      rw [row_lead, hX] at h
      exact absurd (h.symm.trans (by simp)) (append_ne hc.symm B (A ++ lead f opening l ++ X))
    · rw [List.concat_eq_append] at *
      rw [row_lead, row_lead, ← List.append_assoc, ← List.append_assoc] at h
      have hfirst : opening ∈ [' ', '[', '\x7b'] := List.mem_cons_of_mem _ hopening
      obtain ⟨hlead, rfl⟩ := hitem a (by simp) b (by simp) _ _ (opens_lead hfirst A l)
        (opens_lead hfirst B m) h
      obtain ⟨hAB, rfl⟩ := ih
        (fun a' ha' => hend a' (ha'.imp (List.mem_append_left _) (List.mem_append_left _)))
        (fun a' ha' b' hb' => hitem a' (List.mem_append_left _ ha') b' (List.mem_append_left _ hb'))
        (lead_unique hspace hlead)
      exact ⟨hAB, rfl⟩

end Rows

/-! ## Values of every kind -/

/-- A document whose texts are units, without floating-point numbers. -/
inductive Value where
  | atom (v : Json) (hatom : IsAtom v)
  | str (s : List CodeUnit)
  | arr (items : List Value)
  | obj (entries : List (List CodeUnit × Value))

namespace Value

mutual

/-- The document on one line. -/
def text : Value → List Char
  | .atom v _ => v.text
  | .str s => quotedUnits s
  | .arr items => '[' :: [',', ' '].intercalate (itemTexts items) ++ [']']
  | .obj entries => '\x7b' :: [',', ' '].intercalate (entryTexts entries) ++ ['\x7d']

/-- The items, each on one line. -/
def itemTexts : List Value → List (List Char)
  | [] => []
  | item :: rest => item.text :: itemTexts rest

/-- The entries, each on one line. -/
def entryTexts : List (List CodeUnit × Value) → List (List Char)
  | [] => []
  | (key, value) :: rest => (quotedUnits key ++ [':', ' '] ++ value.text) :: entryTexts rest

end

/-- A written entry of an object. -/
def entryText (e : List CodeUnit × Value) : List Char :=
  quotedUnits e.1 ++ [':', ' '] ++ e.2.text

theorem text_arr (items : List Value) : (arr items).text = '[' :: row text items ++ [']'] := by
  have hitems : ∀ l, itemTexts l = l.map text := by
    intro l
    induction l with
    | nil => rw [itemTexts, List.map_nil]
    | cons v l ih => rw [itemTexts, ih, List.map_cons]
  rw [text, hitems, row]

theorem text_obj (entries : List (List CodeUnit × Value)) :
    (obj entries).text = '\x7b' :: row entryText entries ++ ['\x7d'] := by
  have hentries : ∀ l, entryTexts l = l.map entryText := by
    intro l
    induction l with
    | nil => rw [entryTexts, List.map_nil]
    | cons e l ih => rw [entryTexts, ih, List.map_cons, entryText]
  rw [text, hentries, row]

/-- The mark at the end of a written value, if there is one. -/
def closing : Value → Option Char
  | .atom .. => none
  | .str _ => some '"'
  | .arr _ => some ']'
  | .obj _ => some '\x7d'

theorem text_ending (v : Value) :
    ∃ X c, v.text = X ++ [c] ∧ c ∉ [' ', '[', '\x7b'] ∧
      v.closing = if c ∈ ['"', ']', '\x7d'] then some c else none := by
  cases v with
  | atom v hatom =>
    rw [text]
    rcases List.eq_nil_or_concat v.text with hnil | ⟨X, c, hX⟩
    · exact absurd hnil (text_atom_ne_nil hatom)
    · rw [List.concat_eq_append] at hX
      have hmark : c ∉ marks := fun hc => not_mem_text_of_atom hatom hc (by rw [hX]; simp)
      refine ⟨X, c, hX, fun hc => hmark (opening_mem_marks hc), ?_⟩
      rw [closing, if_neg fun hc => hmark (closing_mem_marks hc)]
  | str s => exact ⟨'"' :: s.flatMap escapedUnit, '"', by rw [text, quotedUnits], by decide, rfl⟩
  | arr => exact ⟨_, ']', text_arr _, by decide, rfl⟩
  | obj => exact ⟨_, '\x7d', text_obj _, by decide, rfl⟩

theorem closing_eq {v w : Value} {A B : List Char} (h : A ++ v.text = B ++ w.text) :
    v.closing = w.closing := by
  obtain ⟨X, c, hX, -, hc⟩ := text_ending v
  obtain ⟨Y, d, hY, -, hd⟩ := text_ending w
  rw [hX, hY, ← List.append_assoc, ← List.append_assoc] at h
  rw [hc, hd, (List.append_singleton_inj.mp h).2]

/-- A value is known from its end, whatever else is written so. -/
def Known (v : Value) : Prop :=
  ∀ w A B, Opens A → Opens B → A ++ v.text = B ++ w.text → A = B ∧ v = w

theorem items_unique {l m : List Value} (hknown : ∀ v ∈ l, Known v) {A B : List Char}
    (h : A ++ (arr l).text = B ++ (arr m).text) : A = B ∧ l = m := by
  rw [text_arr, text_arr, ← List.append_assoc, ← List.append_assoc] at h
  refine row_unique (by decide) (fun v _ => ?_) (fun v hv w _ A B hA hB => ?_)
    (List.append_cancel_right h)
  · obtain ⟨X, c, hX, hc, -⟩ := text_ending v
    exact ⟨X, c, hX, fun hbracket => hc (by simp [hbracket])⟩
  · exact hknown v hv w A B hA hB

theorem entries_unique {l m : List (List CodeUnit × Value)} (hknown : ∀ e ∈ l, Known e.2)
    {A B : List Char} (h : A ++ (obj l).text = B ++ (obj m).text) : A = B ∧ l = m := by
  rw [text_obj, text_obj, ← List.append_assoc, ← List.append_assoc] at h
  refine row_unique (by decide) (fun e _ => ?_) (fun e he e' _ A B hA hB hentry => ?_)
    (List.append_cancel_right h)
  · obtain ⟨X, c, hX, hc, -⟩ := text_ending e.2
    refine ⟨quotedUnits e.1 ++ [':', ' '] ++ X, c, ?_, fun hbracket => hc (by simp [hbracket])⟩
    rw [entryText, hX, List.append_assoc _ X]
  · have hopens : ∀ (A : List Char) (key : List CodeUnit),
        Opens (A ++ quotedUnits key ++ [':', ' ']) := fun A key =>
      ⟨A ++ quotedUnits key ++ [':'], ' ', by simp, by decide⟩
    rw [entryText, entryText] at hentry
    simp only [← List.append_assoc] at hentry
    obtain ⟨hkey, hvalue⟩ := hknown e he e'.2 _ _ (hopens A e.1) (hopens B e'.1) hentry
    obtain ⟨hAB, hname⟩ := quotedUnits_unique hA hB (List.append_cancel_right hkey)
    exact ⟨hAB, Prod.ext hname hvalue⟩

theorem known_atom {v : Json} (hatom : IsAtom v) : Known (.atom v hatom) := by
  intro w A B hA hB h
  have hclosing := closing_eq h
  cases w with
  | atom w hatom' =>
    rw [text, text] at h
    obtain ⟨hAB, rfl⟩ := atom_unique hatom hatom' hA hB h
    exact ⟨hAB, rfl⟩
  | _ => cases hclosing

theorem known_str (s : List CodeUnit) : Known (.str s) := by
  intro w A B hA hB h
  have hclosing := closing_eq h
  cases w with
  | str t =>
    rw [text, text] at h
    obtain ⟨hAB, rfl⟩ := quotedUnits_unique hA hB h
    exact ⟨hAB, rfl⟩
  | _ => cases hclosing

theorem known_arr {items : List Value} (hitems : ∀ v ∈ items, Known v) : Known (.arr items) := by
  intro w A B _ _ h
  have hclosing := closing_eq h
  cases w with
  | arr items' =>
    obtain ⟨hAB, rfl⟩ := items_unique hitems h
    exact ⟨hAB, rfl⟩
  | _ => cases hclosing

theorem known_obj {entries : List (List CodeUnit × Value)} (hentries : ∀ e ∈ entries, Known e.2) :
    Known (.obj entries) := by
  intro w A B _ _ h
  have hclosing := closing_eq h
  cases w with
  | obj entries' =>
    obtain ⟨hAB, rfl⟩ := entries_unique hentries h
    exact ⟨hAB, rfl⟩
  | _ => cases hclosing

mutual

/-- A value after a blank or an opening bracket is known from its end. -/
theorem known : ∀ v : Value, Known v
  | .atom _ hatom => known_atom hatom
  | .str s => known_str s
  | .arr items => known_arr (known_items items)
  | .obj entries => known_obj (known_entries entries)

theorem known_items : ∀ items : List Value, ∀ v ∈ items, Known v
  | [] => List.forall_mem_nil _
  | v :: rest => List.forall_mem_cons.mpr ⟨known v, known_items rest⟩

theorem known_entries : ∀ entries : List (List CodeUnit × Value), ∀ e ∈ entries, Known e.2
  | [] => List.forall_mem_nil _
  | (_, value) :: rest => List.forall_mem_cons.mpr ⟨known value, known_entries rest⟩

end

/-- An object after anything is known from its end. -/
theorem obj_unique {l m : List (List CodeUnit × Value)} {A B : List Char}
    (h : A ++ (obj l).text = B ++ (obj m).text) : A = B ∧ l = m :=
  entries_unique (fun e _ => known e.2) h

end Value

/-! ## Documents whose texts are strings -/

/-- Documents that are written alike: one holds strings, the other one units. -/
def Spells (v : Value) (j : Json) : Prop := v.text = j.text

namespace Spells

theorem atom {j : Json} (hatom : IsAtom j) : Spells (.atom j hatom) j := by rw [Spells, Value.text]

theorem str (s : String) : Spells (.str (units (points s))) (.str s) := by
  rw [Spells, Value.text, ← quoted_eq, text, line]

theorem arr {values : List Value} {items : List Json} (h : List.Forall₂ Spells values items) :
    Spells (.arr values) (.arr items) := by
  have hitems : row Value.text values =
      [',', ' '].intercalate ((lineItems items).map (·.toList)) := by
    refine congrArg ([',', ' '].intercalate ·) ?_
    induction h with
    | nil => rw [lineItems, List.map_nil, List.map_nil]
    | cons hfirst _ ih =>
      rw [lineItems, List.map_cons, List.map_cons, ih]
      exact congrArg (· :: _) hfirst
  rw [Spells, Value.text_arr, hitems, text, line]
  simp only [String.toList_append, String.toList_intercalate]
  rfl

theorem obj {values : List (List CodeUnit × Value)} {entries : List (String × Json)}
    (h : List.Forall₂ (fun v e => v.1 = units (points e.1) ∧ Spells v.2 e.2) values entries) :
    Spells (.obj values) (.obj entries) := by
  have hentries : row Value.entryText values =
      [',', ' '].intercalate ((lineEntries entries).map (·.toList)) := by
    refine congrArg ([',', ' '].intercalate ·) ?_
    induction h with
    | nil => rw [lineEntries, List.map_nil, List.map_nil]
    | cons hfirst _ ih =>
      have hvalue : Value.text _ = text _ := hfirst.2
      rw [lineEntries, List.map_cons, List.map_cons, ih, Value.entryText, hfirst.1, hvalue,
        ← quoted_eq, text, String.toList_append, String.toList_append]
      rfl
  rw [Spells, Value.text_obj, hentries, text, line]
  simp only [String.toList_append, String.toList_intercalate]
  rfl

end Spells

end Cartridge.Json
