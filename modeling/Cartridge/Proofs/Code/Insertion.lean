import Cartridge.Proofs.Code.Declarations

/-!
# Hints and declarations

A hint begins with a word that no declaration of a variable has inside it, and so do the
declarations that want a hint. So a declaration of a variable has no mark inside, and it is in the
code with its hints if it is in the code, unless the hint comes between the address and the name.

* `not_inside_byte`, `not_inside_place`: what begins inside no declaration.
* `shown_of_plain`, `shown_of_woven`: a declaration by its marks.
* `somewhere_insert_iff`: the declarations in the code with its hints.
-/

namespace Cartridge.Code

open Marked

/-! ## What begins inside a declaration -/

/-- The hints, each with the first letter of what it stands before, and the first words of the
declarations that want one. -/
def leads : List (List Char) :=
  ["__at(0xFF80) u", "__code c", "register u", "unsigned char ", "const char "].map String.toList

section Leads

variable {lead : List Char} (hlead : lead ∈ leads)

theorem clear_of_endsName {rest : List Char} (h : endsName rest = true) : Clear rest := by
  cases rest with
  | nil => rfl
  | cons c rest =>
    by_cases hc : c = ' '
    · subst hc
      exact Text.not_word (by decide)
    · rw [endsName, List.dropWhile_cons_of_neg (by simpa using hc)] at h
      show Text.isWord c = false
      simpa using (Bool.and_eq_true_iff.mp h).1

theorem dropWhile_word {w rest : List Char} (hw : ∀ c ∈ w, Text.isWord c = true) (h : Clear rest) :
    (w ++ rest).dropWhile Text.isWord = rest := by
  rw [List.dropWhile_append_of_pos hw]
  cases rest with
  | nil => rfl
  | cons c rest => exact List.dropWhile_cons_of_neg (by simpa [Clear] using h)

theorem endsName_append_of_ne {tail : List Char} (h : tail.dropWhile (· == ' ') ≠ [])
    (rest : List Char) : endsName (tail ++ rest) = endsName tail := by
  induction tail with
  | nil => exact absurd rfl h
  | cons c tail ih =>
    by_cases hc : c = ' '
    · subst hc
      exact ih h
    · simp [endsName, hc]

include hlead

theorem not_prefix_of_word {w rest : List Char} (hw : ∀ c ∈ w, Text.isWord c = true)
    (hend : endsName rest = true) : ¬ lead <+: w ++ rest := by
  have hfacts : ∀ lead ∈ leads, (lead.dropWhile Text.isWord).dropWhile (· == ' ') ≠ [] ∧
      endsName (lead.dropWhile Text.isWord) = false := by decide +kernel
  obtain ⟨hne, hnot⟩ := hfacts lead hlead
  rintro ⟨others, hsplit⟩
  have hrest : lead.dropWhile Text.isWord ++ others = rest := by
    have htail : (lead.dropWhile Text.isWord).isEmpty = false := by
      cases hdrop : lead.dropWhile Text.isWord with
      | nil =>
        rw [hdrop] at hne
        exact absurd rfl hne
      | cons c tail => rfl
    rw [← dropWhile_word hw (clear_of_endsName hend), ← hsplit, List.dropWhile_append, htail]
    rfl
  rw [← hrest, endsName_append_of_ne hne, hnot] at hend
  cases hend

theorem not_prefix_of_suffix {text part rest : List Char}
    (htext : text ∈ ["_at(".toList, "nsigned char ".toList, ") ".toList]) (hpart : part <:+ text)
    (hne : part ≠ []) : ¬ lead <+: part ++ rest := by
  have hfacts : ∀ lead ∈ leads, ∀ text ∈ ["_at(".toList, "nsigned char ".toList, ") ".toList],
      ∀ n < text.length, ¬ text.drop n <+: lead ∧ ¬ lead <+: text.drop n := by decide
  have hlength : 0 < part.length := List.length_pos_iff.mpr hne
  have hle := hpart.length_le
  obtain ⟨hshort, hlong⟩ := hfacts lead hlead text htext (text.length - part.length) (by omega)
  rw [← List.suffix_iff_eq_drop.mp hpart] at hshort hlong
  intro h
  rcases List.prefix_or_prefix_of_prefix h (List.prefix_append part rest) with h | h
  · exact hlong h
  · exact hshort h

theorem not_prefix_of_address {a rest : List Char} (ha : IsAddress a) :
    ¬ lead <+: a ++ ')' :: rest := by
  have hfacts : ∀ lead ∈ leads,
      (lead.dropWhile (· ∉ " ()".toList)).head?.any (· ≠ ')') = true := by decide
  have hlead := hfacts lead hlead
  rintro ⟨others, hsplit⟩
  have hin : ∀ c ∈ a, decide (c ∉ " ()".toList) = true := fun c hc => by
    have := ha c hc
    simp_all
  have hdrop : (a ++ ')' :: rest).dropWhile (· ∉ " ()".toList) = ')' :: rest := by
    rw [List.dropWhile_append_of_pos hin]
    exact List.dropWhile_cons_of_neg (by decide)
  rw [← hsplit, List.dropWhile_append] at hdrop
  cases hhead : lead.dropWhile (· ∉ " ()".toList) with
  | nil =>
    rw [hhead] at hlead
    cases hlead
  | cons c tail =>
    rw [hhead] at hlead hdrop
    obtain ⟨rfl, -⟩ := List.cons.inj hdrop
    simp at hlead

theorem not_inside_byte {name u w rest : List Char} (hname : IsName name)
    (hend : endsName rest = true) (hsplit : byte name = u ++ w) (hu : u ≠ []) :
    ¬ lead <+: w ++ rest := by
  cases u with
  | nil => exact absurd rfl hu
  | cons c u =>
    have hsplit : "nsigned char ".toList ++ name = u ++ w := (List.cons.inj hsplit).2
    rcases List.append_eq_append_iff.mp hsplit with ⟨inner, rfl, rfl⟩ | ⟨inner, htext, rfl⟩
    · exact not_prefix_of_word hlead (fun c hc => hname.2 c (List.mem_append_right _ hc)) hend
    · cases inner with
      | nil => exact not_prefix_of_word hlead hname.2 hend
      | cons d inner =>
        rw [List.append_assoc]
        exact not_prefix_of_suffix hlead (by simp) ⟨u, htext.symm⟩ (by simp)

theorem not_inside_place {address u w rest : List Char} (haddress : IsAddress address)
    (hsplit : place address = u ++ w) (hu : u ≠ []) (hw : w ≠ []) : ¬ lead <+: w ++ rest := by
  cases u with
  | nil => exact absurd rfl hu
  | cons c u =>
    have hsplit : "_at(".toList ++ (address ++ ") ".toList) = u ++ w := (List.cons.inj hsplit).2
    rcases List.append_eq_append_iff.mp hsplit with ⟨inner, rfl, hinner⟩ | ⟨inner, htext, rfl⟩
    · rcases List.append_eq_append_iff.mp hinner with ⟨inner, rfl, htext⟩ | ⟨inner, rfl, rfl⟩
      · exact not_prefix_of_suffix hlead (by simp) ⟨inner, htext.symm⟩ hw
      · rw [List.append_assoc]
        exact not_prefix_of_address hlead fun c hc => haddress c (List.mem_append_right _ hc)
    · cases inner with
      | nil =>
        rw [List.nil_append, List.append_assoc]
        exact not_prefix_of_address hlead haddress
      | cons d inner =>
        rw [List.append_assoc]
        exact not_prefix_of_suffix hlead (by simp) ⟨u, htext.symm⟩ (by simp)

end Leads

/-! ## Declarations and marks -/

/-- What is read at each mark, with the hint or without, is one of the leads. -/
def Led (text : List Char) (m : Marked) : Prop :=
  ∀ m₁ c m₂, m = m₁ ++ (true, c) :: m₂ →
    c ≠ '_' ∧ ∃ lead ∈ leads, lead <+: text ++ c :: woven text m₂

/-- A variable's declaration by its marks: there is none but in front of the declaration itself. -/
def Shown (m m₁ m₂ : Marked) (front : List Char) (b : Bool) (name : List Char) : Prop :=
  m = m₁ ++ (unmarked front ++ (b, 'u') :: (unmarked ("nsigned char ".toList ++ name) ++ m₂))

/-- The hints, in the order in which they are put in. -/
def hints : List Hint := [stateHint, constantHint, registerHint]

/-- Placement puts the headers first and then one hint after the other. -/
theorem toList_placed (code : String) : (placed code).toList =
    registerHint.insert (constantHint.insert (stateHint.insert (withHeaders code).toList)) := by
  rw [placed, String.toList_ofList, List.foldl_cons, List.foldl_cons, List.foldl_cons,
    List.foldl_nil]

section Led

variable {text : List Char} {m : Marked}

theorem Led.of_append {m₁ m₂ : Marked} (h : Led text (m₁ ++ m₂)) : Led text m₂ :=
  fun n₁ c n₂ hsplit => h (m₁ ++ n₁) c n₂ (by rw [hsplit, List.append_assoc])

theorem Led.tail {x : Bool × Char} (h : Led text (x :: m)) : Led text m :=
  (show Led text ([x] ++ m) from h).of_append

theorem woven_byte (hled : Led text m) (htext : text.head? ≠ some 'u') {name rest : List Char}
    (hname : IsName name) (hend : endsName rest = true) (h : woven text m = byte name ++ rest) :
    ∃ b m₂, (b = true → text = []) ∧ Shown m [] m₂ [] b name ∧ rest = woven text m₂ := by
  cases m with
  | nil => cases h
  | cons c m =>
    obtain ⟨b, c⟩ := c
    have hfront : (b = true → text = []) ∧ c = 'u' ∧
        woven text m = ("nsigned char ".toList ++ name) ++ rest := by
      cases b with
      | false =>
        obtain ⟨hc, h⟩ := List.cons.inj h
        exact ⟨by simp, hc, h⟩
      | true =>
        rw [woven_true] at h
        cases text with
        | nil =>
          obtain ⟨hc, h⟩ := List.cons.inj h
          exact ⟨by simp, hc, h⟩
        | cons d text =>
          obtain ⟨rfl, -⟩ := List.cons.inj h
          exact absurd rfl htext
    obtain ⟨hb, rfl, htail⟩ := hfront
    rcases woven_eq_piece htail with ⟨m₂, rfl, hrest⟩ | ⟨u, w, c, m₂, hsplit, -, rfl, hinside⟩
    · exact ⟨b, m₂, hb, rfl, hrest⟩
    · obtain ⟨-, lead, hlead, hbegins⟩ := hled ((b, 'u') :: unmarked u) c m₂ rfl
      rw [← hinside] at hbegins
      refine absurd hbegins (not_inside_byte hlead hname hend (u := 'u' :: u) ?_ (by simp))
      exact congrArg (List.cons 'u') hsplit

theorem woven_place (hled : Led text m) {address rest : List Char} (haddress : IsAddress address)
    (h : woven text m = place address ++ rest) :
    (∃ m₂, m = unmarked (place address) ++ m₂ ∧ rest = woven text m₂) ∨
      ∃ c m₂, m = (true, c) :: m₂ ∧ place address ++ rest = text ++ c :: woven text m₂ := by
  rcases woven_eq_piece h with hplain | ⟨u, w, c, m₂, hsplit, hw, rfl, hinside⟩
  · exact .inl hplain
  · cases u with
    | nil =>
      rw [List.nil_append] at hsplit
      exact .inr ⟨c, m₂, rfl, by rw [hsplit, hinside]⟩
    | cons d u =>
      obtain ⟨-, lead, hlead, hbegins⟩ := hled (unmarked (d :: u)) c m₂ rfl
      rw [← hinside] at hbegins
      exact absurd hbegins (not_inside_place hlead haddress hsplit (by simp) hw)

/-- A declaration in the code without the hints, by its marks. -/
theorem shown_of_plain (hled : Led [] m) {front before name rest : List Char}
    (hfront : front = [] ∨ ∃ address, IsAddress address ∧ front = place address)
    (hname : IsName name) (hend : endsName rest = true)
    (h : plain m = before ++ (front ++ (byte name ++ rest))) :
    ∃ b m₁ m₂, Shown m m₁ m₂ front b name ∧ before = plain m₁ ∧ rest = plain m₂ := by
  generalize htail : front ++ (byte name ++ rest) = tail at h
  rw [← woven_nil] at h
  cases cut_of_woven h with
  | inside m₁ c m₂ htext hne => exact absurd (List.append_eq_nil_iff.mp htext.symm).1 hne
  | between m₁ m₂ =>
    have hled := hled.of_append
    obtain ⟨m₃, rfl, hbyte⟩ :
        ∃ m₃, m₂ = unmarked front ++ m₃ ∧ byte name ++ rest = woven [] m₃ := by
      rcases hfront with rfl | ⟨address, haddress, rfl⟩
      · exact ⟨m₂, rfl, htail⟩
      · rcases woven_place hled haddress htail.symm with hplain | ⟨c, m₃, rfl, hmark⟩
        · exact hplain
        · exact absurd (List.cons.inj hmark).1.symm (hled [] c m₃ rfl).1
    obtain ⟨b, m₄, -, hshown, hrest⟩ :=
      woven_byte hled.of_append (by simp) hname hend hbyte.symm
    rw [Shown] at hshown
    refine ⟨b, m₁, m₄, ?_, woven_nil m₁, hrest.trans (woven_nil m₄)⟩
    rw [Shown, hshown]
    rfl

/-- A declaration in the code with the hints: it was there, or a hint made it. -/
theorem shown_of_woven {h : Hint} (hh : h ∈ hints) (hled : Led h.text.toList m)
    {address before name rest : List Char} (haddress : IsAddress address) (hname : IsName name)
    (hend : endsName rest = true)
    (hwoven : woven h.text.toList m = before ++ (place address ++ (byte name ++ rest))) :
    ∃ m₁ m₂, before = woven h.text.toList m₁ ∧ rest = woven h.text.toList m₂ ∧
      (Shown m m₁ m₂ (place address) false name ∨
        h.text.toList = place fast ∧ address = fast ∧ Shown m m₁ m₂ [] true name) := by
  have hfacts : ∀ h ∈ hints, (∀ n < h.text.toList.length, 0 < n →
        ¬ h.text.toList.drop n <+: "__at(".toList ∧ ¬ "__at(".toList <+: h.text.toList.drop n) ∧
      h.text.toList.head? ≠ some 'u' ∧ h.text.toList ≠ [] ∧ (h.text.toList = place fast ∨
        ¬ h.text.toList <+: "__at(".toList ∧ ¬ "__at(".toList <+: h.text.toList) := by decide
  obtain ⟨hinside, hu, hne, hstart⟩ := hfacts h hh
  generalize h.text.toList = text at *
  generalize htail : place address ++ (byte name ++ rest) = tail at hwoven
  have hat : "__at(".toList <+: tail := by
    have hplace : "__at(".toList <+: place address := List.prefix_append _ _
    rw [← htail]
    exact hplace.trans (List.prefix_append _ _)
  cases cut_of_woven hwoven with
  | @inside m₁ c m₂ t₁ t₂ htext hpos =>
    exfalso
    cases t₂ with
    | nil =>
      obtain ⟨others, hothers⟩ := hat
      exact (hled m₁ c m₂ rfl).1 (List.cons.inj hothers).1.symm
    | cons d t₂ =>
      have hlt : t₁.length < text.length := by
        rw [htext]
        simp
      obtain ⟨hshort, hlong⟩ := hinside t₁.length hlt (List.length_pos_iff.mpr hpos)
      rw [htext, List.drop_left] at hshort hlong
      rcases List.prefix_or_prefix_of_prefix hat (List.prefix_append (d :: t₂) _) with hat | hat
      · exact hlong hat
      · exact hshort hat
  | between m₁ m₂ =>
    have hled := hled.of_append
    rcases woven_place hled haddress htail.symm with ⟨m₃, rfl, hbyte⟩ | ⟨c, m₃, rfl, hmark⟩
    · obtain ⟨b, m₄, hb, hshown, hrest⟩ := woven_byte hled.of_append hu hname hend hbyte.symm
      have hb : b = false := Bool.eq_false_iff.mpr fun h => hne (hb h)
      rw [Shown, hb] at hshown
      refine ⟨m₁, m₄, rfl, hrest, .inl ?_⟩
      rw [Shown, hshown]
      rfl
    · rcases hstart with rfl | ⟨hshort, hlong⟩
      · have hsame : address ++ ')' :: ' ' :: (byte name ++ rest) =
            fast ++ ')' :: ' ' :: c :: woven (place fast) m₃ := by
          rw [place_append, place_append] at hmark
          exact List.append_cancel_left hmark
        obtain ⟨rfl, hbehind⟩ := Text.append_cons_inj (fun hmem => haddress _ hmem (by decide))
          (by decide) hsame
        have hbyte : byte name ++ rest = woven (place fast) ((false, c) :: m₃) :=
          (List.cons.inj hbehind).2
        have hled : Led (place fast) ((false, c) :: m₃) := by
          intro n₁ d n₂ hsplit
          cases n₁ with
          | nil => cases hsplit
          | cons e n₁ => exact hled ((true, c) :: n₁) d n₂ (by rw [(List.cons.inj hsplit).2]; rfl)
        obtain ⟨b, m₄, -, hshown, hrest⟩ := woven_byte hled hu hname hend hbyte.symm
        obtain ⟨hhead, hplain⟩ := List.cons.inj hshown
        obtain ⟨-, rfl⟩ := Prod.mk.inj hhead
        refine ⟨m₁, m₄, rfl, hrest, .inr ⟨rfl, rfl, ?_⟩⟩
        rw [Shown, hplain]
        rfl
      · exfalso
        rw [← htail, hmark] at hat
        rcases List.prefix_or_prefix_of_prefix hat (List.prefix_append text _) with hat | hat
        · exact hlong hat
        · exact hshort hat

end Led

/-! ## The hints put in -/

theorem guided_split {h : Hint} {before : List Char} {m₁ m₂ : Marked}
    (hguided : Guided h before (m₁ ++ m₂)) : Guided h ((plain m₁).reverse ++ before) m₂ := by
  induction m₁ generalizing before with
  | nil => exact hguided
  | cons x m₁ ih =>
    have hrest : Guided h (x.2 :: before) (m₁ ++ m₂) := by
      cases hguided with
      | plain _ rest => exact rest
      | hint _ rest => exact rest
    have hsplit := ih hrest
    rw [show plain (x :: m₁) = x.2 :: plain m₁ from rfl, List.reverse_cons, List.append_assoc]
    exact hsplit

theorem keyword_of_mem_hints {h : Hint} (hh : h ∈ hints) {before ahead : List Char}
    (hwants : h.Wants before ahead) :
    ∃ c ∈ ['u', 'c'], ahead.head? = some c ∧ h.text.toList ++ [c] ∈ leads ∧
      ∃ lead ∈ leads, lead <+: ahead := by
  have hfound (keyword : List Char) (hkeyword : keyword ∈ leads)
      (hspells : ∀ before piece after, h.declaration.Spells before piece after →
        keyword <+: piece) : ∃ others, ahead = keyword ++ others := by
    obtain ⟨others, hothers⟩ := keyword_of_wants hspells hwants
    exact ⟨others, hothers.symm⟩
  simp only [hints, List.mem_cons, List.not_mem_nil, or_false] at hh
  rcases hh with rfl | rfl | rfl
  · obtain ⟨others, rfl⟩ := hfound "unsigned char ".toList (by decide)
      fun _ _ _ hpiece => by
        obtain ⟨name, -, rfl⟩ := stateHint_spells.mp hpiece
        exact List.prefix_append _ _
    exact ⟨'u', by decide, rfl, by decide, _, by decide, List.prefix_append _ _⟩
  · obtain ⟨others, rfl⟩ := hfound "const char ".toList (by decide)
      fun _ _ _ hpiece => by
        obtain ⟨name, -, rfl⟩ := constantHint_spells.mp hpiece
        exact List.prefix_append _ _
    exact ⟨'c', by decide, rfl, by decide, _, by decide, List.prefix_append _ _⟩
  · obtain ⟨others, rfl⟩ := hfound "unsigned char ".toList (by decide)
      fun _ _ _ hpiece => by
        obtain ⟨name, size, -, -, -, rfl⟩ := registerHint_spells.mp hpiece
        exact List.prefix_append _ _
    exact ⟨'u', by decide, rfl, by decide, _, by decide, List.prefix_append _ _⟩

theorem led_of_guided {h : Hint} (hh : h ∈ hints) {m : Marked} (hguided : Guided h [] m) :
    Led h.text.toList m ∧ Led [] m := by
  have hmark : ∀ m₁ c m₂, m = m₁ ++ (true, c) :: m₂ → c ≠ '_' ∧
      h.text.toList ++ [c] ∈ leads ∧ ∃ lead ∈ leads, lead <+: c :: plain m₂ := by
    rintro m₁ c m₂ rfl
    cases (guided_split hguided) with
    | hint hwants _ =>
      obtain ⟨d, hd, hhead, htext, hkeyword⟩ := keyword_of_mem_hints hh hwants
      cases hhead
      refine ⟨?_, htext, hkeyword⟩
      rintro rfl
      exact absurd hd (by decide)
  constructor
  · intro m₁ c m₂ hsplit
    obtain ⟨hc, htext, -⟩ := hmark m₁ c m₂ hsplit
    exact ⟨hc, _, htext, woven h.text.toList m₂, by simp⟩
  · intro m₁ c m₂ hsplit
    obtain ⟨hc, -, hkeyword⟩ := hmark m₁ c m₂ hsplit
    rw [woven_nil]
    exact ⟨hc, hkeyword⟩

section Context

variable {text : List Char} {m : Marked}

theorem clear_woven (m : Marked) :
    Clear (woven text m).reverse ↔ Clear (plain m).reverse := by
  rcases List.eq_nil_or_concat m with rfl | ⟨m, ⟨b, c⟩, rfl⟩
  · rfl
  · rw [List.concat_eq_append, woven_append, plain_append, List.reverse_append, List.reverse_append]
    cases b with
    | false => rfl
    | true =>
      rw [woven_true, List.reverse_append]
      rfl

theorem endsName_of_lead {lead rest : List Char} (hlead : lead ∈ leads) (h : lead <+: rest) :
    endsName rest = false := by
  refine Bool.eq_false_iff.mpr fun hend => ?_
  exact not_prefix_of_word hlead (w := []) (by simp) hend h

theorem endsName_woven (hled : Led text m) (hplain : Led [] m) :
    endsName (woven text m) = endsName (plain m) := by
  induction m with
  | nil => rfl
  | cons x m ih =>
    obtain ⟨b, c⟩ := x
    cases b with
    | true =>
      obtain ⟨-, lead, hlead, hbegins⟩ := hled [] c m rfl
      obtain ⟨-, lead', hlead', hbegins'⟩ := hplain [] c m rfl
      rw [woven_nil] at hbegins'
      rw [woven_true, endsName_of_lead hlead hbegins]
      exact (endsName_of_lead hlead' hbegins').symm
    | false =>
      have ih := ih hled.tail hplain.tail
      show endsName (c :: woven text m) = endsName (c :: plain m)
      by_cases hc : c = ' '
      · subst hc
        exact ih
      · simp [endsName, hc]

theorem tiny_woven (hled : Led text m) : Tiny (woven text m) ↔
    ∃ size m₂, m = unmarked ['[', size, ']'] ++ m₂ ∧ '1' ≤ size ∧ size ≤ '4' := by
  constructor
  · rintro ⟨size, tail, htiny, hsize⟩
    have hpiece : woven text m = ['[', size, ']'] ++ tail := htiny
    rcases woven_eq_piece hpiece with ⟨m₂, rfl, -⟩ | ⟨u, w, c, m₂, hsplit, hw, rfl, hinside⟩
    · exact ⟨size, m₂, rfl, hsize⟩
    · exfalso
      obtain ⟨-, lead, hlead, hbegins⟩ := hled (unmarked u) c m₂ rfl
      rw [← hinside] at hbegins
      have hfacts : ∀ lead ∈ leads, lead.head?.any fun c =>
          c ≠ '[' ∧ c ≠ ']' ∧ ¬ ('1' ≤ c ∧ c ≤ '4') := by decide
      have hhead := hfacts lead hlead
      cases w with
      | nil => exact hw rfl
      | cons d w =>
        obtain ⟨others, hothers⟩ := hbegins
        have hd : d ∈ ['[', size, ']'] := by simp [hsplit]
        cases lead with
        | nil => cases hhead
        | cons e lead =>
          obtain ⟨rfl, -⟩ := List.cons.inj hothers
          have hhead : e ≠ '[' ∧ e ≠ ']' ∧ ¬ ('1' ≤ e ∧ e ≤ '4') := of_decide_eq_true hhead
          simp only [List.mem_cons, List.not_mem_nil, or_false] at hd
          rcases hd with rfl | rfl | rfl
          · exact hhead.1 rfl
          · exact hhead.2.2 hsize
          · exact hhead.2.1 rfl
  · rintro ⟨size, m₂, rfl, hsize⟩
    refine ⟨size, woven text m₂, ?_, hsize⟩
    rw [woven_append, woven_unmarked]
    rfl

/-- What holds of a place in the code holds of it after the hints are put in. -/
def Lasts (holds : List Char → List Char → Prop) : Prop :=
  ∀ text m₁ m₂, Led text m₂ → Led [] m₂ →
    (holds (woven text m₁) (woven text m₂) ↔ holds (plain m₁) (plain m₂))

theorem whole_lasts : Lasts Whole := fun text m₁ m₂ hled hplain => by
  rw [Whole, clear_woven, endsName_woven hled hplain, Whole]

theorem large_lasts : Lasts Large := fun text m₁ m₂ hled hplain => by
  rw [Large, whole_lasts text m₁ m₂ hled hplain, tiny_woven hled, ← tiny_woven hplain, woven_nil,
    Large]

end Context

section Shown

variable {h : Hint} {m m₁ m₂ : Marked} {front name : List Char} {b : Bool}

theorem byte_eq_cons (name : List Char) : byte name = 'u' :: ("nsigned char ".toList ++ name) := rfl

theorem plain_of_shown (hshown : Shown m m₁ m₂ front b name) :
    plain m = plain m₁ ++ (front ++ (byte name ++ plain m₂)) := by
  rw [hshown, plain_append, plain_append, plain_unmarked, byte_eq_cons]
  show _ ++ (_ ++ 'u' :: plain (unmarked _ ++ m₂)) = _
  rw [plain_append, plain_unmarked]
  rfl

theorem woven_of_shown {text : List Char} (hshown : Shown m m₁ m₂ front b name) :
    woven text m = woven text m₁ ++
      (front ++ ((if b then text else []) ++ (byte name ++ woven text m₂))) := by
  rw [hshown, woven_append, woven_append, woven_unmarked, byte_eq_cons]
  cases b with
  | true =>
    rw [woven_true, woven_append, woven_unmarked]
    rfl
  | false =>
    rw [woven_false, woven_append, woven_unmarked]
    rfl

/-- A declaration that begins a word has a hint if it wants one. -/
theorem hint_iff_wants (hguided : Guided h [] m) (hshown : Shown m m₁ m₂ front b name)
    (hclear : Clear (plain m₁ ++ front).reverse) :
    b = true ↔ h.Wants (plain m₁ ++ front).reverse (byte name ++ plain m₂) := by
  have hsplit : m = (m₁ ++ unmarked front) ++
      (b, 'u') :: (unmarked ("nsigned char ".toList ++ name) ++ m₂) := by
    rw [List.append_assoc]
    exact hshown
  rw [hsplit] at hguided
  have hhere := guided_split hguided
  rw [plain_append, plain_unmarked, List.append_nil] at hhere
  have hahead : 'u' :: plain (unmarked ("nsigned char ".toList ++ name) ++ m₂) =
      byte name ++ plain m₂ := by
    rw [plain_append, plain_unmarked]
    rfl
  cases hhere with
  | plain hnot _ =>
    rw [hahead] at hnot
    simpa using hnot hclear
  | hint hwants _ =>
    rw [hahead] at hwants
    simpa using hwants

end Shown

theorem clear_behind_place (before address : List Char) :
    Clear (before ++ place address).reverse := by
  have hsplit : before ++ place address =
      (before ++ ("__at(".toList ++ (address ++ [')']))) ++ [' '] := by
    simp [place]
  rw [hsplit, List.reverse_append]
  exact Text.not_word (by decide)

theorem solid_of_mem_hints {h : Hint} (hh : h ∈ hints) : h.Solid := by
  simp only [hints, List.mem_cons, List.not_mem_nil, or_false] at hh
  rcases hh with rfl | rfl | rfl
  · exact stateHint_solid
  · exact constantHint_solid
  · exact registerHint_solid

/-- A hint makes a declaration at an address exactly if it is the one of the game's state and the
declaration wants it, and it keeps the others that do not want it. -/
theorem somewhere_insert_iff {h : Hint} (hh : h ∈ hints) {holds : List Char → List Char → Prop}
    (hlasts : Lasts holds) (hwhole : ∀ before rest, holds before rest → Whole before rest)
    {address name : List Char} (haddress : IsAddress address) (hname : IsName name)
    (cs : List Char) :
    Somewhere (h.insert cs) (place address ++ byte name) holds ↔
      Somewhere cs (place address ++ byte name) (fun before rest => holds before rest ∧
          ¬ h.Wants (before ++ place address).reverse (byte name ++ rest)) ∨
        h.text.toList = place fast ∧ address = fast ∧ Somewhere cs (byte name) fun before rest =>
          holds before rest ∧ h.Wants before.reverse (byte name ++ rest) := by
  obtain ⟨m, hmarks, rfl, hwoven⟩ := exists_marks h.wanted h.text.toList cs
  have hguided : Guided h [] m := guided_of_marks (solid_of_mem_hints hh) hmarks
  obtain ⟨hled, hplain⟩ := led_of_guided hh hguided
  have hlasts' {m₁ m₂ : Marked} {front : List Char} {b : Bool}
      (hshown : Shown m m₁ m₂ front b name) :
      holds (woven h.text.toList m₁) (woven h.text.toList m₂) ↔ holds (plain m₁) (plain m₂) := by
    have hsplit : m = (m₁ ++ (unmarked front ++
        (b, 'u') :: unmarked ("nsigned char ".toList ++ name))) ++ m₂ := by
      simpa [Shown] using hshown
    rw [hsplit] at hled hplain
    exact hlasts _ m₁ m₂ hled.of_append hplain.of_append
  rw [Hint.insert, ← hwoven]
  constructor
  · rintro ⟨before, rest, hsplit, hholds⟩
    rw [List.append_assoc] at hsplit
    obtain ⟨m₁, m₂, rfl, rfl, hshown⟩ :=
      shown_of_woven hh hled haddress hname (hwhole _ _ hholds).2 hsplit
    rcases hshown with hshown | ⟨htext, rfl, hshown⟩
    · refine .inl ⟨plain m₁, plain m₂, ?_, (hlasts' hshown).mp hholds, ?_⟩
      · rw [plain_of_shown hshown, List.append_assoc]
      · have hiff := hint_iff_wants hguided hshown (clear_behind_place _ _)
        exact fun hwants => absurd (hiff.mpr hwants) (by decide)
    · have hplaced := (hlasts' hshown).mp hholds
      refine .inr ⟨htext, rfl, plain m₁, plain m₂, plain_of_shown hshown, hplaced, ?_⟩
      have hiff := hint_iff_wants hguided hshown (by simpa using (hwhole _ _ hplaced).1)
      simpa using hiff.mp rfl
  · rintro (⟨before, rest, hsplit, hholds, hnot⟩ |
      ⟨htext, rfl, before, rest, hsplit, hholds, hwants⟩)
    · rw [List.append_assoc] at hsplit
      obtain ⟨b, m₁, m₂, hshown, rfl, rfl⟩ := shown_of_plain hplain (.inr ⟨address, haddress, rfl⟩)
        hname (hwhole _ _ hholds).2 hsplit
      have hiff := hint_iff_wants hguided hshown (clear_behind_place _ _)
      have hb : b = false := Bool.eq_false_iff.mpr fun hb => hnot (hiff.mp hb)
      refine ⟨_, _, ?_, (hlasts' hshown).mpr hholds⟩
      rw [woven_of_shown hshown, hb, List.append_assoc]
      rfl
    · obtain ⟨b, m₁, m₂, hshown, rfl, rfl⟩ :=
        shown_of_plain hplain (.inl rfl) hname (hwhole _ _ hholds).2 hsplit
      have hiff := hint_iff_wants hguided hshown (by simpa using (hwhole _ _ hholds).1)
      have hb : b = true := hiff.mpr (by simpa using hwants)
      refine ⟨_, _, ?_, (hlasts' hshown).mpr hholds⟩
      rw [woven_of_shown hshown, hb, htext, List.append_assoc]
      rfl

end Cartridge.Code
