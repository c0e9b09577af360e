import Cartridge.Code.Placement
import Cartridge.Proofs.Pattern.Spelling

/-!
# Where hints are put

Hints are put in front of characters of the code and nothing else happens to it. So the code with
its hints is the code with a mark on each character that got one.

* `Marked`: code with marks, read without the hints and with them.
* `cut_of_woven`, `woven_eq_piece`: places and pieces of the code with its hints.
* `Marks`, `exists_marks`: the marks that a hint leaves.
* `stateHint_spells`, `constantHint_spells`, `registerHint_spells`: the declarations that want a
  hint.
* `Guided`: every mark is in front of a declaration that wants the hint, and a declaration that
  wants it has one unless it begins in the middle of a word.
-/

namespace Cartridge.Code

/-! ## Code with marks -/

/-- The characters of some code, each with whether a hint is in front of it. -/
abbrev Marked := List (Bool × Char)

namespace Marked

/-- The code without the hints. -/
def plain (m : Marked) : List Char := m.map (·.2)

/-- The code with a hint in front of every marked character. -/
def woven (text : List Char) (m : Marked) : List Char :=
  m.flatMap fun c => if c.1 then text ++ [c.2] else [c.2]

def unmarked (cs : List Char) : Marked := cs.map fun c => (false, c)

variable {text : List Char} {m : Marked} {c : Char}

theorem plain_append (m m' : Marked) : plain (m ++ m') = plain m ++ plain m' := List.map_append

theorem plain_unmarked (cs : List Char) : plain (unmarked cs) = cs := by
  simp [plain, unmarked, Function.comp_def]

theorem woven_append (text : List Char) (m m' : Marked) :
    woven text (m ++ m') = woven text m ++ woven text m' := List.flatMap_append

theorem woven_unmarked (text cs : List Char) : woven text (unmarked cs) = cs := by
  induction cs with
  | nil => rfl
  | cons c cs ih => exact congrArg (List.cons c) ih

theorem woven_false : woven text ((false, c) :: m) = c :: woven text m := rfl

theorem woven_true : woven text ((true, c) :: m) = text ++ c :: woven text m := by
  show (text ++ [c]) ++ woven text m = _
  simp

theorem woven_nil (m : Marked) : m.woven [] = m.plain := by
  induction m with
  | nil => rfl
  | cons c m ih =>
    obtain ⟨b, c⟩ := c
    cases b <;> exact congrArg (List.cons c) ih

/-- A place of the code with its hints, between two characters or inside a hint. -/
inductive Cut (text : List Char) : Marked → List Char → List Char → Prop
  | between (m₁ m₂ : Marked) : Cut text (m₁ ++ m₂) (woven text m₁) (woven text m₂)
  | inside (m₁ : Marked) (c : Char) (m₂ : Marked) {t₁ t₂ : List Char} (htext : text = t₁ ++ t₂)
      (hne : t₁ ≠ []) :
      Cut text (m₁ ++ (true, c) :: m₂) (woven text m₁ ++ t₁) (t₂ ++ c :: woven text m₂)

theorem Cut.cons {before rest : List Char} (h : Cut text m before rest) (x : Bool × Char) :
    Cut text (x :: m) (woven text [x] ++ before) rest := by
  cases h with
  | between m₁ m₂ =>
    rw [← woven_append]
    exact .between (x :: m₁) m₂
  | inside m₁ c m₂ htext hne =>
    rw [← List.append_assoc, ← woven_append]
    exact .inside (x :: m₁) c m₂ htext hne

theorem cut_of_woven {before rest : List Char} (h : woven text m = before ++ rest) :
    Cut text m before rest := by
  induction m generalizing before with
  | nil =>
    obtain ⟨rfl, rfl⟩ := List.append_eq_nil_iff.mp h.symm
    exact .between [] []
  | cons x m ih =>
    have hwhole : woven text (x :: m) = woven text [x] ++ woven text m := woven_append text [x] m
    rw [hwhole] at h
    rcases List.append_eq_append_iff.mp h with ⟨tail, rfl, htail⟩ | ⟨inner, hx, rfl⟩
    · exact (ih htail).cons x
    · obtain ⟨b, c⟩ := x
      cases inner with
      | nil =>
        rw [List.append_nil] at hx
        rw [← hx]
        exact .between [(b, c)] m
      | cons d inner =>
        cases before with
        | nil =>
          rw [List.nil_append] at hx
          rw [← hx, ← hwhole]
          exact .between [] ((b, c) :: m)
        | cons e before =>
          -- two characters are woven from one: this is a mark, and the place is in its hint
          cases b with
          | false => simp [woven] at hx
          | true =>
            have hx : text ++ [c] = (e :: before) ++ (d :: inner) := woven_true.symm.trans hx
            obtain ⟨inner, last, hinner⟩ :=
              (List.eq_nil_or_concat (d :: inner)).resolve_left (by simp)
            rw [List.concat_eq_append] at hinner
            rw [hinner, ← List.append_assoc] at hx
            obtain ⟨htext, hlast⟩ := List.append_inj' hx rfl
            cases hlast
            rw [hinner, List.append_assoc]
            exact .inside [] c m htext (by simp)

/-- A piece of the code with its hints has no mark, or a hint begins inside it. -/
theorem woven_eq_piece {piece rest : List Char} (h : woven text m = piece ++ rest) :
    (∃ m₂, m = unmarked piece ++ m₂ ∧ rest = woven text m₂) ∨
      ∃ u w c m₂, piece = u ++ w ∧ w ≠ [] ∧ m = unmarked u ++ (true, c) :: m₂ ∧
        w ++ rest = text ++ c :: woven text m₂ := by
  induction piece generalizing m with
  | nil => exact .inl ⟨m, rfl, h.symm⟩
  | cons d piece ih =>
    cases m with
    | nil => cases h
    | cons c m =>
      obtain ⟨b, c⟩ := c
      cases b with
      | true => exact .inr ⟨[], d :: piece, c, m, rfl, by simp, rfl, by rw [← h, woven_true]⟩
      | false =>
        obtain ⟨rfl, htail⟩ := List.cons.inj h
        rcases ih htail with ⟨m₂, rfl, hrest⟩ | ⟨u, w, e, m₂, rfl, hw, rfl, hrest⟩
        · exact .inl ⟨m₂, rfl, hrest⟩
        · exact .inr ⟨c :: u, w, e, m₂, rfl, hw, rfl, hrest⟩

end Marked

open Marked

/-! ## The marks of a substitution -/

/-- A match of the pattern begins between what is before and what is ahead. -/
def Begins (p : Pattern) (before ahead : List Char) : Prop :=
  ∃ piece after, ahead = piece ++ after ∧ piece ≠ [] ∧ p.Spells before piece after

/-- The search for the pattern takes the piece that begins between what is before and what is
ahead. -/
def Finds (p : Pattern) (before piece after : List Char) : Prop :=
  let here : Place := ⟨before, piece ++ after, before.length, []⟩
  ∃ groups, p.foundAt here = some ⟨here, here.past piece after groups⟩

theorem Finds.spells {p : Pattern} {before piece after : List Char}
    (h : Finds p before piece after) : p.Spells before piece after := by
  obtain ⟨groups, hfound⟩ := h
  have hhere : (⟨before, piece ++ after, before.length, []⟩ : Place).Counted := rfl
  obtain ⟨piece', after', groups', hsplit, -, hspells, hsame⟩ := Pattern.foundAt_sound hhere hfound
  have hindex : before.length + piece.length = before.length + piece'.length :=
    congrArg (·.stop.index) hsame
  obtain ⟨rfl, rfl⟩ := List.append_inj hsplit (Nat.add_left_cancel hindex)
  exact hspells

/-- The marks of putting something in front of each match. -/
inductive Marks (p : Pattern) : List Char → Marked → Prop
  | done (before : List Char) : Marks p before []
  | plain {before : List Char} {c : Char} {m : Marked} (hnot : ¬ Begins p before (c :: m.plain))
      (rest : Marks p (c :: before) m) : Marks p before ((false, c) :: m)
  | found {before piece : List Char} {c : Char} {m : Marked}
      (hpiece : Finds p before (c :: piece) m.plain)
      (rest : Marks p ((c :: piece).reverse ++ before) m) :
      Marks p before ((true, c) :: (unmarked piece ++ m))

theorem exists_marks_from (p : Pattern) (text cs before : List Char) :
    ∃ m, Marks p before m ∧ m.plain = cs ∧
      m.woven text =
        p.substituteFrom (fun found => text ++ found.text) cs before before.length := by
  induction hn : cs.length using Nat.strongRecOn generalizing cs before with
  | ind n ih =>
    cases cs with
    | nil => exact ⟨[], .done before, rfl, rfl⟩
    | cons c rest =>
      have hcounted : (⟨before, c :: rest, before.length, []⟩ : Place).Counted := rfl
      have hbegins := Pattern.foundAt_isSome_iff (p := p) hcounted
      cases hfound : p.foundAt ⟨before, c :: rest, before.length, []⟩ with
      | none =>
        rw [hfound] at hbegins
        obtain ⟨m, hm, hplain, hwoven⟩ := ih rest.length (by rw [← hn]; simp) rest (c :: before) rfl
        refine ⟨(false, c) :: m, .plain ?_ hm, congrArg (List.cons c) hplain, ?_⟩
        · rw [hplain]
          exact fun h => by simpa using hbegins.mpr h
        · rw [woven_false, hwoven, Pattern.substituteFrom_plain hfound]
          rfl
      | some found =>
        obtain ⟨piece, after, groups, hsplit, hne, hpiece, rfl⟩ :=
          Pattern.foundAt_sound hcounted hfound
        have htext := Pattern.text_past _ hsplit groups
        cases piece with
        | nil => exact absurd rfl hne
        | cons d piece =>
          have hsplit : c :: rest = d :: (piece ++ after) := hsplit
          obtain ⟨rfl, rfl⟩ := List.cons.inj hsplit
          have hlength : ((c :: piece).reverse ++ before).length =
              before.length + 1 + piece.length := by
            rw [List.length_append, List.length_reverse, List.length_cons]
            omega
          have hshorter : after.length < n := by
            rw [← hn, List.length_cons, List.length_append]
            omega
          obtain ⟨m, hm, hplain, hwoven⟩ := ih after.length hshorter after
            ((c :: piece).reverse ++ before) rfl
          rw [hlength] at hwoven
          refine ⟨(true, c) :: (unmarked piece ++ m), .found ?_ hm, ?_, ?_⟩
          · rw [hplain]
            exact ⟨groups, hfound⟩
          · show c :: plain (unmarked piece ++ m) = c :: (piece ++ after)
            rw [plain_append, plain_unmarked, hplain]
          · rw [woven_true, woven_append, woven_unmarked, hwoven,
              Pattern.substituteFrom_found (n := piece.length) hfound (by simp)
                (by simp [Place.past]; omega), htext, List.drop_left, List.take_left]
            simp

theorem exists_marks (p : Pattern) (text cs : List Char) :
    ∃ m, Marks p [] m ∧ m.plain = cs ∧
      m.woven text = p.substitute (fun found => text ++ found.text) cs :=
  exists_marks_from p text cs []

/-! ## The declarations that want a hint -/

/-- The characters of a name, or of what is left of one. -/
def IsName (cs : List Char) : Prop := cs ≠ [] ∧ ∀ c ∈ cs, Text.isWord c = true

theorem not_mem_of_isName {name : List Char} (h : IsName name) {c : Char}
    (hc : c ∈ ['\n', ' ', '>', '[']) : c ∉ name := fun hmem => by
  have hword := h.2 c hmem
  rw [Text.not_word hc] at hword
  cases hword

/-- The beginnings of the names of game state. -/
def roles : List (List Char) := ["player_".toList, "enemy_".toList, "bullet_".toList]

/-- The name of a variable of the game's state. -/
def IsState (name : List Char) : Prop := ∃ role ∈ roles, ∃ own, IsName own ∧ name = role ++ own

section Spells

open Pattern (Spells exactly inOrder oneOf)

variable {before piece after : List Char}

theorem nameRest_spells : nameRest.Spells before piece after ↔ IsName piece := by
  show 1 ≤ piece.length ∧ _ ↔ _
  rw [IsName, ← List.length_pos_iff]
  rfl

theorem wanted_spells (h : Hint) :
    h.wanted.Spells before piece after ↔
      ¬ h.text.toList.reverse <+: before ∧ h.declaration.Spells before piece after := by
  constructor
  · rintro ⟨u, v, rfl, ⟨rfl, hafter⟩, hdeclaration⟩
    exact ⟨hafter, hdeclaration⟩
  · rintro ⟨hafter, hdeclaration⟩
    exact ⟨[], piece, rfl, ⟨rfl, hafter⟩, hdeclaration⟩

theorem stateHint_spells : stateHint.declaration.Spells before piece after ↔
    ∃ name, IsState name ∧ piece = "unsigned char ".toList ++ name := by
  have hrole (role : String) (before piece after : List Char) :
      (Pattern.next (exactly role) nameRest).Spells before piece after ↔
        ∃ own, IsName own ∧ piece = role.toList ++ own := by
    constructor
    · rintro ⟨u, v, rfl, rfl, hv⟩
      exact ⟨v, nameRest_spells.mp hv, rfl⟩
    · rintro ⟨own, hown, rfl⟩
      exact ⟨_, own, rfl, rfl, nameRest_spells.mpr hown⟩
  constructor
  · rintro ⟨u, v, rfl, rfl, hv⟩
    refine ⟨v, ?_, rfl⟩
    rcases hv with hv | hv | hv
    all_goals
      obtain ⟨own, hown, rfl⟩ := (hrole ..).mp hv
      exact ⟨_, by simp [roles], own, hown, rfl⟩
  · rintro ⟨name, ⟨role, hmem, own, hown, rfl⟩, rfl⟩
    refine ⟨_, role ++ own, rfl, rfl, ?_⟩
    simp only [roles, List.mem_cons, List.not_mem_nil, or_false] at hmem
    rcases hmem with rfl | rfl | rfl
    · exact .inl ((hrole ..).mpr ⟨own, hown, rfl⟩)
    · exact .inr (.inl ((hrole ..).mpr ⟨own, hown, rfl⟩))
    · exact .inr (.inr ((hrole ..).mpr ⟨own, hown, rfl⟩))

theorem constantHint_spells : constantHint.declaration.Spells before piece after ↔
    ∃ name, IsName name ∧ piece = "const char ".toList ++ (name ++ "[]".toList) := by
  constructor
  · rintro ⟨u, _, rfl, rfl, v, w, rfl, hv, rfl⟩
    exact ⟨v, nameRest_spells.mp hv, rfl⟩
  · rintro ⟨name, hname, rfl⟩
    exact ⟨_, _, rfl, rfl, name, _, rfl, nameRest_spells.mpr hname, rfl⟩

theorem registerHint_spells : registerHint.declaration.Spells before piece after ↔
    ∃ name size, IsName name ∧ '1' ≤ size ∧ size ≤ '4' ∧
      piece = "unsigned char ".toList ++ (name ++ ['[', size, ']']) := by
  constructor
  · rintro ⟨u, _, rfl, rfl, v, _, rfl, hv, w, _, rfl, rfl, x, _, rfl, ⟨size, rfl, hsize⟩, rfl⟩
    obtain ⟨hleast, hmost⟩ := (Bool.and_eq_true _ _).mp hsize
    exact ⟨v, size, nameRest_spells.mp hv, of_decide_eq_true hleast, of_decide_eq_true hmost, rfl⟩
  · rintro ⟨name, size, hname, hleast, hmost, rfl⟩
    exact ⟨_, _, rfl, rfl, name, _, rfl, nameRest_spells.mpr hname, ['['], _, rfl, rfl, [size], _,
      rfl, ⟨size, rfl, by simp [hleast, hmost]⟩, rfl⟩

end Spells

/-! ## Marks and declarations -/

/-- The place is not in the middle of a word, as far as can be told from what is before it. -/
def Clear (before : List Char) : Prop := before.head?.any Text.isWord = false

/-- A declaration that wants the hint begins here. -/
def Hint.Wants (h : Hint) (before ahead : List Char) : Prop := Begins h.wanted before ahead

/-- Every mark is in front of a declaration that wants the hint, and a declaration that wants it has
one unless it begins in the middle of a word. -/
inductive Guided (h : Hint) : List Char → Marked → Prop
  | done (before : List Char) : Guided h before []
  | plain {before : List Char} {c : Char} {m : Marked}
      (hnot : Clear before → ¬ h.Wants before (c :: m.plain)) (rest : Guided h (c :: before) m) :
      Guided h before ((false, c) :: m)
  | hint {before : List Char} {c : Char} {m : Marked} (hwants : h.Wants before (c :: m.plain))
      (rest : Guided h (c :: before) m) : Guided h before ((true, c) :: m)

/-- No declaration that wants the hint begins inside another one, unless in the middle of a word. -/
def Hint.Solid (h : Hint) : Prop :=
  ∀ before u v after, u ≠ [] → v ≠ [] → h.wanted.Spells before (u ++ v) after →
    Clear (u.reverse ++ before) → ¬ h.Wants (u.reverse ++ before) (v ++ after)

theorem guided_of_marks {h : Hint} (hsolid : h.Solid) {before : List Char} {m : Marked}
    (hmarks : Marks h.wanted before m) : Guided h before m := by
  induction hmarks with
  | done before => exact .done before
  | plain hnot _ ih => exact .plain (fun _ => hnot) ih
  | @found before piece c m hpiece _ ih =>
    have hinside : ∀ v u, u ≠ [] → c :: piece = u ++ v →
        Guided h (u.reverse ++ before) (unmarked v ++ m) := by
      intro v
      induction v with
      | nil =>
        intro u _ hsplit
        rw [List.append_nil] at hsplit
        rw [← hsplit]
        exact ih
      | cons d v ihv =>
        intro u hu hsplit
        have hrest := ihv (u ++ [d]) (by simp) (by simp [hsplit])
        rw [List.reverse_append] at hrest
        refine Guided.plain (m := unmarked v ++ m) (fun hclear => ?_) hrest
        have hahead : d :: plain (unmarked v ++ m) = (d :: v) ++ m.plain := by
          rw [plain_append, plain_unmarked]
          rfl
        rw [hahead]
        exact hsolid before u (d :: v) m.plain hu (by simp) (hsplit ▸ hpiece.spells) hclear
    refine .hint ⟨c :: piece, m.plain, ?_, by simp, hpiece.spells⟩ (hinside piece [c] (by simp) rfl)
    rw [plain_append, plain_unmarked]
    rfl

theorem keyword_of_wants {h : Hint} {keyword before ahead : List Char}
    (hkeyword : ∀ before piece after, h.declaration.Spells before piece after →
      keyword <+: piece) (hwants : h.Wants before ahead) : keyword <+: ahead := by
  obtain ⟨piece, after, rfl, -, hpiece⟩ := hwants
  exact (hkeyword _ _ _ ((wanted_spells h).mp hpiece).2).trans (List.prefix_append _ _)

/-- A keyword does not begin inside itself, nor inside the rest of its declaration, so neither does
a declaration that begins with it. -/
theorem solid_of {h : Hint} (keyword : List Char)
    (hself : ∀ i < keyword.length, 0 < i → ¬ keyword.drop i <+: keyword)
    (htail : ∀ before piece after, h.declaration.Spells before piece after →
      ∃ tail, piece = keyword ++ tail ∧ ∀ u v, tail = u ++ v → v ≠ [] →
        Clear ((keyword ++ u).reverse ++ before) → ∀ rest, ¬ keyword <+: v ++ rest) : h.Solid := by
  intro before u v after hu hv hpiece hclear hwants
  obtain ⟨tail, hsplit, hnot⟩ := htail _ _ _ ((wanted_spells h).mp hpiece).2
  have hbegins : keyword <+: v ++ after := by
    refine keyword_of_wants (fun before piece after hpiece => ?_) hwants
    obtain ⟨tail, rfl, -⟩ := htail before piece after hpiece
    exact List.prefix_append _ _
  rcases List.append_eq_append_iff.mp hsplit with ⟨inner, hkeyword, rfl⟩ | ⟨inner, rfl, htail⟩
  · -- the second declaration would begin inside the keyword
    cases inner with
    | nil =>
      rw [List.append_nil] at hkeyword
      subst hkeyword
      exact hnot [] tail rfl hv (by rwa [List.append_nil]) after hbegins
    | cons d inner =>
      have hpos : 0 < u.length := List.length_pos_iff.mpr hu
      have hlt : u.length < keyword.length := by
        rw [hkeyword, List.length_append, List.length_cons]
        omega
      have hdrop : keyword.drop u.length = d :: inner := by rw [hkeyword, List.drop_left]
      refine hself u.length hlt hpos ?_
      rw [hdrop]
      have hshort : (d :: inner).length ≤ keyword.length := by
        rw [← hdrop, List.length_drop]
        omega
      rw [List.append_assoc] at hbegins
      exact List.prefix_of_prefix_length_le (List.prefix_append _ _) hbegins hshort
  · exact hnot inner v htail hv hclear after hbegins

/-- A declaration whose last character is in no keyword, and which has no blank behind its keyword,
holds no second one. -/
theorem not_keyword_of_last {keyword tail u v rest : List Char} (last : Char) (hv : v ≠ [])
    (hsplit : tail = u ++ v) (hlast : tail.getLast? = some last) (hnone : last ∉ keyword)
    (hblank : ' ' ∈ keyword) (hsolid : ' ' ∉ tail) : ¬ keyword <+: v ++ rest := by
  intro h
  rcases List.prefix_or_prefix_of_prefix h (List.prefix_append v rest) with hin | hout
  · exact hsolid (hsplit ▸ List.mem_append_right u (hin.subset hblank))
  · have hmem : last ∈ v := by
      rw [hsplit, List.getLast?_append, List.getLast?_eq_some_getLast hv, Option.some_or] at hlast
      rw [← Option.some.inj hlast]
      exact List.getLast_mem hv
    exact hnone (hout.subset hmem)

theorem constantHint_solid : constantHint.Solid := by
  refine solid_of "const char ".toList (by decide) fun before piece after hpiece => ?_
  obtain ⟨name, hname, rfl⟩ := constantHint_spells.mp hpiece
  refine ⟨_, rfl, fun u v hsplit hv _ rest => ?_⟩
  refine not_keyword_of_last ']' hv hsplit (by simp) (by decide) (by decide) ?_
  simpa using not_mem_of_isName hname (c := ' ') (by decide)

theorem registerHint_solid : registerHint.Solid := by
  refine solid_of "unsigned char ".toList (by decide) fun before piece after hpiece => ?_
  obtain ⟨name, size, hname, hleast, -, rfl⟩ := registerHint_spells.mp hpiece
  refine ⟨_, rfl, fun u v hsplit hv _ rest => ?_⟩
  refine not_keyword_of_last ']' hv hsplit (by simp) (by decide) (by decide) ?_
  have hsize : ' ' ≠ size := by
    rintro rfl
    exact absurd hleast (by decide)
  simpa using ⟨not_mem_of_isName hname (c := ' ') (by decide), hsize⟩

theorem IsState.isName {name : List Char} (h : IsState name) : IsName name := by
  obtain ⟨role, hrole, own, hown, rfl⟩ := h
  have hword : ∀ role ∈ roles, role.all Text.isWord = true := by decide +kernel
  refine ⟨by simp [hown.1], fun c hc => ?_⟩
  rcases List.mem_append.mp hc with hc | hc
  · exact List.all_eq_true.mp (hword role hrole) c hc
  · exact hown.2 c hc

theorem IsState.head?_ne {name : List Char} (h : IsState name) : name.head? ≠ some 'u' := by
  obtain ⟨role, hrole, own, -, rfl⟩ := h
  have hhead : ∀ role ∈ roles, role ≠ [] ∧ role.head? ≠ some 'u' := by decide
  obtain ⟨hne, hhead⟩ := hhead role hrole
  cases role with
  | nil => exact absurd rfl hne
  | cons c role => exact hhead

theorem not_clear_of_word {u before : List Char} (hne : u ≠ [])
    (hword : ∀ c ∈ u, Text.isWord c = true) : ¬ Clear (u.reverse ++ before) := by
  obtain ⟨u, c, rfl⟩ := (List.eq_nil_or_concat u).resolve_left hne
  intro hclear
  rw [List.concat_eq_append, List.reverse_append] at hclear
  have hc : Text.isWord c = false := hclear
  rw [hword c (by simp)] at hc
  cases hc

theorem stateHint_solid : stateHint.Solid := by
  refine solid_of "unsigned char ".toList (by decide) fun before piece after hpiece => ?_
  obtain ⟨name, hname, rfl⟩ := stateHint_spells.mp hpiece
  refine ⟨_, rfl, fun u v hsplit hv hclear rest hkeyword => ?_⟩
  cases u with
  | nil =>
    rw [List.nil_append] at hsplit
    subst hsplit
    obtain ⟨_, hahead⟩ := hkeyword
    cases name with
    | nil => exact hv rfl
    | cons c name => exact hname.head?_ne (congrArg List.head? hahead).symm
  | cons c u =>
    rw [List.reverse_append, List.append_assoc] at hclear
    refine not_clear_of_word (by simp) (fun d hd => hname.isName.2 d ?_) hclear
    exact hsplit ▸ List.mem_append_left v hd

end Cartridge.Code
