import Cartridge.Proofs.Code.Idle

/-!
# Game state that is still to be placed

The hint for the game's state has something to do if the code declares a variable of the state, or
what reads like one, and the hint is not right in front of it. In code that has another hint in some
places the variables are those of the code without it, and those whose name it completes.

* `Pending`, `stateHint_idle_iff`: the code that leaves the hint something to do.
* `stateAhead_woven`, `pending_woven`: the same of code with hints, by its marks.
-/

namespace Cartridge.Code

open Marked

/-- The name of a variable of the game's state is ahead. -/
def StateAhead (rest : List Char) : Prop := ∃ name after, IsState name ∧ rest = name ++ after

/-- The code has a variable of the game's state, or what reads like one, and the hint is not in
front of it. -/
def Pending (cs : List Char) : Prop :=
  Somewhere cs "unsigned char ".toList fun before rest => ¬ place fast <:+ before ∧ StateAhead rest

theorem stateHint_wants_iff {before ahead : List Char} : stateHint.Wants before.reverse ahead ↔
    ∃ rest, ahead = "unsigned char ".toList ++ rest ∧ ¬ place fast <:+ before ∧
      StateAhead rest := by
  rw [wants_iff, List.reverse_prefix]
  constructor
  · rintro ⟨piece, after, rfl, -, hafter, hpiece⟩
    obtain ⟨name, hname, rfl⟩ := stateHint_spells.mp hpiece
    exact ⟨name ++ after, List.append_assoc .., hafter, name, after, hname, rfl⟩
  · rintro ⟨_, rfl, hafter, name, after, hname, rfl⟩
    exact ⟨_, after, (List.append_assoc ..).symm, by simp, hafter,
      stateHint_spells.mpr ⟨name, hname, rfl⟩⟩

theorem stateHint_idle_iff {cs : List Char} : stateHint.Idle cs ↔ ¬ Pending cs := by
  constructor
  · rintro hidle ⟨before, rest, rfl, hpending⟩
    exact hidle before _ rfl (stateHint_wants_iff.mpr ⟨rest, rfl, hpending⟩)
  · rintro hnone before ahead rfl hwants
    obtain ⟨rest, rfl, hpending⟩ := stateHint_wants_iff.mp hwants
    exact hnone ⟨before, rest, rfl, hpending⟩

/-! ## Names of the game's state -/

theorem stateAhead_iff {rest : List Char} : StateAhead rest ↔
    ∃ role ∈ roles, ∃ c after, Text.isWord c = true ∧ rest = role ++ c :: after := by
  constructor
  · rintro ⟨_, after, ⟨role, hrole, own, ⟨hne, hword⟩, rfl⟩, rfl⟩
    cases own with
    | nil => exact absurd rfl hne
    | cons c own => exact ⟨role, hrole, c, own ++ after, hword c (by simp), by simp⟩
  · rintro ⟨role, hrole, c, after, hc, rfl⟩
    exact ⟨role ++ [c], after, ⟨role, hrole, [c], ⟨by simp, by simpa using hc⟩, rfl⟩, by simp⟩

/-- A whole name is one of the game's state if it begins like one. -/
theorem isState_of_ahead {name rest : List Char} (hname : IsName name)
    (hend : endsName rest = true) (h : StateAhead (name ++ rest)) : IsState name := by
  have hwants : stateHint.Wants ([] : List Char).reverse (byte name ++ rest) :=
    stateHint_wants_iff.mpr ⟨name ++ rest, List.append_assoc .., by decide, h⟩
  exact ((stateHint_wants hname hend).mp hwants).2

theorem isWord_of_mark {m₁ m₂ : Marked} {c : Char} (hkeyed : Keyed (m₁ ++ (true, c) :: m₂)) :
    Text.isWord c = true := by
  have hword : ∀ k ∈ keywords, k.head?.any Text.isWord = true := by decide +kernel
  obtain ⟨k, hk, others, hothers⟩ := hkeyed m₁ c m₂ rfl
  have hc := hword k hk
  cases k with
  | nil => cases hc
  | cons d k =>
    obtain ⟨rfl, -⟩ := List.cons.inj hothers
    exact hc

section Ahead

variable {h : Hint} {m : Marked}

/-- A hint begins with a word of more than one letter. -/
theorem word_of_hint (hh : h ∈ hints) : ∃ c d rest, h.text.toList = c :: d :: rest ∧
    Text.isWord c = true ∧ Text.isWord d = true := by
  have hwords : ∀ h ∈ hints, h.text.toList.head?.any Text.isWord = true ∧
      h.text.toList.tail.head?.any Text.isWord = true := by decide +kernel
  obtain ⟨hfirst, hsecond⟩ := hwords h hh
  generalize h.text.toList = text at hfirst hsecond
  cases text with
  | nil => cases hfirst
  | cons c text =>
    cases text with
    | nil => cases hsecond
    | cons d rest => exact ⟨c, d, rest, rfl, hfirst, hsecond⟩

/-- What is ahead in the code with hints is ahead without them, or a hint begins with the last
character of the role. -/
theorem stateAhead_of_woven (hh : h ∈ hints) (hkeyed : Keyed m)
    (hahead : StateAhead (woven h.text.toList m)) : StateAhead (plain m) ∨
      h.text.toList.head? = some '_' ∧
        ∃ role ∈ roles, ∃ c m', m = unmarked role.dropLast ++ (true, c) :: m' := by
  have hmeet : ∀ h ∈ hints, ∀ role ∈ roles, ∀ n < role.length,
      role.drop n <+: h.text.toList ∨ h.text.toList <+: role.drop n →
        role.take n = role.dropLast ∧ h.text.toList.head? = some '_' := by decide
  rw [stateAhead_iff] at hahead ⊢
  obtain ⟨role, hrole, c, after, hc, hsplit⟩ := hahead
  rcases woven_eq_piece hsplit with ⟨m₂, rfl, hafter⟩ | ⟨u, w, d, m₂, rfl, hw, rfl, hinside⟩
  · cases m₂ with
    | nil => cases hafter
    | cons x m₂ =>
      obtain ⟨b, d⟩ := x
      refine .inl ⟨role, hrole, d, plain m₂, ?_, by rw [plain_append, plain_unmarked]; rfl⟩
      cases b with
      | false =>
        obtain ⟨rfl, -⟩ := List.cons.inj hafter
        exact hc
      | true => exact isWord_of_mark hkeyed
  · have hlt : u.length < (u ++ w).length := by
      have := List.length_pos_iff.mpr hw
      rw [List.length_append]
      omega
    have hboth : w <+: h.text.toList ∨ h.text.toList <+: w :=
      List.prefix_or_prefix_of_prefix (List.prefix_append w _) ⟨_, hinside.symm⟩
    obtain ⟨hu, hhead⟩ := hmeet h hh _ hrole u.length hlt (by rwa [List.drop_left])
    rw [List.take_left] at hu
    exact .inr ⟨hhead, _, hrole, d, m₂, by rw [← hu]⟩

theorem StateAhead.woven (hh : h ∈ hints) (hkeyed : Keyed m) (hahead : StateAhead (plain m)) :
    StateAhead (woven h.text.toList m) := by
  have hroles : ∀ role ∈ roles, Keywordless role := by decide
  rw [stateAhead_iff] at hahead ⊢
  obtain ⟨role, hrole, c, after, hc, hsplit⟩ := hahead
  obtain ⟨m₂, rfl, hafter⟩ := unmarked_front hkeyed (hroles role hrole) hsplit
  refine ⟨role, hrole, ?_⟩
  rw [woven_append, woven_unmarked]
  cases m₂ with
  | nil => cases hafter
  | cons x m₂ =>
    obtain ⟨b, d⟩ := x
    obtain ⟨rfl, -⟩ := List.cons.inj hafter
    cases b with
    | false => exact ⟨d, _, hc, rfl⟩
    | true =>
      obtain ⟨e, _, _, htext, he, -⟩ := word_of_hint hh
      rw [woven_true, htext]
      exact ⟨e, _, he, rfl⟩

theorem stateAhead_of_completed (hh : h ∈ hints) (hhead : h.text.toList.head? = some '_')
    {role : List Char} (hrole : role ∈ roles) (c : Char) (m' : Marked) :
    StateAhead (woven h.text.toList (unmarked role.dropLast ++ (true, c) :: m')) := by
  have hroles : ∀ role ∈ roles, role.dropLast ++ ['_'] = role := by decide
  obtain ⟨front, rfl⟩ : ∃ front, role = front ++ ['_'] := ⟨_, (hroles role hrole).symm⟩
  obtain ⟨first, e, rest, htext, -, he⟩ := word_of_hint hh
  rw [htext] at hhead
  obtain rfl : first = '_' := Option.some.inj hhead
  rw [List.dropLast_concat, woven_append, woven_unmarked, woven_true, htext, stateAhead_iff]
  exact ⟨_, hrole, e, rest ++ c :: woven ('_' :: e :: rest) m', he, by simp⟩

/-- A hint that follows the beginning of a role completes it if it begins with the role's last
character. -/
theorem stateAhead_woven (hh : h ∈ hints) (hkeyed : Keyed m) :
    StateAhead (woven h.text.toList m) ↔ StateAhead (plain m) ∨
      h.text.toList.head? = some '_' ∧
        ∃ role ∈ roles, ∃ c m', m = unmarked role.dropLast ++ (true, c) :: m' := by
  refine ⟨stateAhead_of_woven hh hkeyed, ?_⟩
  rintro (hahead | ⟨hhead, role, hrole, c, m', rfl⟩)
  · exact hahead.woven hh hkeyed
  · exact stateAhead_of_completed hh hhead hrole c m'

end Ahead

/-! ## Code with hints -/

section Woven

variable {h : Hint} {m m₁ m₂ : Marked} {b : Bool}

/-- The keyword of a byte, by its marks. -/
def Keyword (m m₁ : Marked) (b : Bool) (m₂ : Marked) : Prop :=
  m = m₁ ++ (b, 'u') :: (unmarked "nsigned char ".toList ++ m₂)

theorem plain_keyword (m₂ : Marked) : 'u' :: plain (unmarked "nsigned char ".toList ++ m₂) =
    "unsigned char ".toList ++ plain m₂ := by
  rw [plain_append, plain_unmarked]
  rfl

theorem plain_of_keyword (hm : Keyword m m₁ b m₂) :
    plain m = plain m₁ ++ ("unsigned char ".toList ++ plain m₂) := by
  rw [hm, plain_append, plain_marked]
  rfl

theorem woven_of_keyword {text : List Char} (hm : Keyword m m₁ b m₂) :
    woven text m = (woven text m₁ ++ if b then text else []) ++
      ("unsigned char ".toList ++ woven text m₂) := by
  rw [hm, woven_append, List.append_assoc, woven_marked]
  rfl

/-- Behind the keyword and an unmarked name the marks go on. -/
theorem keyword_split {w : List Char} (hm : Keyword m m₁ b (unmarked w ++ m₂)) :
    ∃ m₀, m = m₀ ++ m₂ ∧ plain m₀ = plain m₁ ++ byte w := by
  refine ⟨m₁ ++ (b, 'u') :: (unmarked "nsigned char ".toList ++ unmarked w), ?_, ?_⟩
  · rw [hm, List.append_assoc, List.cons_append, List.append_assoc]
  · calc plain (m₁ ++ (b, 'u') :: (unmarked "nsigned char ".toList ++ unmarked w))
        = plain m₁ ++ 'u' :: plain (unmarked "nsigned char ".toList ++ unmarked w) :=
          plain_append _ _
      _ = plain m₁ ++ byte w := by
          rw [plain_keyword, plain_unmarked]
          rfl

theorem keyword_of_plain {before rest : List Char} (hkeyed : Keyed m)
    (hsplit : plain m = before ++ ("unsigned char ".toList ++ rest)) :
    ∃ m₁ b m₂, Keyword m m₁ b m₂ ∧ plain m₁ = before ∧ plain m₂ = rest :=
  marked_of_plain hkeyed (show Keywordless "nsigned char ".toList by decide) hsplit

theorem keyword_of_woven (hh : h ∈ hints) {before rest : List Char}
    (hsplit : woven h.text.toList m = before ++ ("unsigned char ".toList ++ rest)) :
    ∃ m₁ b m₂, Keyword m m₁ b m₂ ∧
      before = woven h.text.toList m₁ ++ (if b then h.text.toList else []) ∧
      rest = woven h.text.toList m₂ := by
  have htexts : ∀ h ∈ hints, Keywordless h.text.toList ∧
      Lacks h.text.toList "nsigned char ".toList := by decide
  have hk : "unsigned char ".toList ∈ keywords := by decide
  exact marked_of_woven hk (List.prefix_refl _) (htexts h hh).1 (htexts h hh).2 hsplit

theorem Keyed.of_append (hkeyed : Keyed (m₁ ++ m₂)) : Keyed m₂ :=
  fun n₁ c n₂ hsplit => hkeyed (m₁ ++ n₁) c n₂ (by rw [hsplit, List.append_assoc])

theorem keyed_of_keyword (hkeyed : Keyed m) (hm : Keyword m m₁ b m₂) : Keyed m₂ := by
  have hsplit : m = (m₁ ++ (b, 'u') :: unmarked "nsigned char ".toList) ++ m₂ := by
    rw [hm, List.append_assoc]
    rfl
  exact (hsplit ▸ hkeyed).of_append

/-- The hint for the state is in front of a place if it was, or if it is put there. -/
theorem place_suffix_woven (hh : h ∈ hints) (hkeyed : Keyed m) (hm : Keyword m m₁ b m₂) :
    place fast <:+ woven h.text.toList m₁ ++ (if b then h.text.toList else []) ↔
      if b then h.text.toList = place fast else place fast <:+ plain m₁ := by
  cases b with
  | false =>
    rw [hm] at hkeyed
    rw [if_neg (by simp), if_neg (by simp), List.append_nil]
    have hplace : Keywordless (place fast) := by decide
    exact suffix_woven_iff hkeyed fun k hk u w hsplit hw => hplace.not_begins hk hsplit hw _
  | true =>
    have hfacts : ∀ h ∈ hints, place fast <:+ h.text.toList ∨ h.text.toList <:+ place fast →
        h.text.toList = place fast := by decide
    rw [if_pos rfl, if_pos rfl]
    constructor
    · intro hsuffix
      exact hfacts h hh (List.suffix_or_suffix_of_suffix hsuffix (List.suffix_append _ _))
    · intro htext
      rw [htext]
      exact List.suffix_append _ _

theorem pending_woven (hh : h ∈ hints) (hkeyed : Keyed m) :
    Pending (woven h.text.toList m) ↔ ∃ m₁ b m₂, Keyword m m₁ b m₂ ∧
      ¬ (if b then h.text.toList = place fast else place fast <:+ plain m₁) ∧
      StateAhead (woven h.text.toList m₂) := by
  constructor
  · rintro ⟨before, rest, hsplit, hafter, hahead⟩
    obtain ⟨m₁, b, m₂, hm, rfl, rfl⟩ := keyword_of_woven hh hsplit
    exact ⟨m₁, b, m₂, hm, mt (place_suffix_woven hh hkeyed hm).mpr hafter, hahead⟩
  · rintro ⟨m₁, b, m₂, hm, hafter, hahead⟩
    exact ⟨_, _, woven_of_keyword hm, mt (place_suffix_woven hh hkeyed hm).mp hafter, hahead⟩

/-- No other hint takes the place of the one for the state. -/
theorem not_placed (htext : h.text.toList ≠ place fast) (hafter : ¬ place fast <:+ plain m₁)
    (b : Bool) : ¬ if b then h.text.toList = place fast else place fast <:+ plain m₁ := by
  cases b with
  | false => exact hafter
  | true => exact htext

/-- Other hints leave what is still to be done. -/
theorem Pending.of_plain (hh : h ∈ hints) (htext : h.text.toList ≠ place fast) (hkeyed : Keyed m)
    (hpending : Pending (plain m)) : Pending (woven h.text.toList m) := by
  obtain ⟨before, rest, hsplit, hafter, hstate⟩ := hpending
  obtain ⟨m₁, b, m₂, hm, rfl, rfl⟩ := keyword_of_plain hkeyed hsplit
  have hahead := (stateAhead_woven hh (keyed_of_keyword hkeyed hm)).mpr (.inl hstate)
  exact (pending_woven hh hkeyed).mpr ⟨m₁, b, m₂, hm, not_placed htext hafter b, hahead⟩

end Woven

end Cartridge.Code
