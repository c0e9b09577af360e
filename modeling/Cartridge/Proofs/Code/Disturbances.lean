import Cartridge.Proofs.Code.Pending
import Cartridge.Proofs.Pattern.Longest

/-!
# What hints do to one another

The hint for the game's state is put in first, and each hint leaves it something to do again. The
one for registers comes between an array and its place. The one for constants makes the name of a
variable of the state out of the beginning of one, and so does the one for the state itself, which
moreover does not see a variable that begins inside a match.

* `pending_register_iff`, `pending_constant_iff`, `pending_state_iff`: what each hint brings about.
-/

namespace Cartridge.Code

open Marked

/-- A tiny array of the game's state. -/
def TinyState (cs : List Char) : Prop :=
  ∃ name size, IsState name ∧ '1' ≤ size ∧ size ≤ '4' ∧
    Somewhere cs (byte name ++ ['[', size, ']']) fun _ _ => True

theorem byte_append_eq (name piece rest : List Char) :
    (byte name ++ piece) ++ rest = "unsigned char ".toList ++ (name ++ (piece ++ rest)) :=
  (List.append_assoc ..).trans (List.append_assoc ..)

section Register

variable {m m₁ m₂ : Marked} {b : Bool} {name rest : List Char} {size : Char}

/-- What has the hint for registers in front of it is a tiny array. -/
theorem tinyState_of_mark (hmarks : Marks registerHint.wanted [] m) (hm : Keyword m m₁ true m₂)
    (hstate : StateAhead (plain m₂)) : TinyState (plain m) := by
  rw [hm] at hmarks
  obtain ⟨piece, after, hsplit, -, -, hpiece⟩ := wants_iff.mp (wants_of_mark hmarks)
  obtain ⟨name, size, hname, hleast, hmost, rfl⟩ := registerHint_spells.mp hpiece
  have hcut := ((plain_keyword m₂).symm.trans hsplit).trans (List.append_assoc ..)
  have hrest : plain m₂ = name ++ (['[', size, ']'] ++ after) :=
    (List.append_cancel_left hcut).trans (List.append_assoc ..)
  have hend : endsName (['[', size, ']'] ++ after) = true := by
    simp [endsName, Text.not_word (c := '[') (by decide)]
  rw [hrest] at hstate
  refine ⟨name, size, isState_of_ahead hname hend hstate, hleast, hmost, plain m₁, after, ?_,
    trivial⟩
  rw [plain_of_keyword hm, hrest, byte_append_eq]

/-- A tiny array without the hint for registers has no place either, since behind its place it would
want the hint. -/
theorem not_place_of_tiny (hmarks : Marks registerHint.wanted [] m) (hm : Keyword m m₁ false m₂)
    (hname : IsName name) (hleast : '1' ≤ size) (hmost : size ≤ '4')
    (hrest : plain m₂ = name ++ (['[', size, ']'] ++ rest)) : ¬ place fast <:+ plain m₁ := by
  intro hplace
  rw [hm] at hmarks
  refine not_wants_of_tight registerHint_tight hmarks (wants_iff.mpr
    ⟨byte name ++ ['[', size, ']'], rest, ?_, ?_, ?_, ?_⟩)
  · rw [plain_keyword, hrest, byte_append_eq]
  · simp
  · rw [List.reverse_prefix]
    intro hregister
    have hboth := List.suffix_or_suffix_of_suffix hplace hregister
    revert hboth
    decide
  · exact registerHint_spells.mpr ⟨name, size, hname, hleast, hmost, List.append_assoc ..⟩

end Register

/-- The hint for registers comes between a tiny array and its place. -/
theorem pending_register_iff (cs : List Char) :
    Pending (registerHint.insert cs) ↔ Pending cs ∨ TinyState cs := by
  have hh : registerHint ∈ hints := by simp [hints]
  have htext : registerHint.text.toList ≠ place fast := by decide
  obtain ⟨m, hmarks, rfl, hwoven⟩ := exists_marks registerHint.wanted registerHint.text.toList cs
  have hkeyed := keyed_of_marks hh hmarks
  have hahead {m₁ m₂ : Marked} {b : Bool} (hm : Keyword m m₁ b m₂) :
      StateAhead (woven registerHint.text.toList m₂) ↔ StateAhead (plain m₂) := by
    rw [stateAhead_woven hh (keyed_of_keyword hkeyed hm)]
    exact or_iff_left fun h => absurd h.1 (by decide)
  rw [Hint.insert, ← hwoven]
  constructor
  · intro h
    obtain ⟨m₁, b, m₂, hm, hafter, hstate⟩ := (pending_woven hh hkeyed).mp h
    rw [hahead hm] at hstate
    cases b with
    | false => exact .inl ⟨_, _, plain_of_keyword hm, hafter, hstate⟩
    | true => exact .inr (tinyState_of_mark hmarks hm hstate)
  · rintro (hpending | ⟨name, size, hname, hleast, hmost, before, rest, hsplit, -⟩)
    · exact hpending.of_plain hh htext hkeyed
    · rw [byte_append_eq] at hsplit
      obtain ⟨m₁, b, m₂, hm, rfl, hrest⟩ := keyword_of_plain hkeyed hsplit
      refine (pending_woven hh hkeyed).mpr
        ⟨m₁, b, m₂, hm, ?_, (hahead hm).mpr ⟨name, _, hname, hrest⟩⟩
      cases b with
      | true => exact htext
      | false => exact not_place_of_tiny hmarks hm hname.isName hleast hmost hrest

/-- A constant text right behind the beginning of a role, as if this were the name of a byte, and
the hint for the state is not in front of it. -/
def TextBehind (cs : List Char) : Prop :=
  ∃ role ∈ roles, ∃ name, IsName name ∧
    Somewhere cs (byte role.dropLast ++ ("const char ".toList ++ (name ++ "[]".toList)))
      fun before _ => ¬ place fast <:+ before

/-- No more than one of two texts is right before a place if neither ends with the other. -/
theorem not_suffix_append {a b front : List Char} (hab : ¬ a <:+ b) (hba : ¬ b <:+ a) :
    ¬ a <:+ front ++ b := fun h =>
  (List.suffix_or_suffix_of_suffix h (List.suffix_append front b)).elim hab hba

section Constant

variable {m m₁ m₂ m₃ : Marked} {b : Bool} {c : Char} {role name rest : List Char}

/-- The hint for constants is not put in front of a byte. -/
theorem not_marked_byte (hmarks : Marks constantHint.wanted [] m) : ¬ Keyword m m₁ true m₂ := by
  intro hm
  rw [hm] at hmarks
  have hwants := wants_of_mark hmarks
  rw [plain_keyword] at hwants
  have hnot : ¬ constantHint.Wants (plain m₁).reverse (byte [] ++ plain m₂) :=
    constantHint_not_wants
  exact hnot hwants

/-- What completes a role is the hint of a constant text. -/
theorem textBehind_of_completed (hmarks : Marks constantHint.wanted [] m) (hrole : role ∈ roles)
    (hm : Keyword m m₁ false (unmarked role.dropLast ++ (true, c) :: m₂))
    (hafter : ¬ place fast <:+ plain m₁) : TextBehind (plain m) := by
  obtain ⟨m₀, rfl, hm₀⟩ := keyword_split hm
  obtain ⟨piece, after, hahead, -, -, hpiece⟩ := wants_iff.mp (wants_of_mark hmarks)
  obtain ⟨name, hname, rfl⟩ := constantHint_spells.mp hpiece
  refine ⟨role, hrole, name, hname, plain m₁, after, ?_, hafter⟩
  rw [plain_append, hm₀, List.append_assoc (plain m₁), List.append_assoc (byte _), ← hahead]
  rfl

/-- A constant text right behind the beginning of a role has its hint. -/
theorem completed_of_text (hmarks : Marks constantHint.wanted [] m) (hrole : role ∈ roles)
    (hname : IsName name) (hm : Keyword m m₁ b m₂)
    (hrest : plain m₂ =
      role.dropLast ++ (("const char ".toList ++ (name ++ "[]".toList)) ++ rest)) :
    ∃ c m₃, m₂ = unmarked role.dropLast ++ (true, c) :: m₃ := by
  have hh : constantHint ∈ hints := by simp [hints]
  have hroles : ∀ role ∈ roles, Keywordless role.dropLast ∧
      ¬ constantHint.text.toList <:+ byte role.dropLast ∧
      ¬ byte role.dropLast <:+ constantHint.text.toList := by decide
  obtain ⟨hsolid, hshort, hlong⟩ := hroles role hrole
  obtain ⟨m₃, rfl, hbehind⟩ :=
    unmarked_front (keyed_of_keyword (keyed_of_marks hh hmarks) hm) hsolid hrest
  cases m₃ with
  | nil => cases hbehind
  | cons x m₃ =>
    obtain ⟨marked, c⟩ := x
    cases marked with
    | true => exact ⟨c, m₃, rfl⟩
    | false =>
      -- the text would want its hint and not have it
      exfalso
      obtain ⟨m₀, rfl, hm₀⟩ := keyword_split hm
      refine not_wants_of_tight constantHint_tight hmarks ?_
      rw [hm₀]
      refine wants_iff.mpr ⟨_, rest, hbehind, by simp, ?_,
        constantHint_spells.mpr ⟨name, hname, rfl⟩⟩
      rw [List.reverse_prefix]
      exact not_suffix_append hshort hlong

end Constant

/-- The hint for constants completes a role that is right before it. -/
theorem pending_constant_iff (cs : List Char) :
    Pending (constantHint.insert cs) ↔ Pending cs ∨ TextBehind cs := by
  have hh : constantHint ∈ hints := by simp [hints]
  have htext : constantHint.text.toList ≠ place fast := by decide
  obtain ⟨m, hmarks, rfl, hwoven⟩ := exists_marks constantHint.wanted constantHint.text.toList cs
  have hkeyed := keyed_of_marks hh hmarks
  rw [Hint.insert, ← hwoven]
  constructor
  · intro h
    obtain ⟨m₁, b, m₂, hm, hafter, hstate⟩ := (pending_woven hh hkeyed).mp h
    cases b with
    | true => exact absurd hm (not_marked_byte hmarks)
    | false =>
      rcases (stateAhead_woven hh (keyed_of_keyword hkeyed hm)).mp hstate with
        hstate | ⟨-, role, hrole, c, m₃, rfl⟩
      · exact .inl ⟨_, _, plain_of_keyword hm, hafter, hstate⟩
      · exact .inr (textBehind_of_completed hmarks hrole hm hafter)
  · rintro (hpending | ⟨role, hrole, name, hname, before, rest, hsplit, hafter⟩)
    · exact hpending.of_plain hh htext hkeyed
    · rw [byte_append_eq] at hsplit
      obtain ⟨m₁, b, m₂, hm, rfl, hrest⟩ := keyword_of_plain hkeyed hsplit
      obtain ⟨c, m₃, rfl⟩ := completed_of_text hmarks hrole hname hm hrest
      have hahead := (stateAhead_woven hh (keyed_of_keyword hkeyed hm)).mpr
        (.inr ⟨rfl, role, hrole, c, m₃, rfl⟩)
      exact (pending_woven hh hkeyed).mpr ⟨m₁, b, _, hm, not_placed htext hafter b, hahead⟩

/-- The beginning of a name of the game's state, or of a role up to the character with which the
hint begins. -/
def Begun (w : List Char) : Prop :=
  ∃ role ∈ roles, w = role.dropLast ∨ ∃ own, (∀ c ∈ own, Text.isWord c = true) ∧ w = role ++ own

/-- A variable of the game's state right behind the beginning of another one, and the hint for the
state is not in front of that. -/
def StateBehind (cs : List Char) : Prop :=
  ∃ w name, Begun w ∧ IsState name ∧
    Somewhere cs (byte w ++ byte name) fun before _ => ¬ place fast <:+ before

/-- A match of the hint for the state takes the whole name. -/
theorem clear_of_finds {before piece after : List Char}
    (h : Finds stateHint.wanted before piece after) : Clear after := by
  obtain ⟨groups, hfound⟩ := h
  have hname (role : String) : Pattern.Reaches (.next (.exactly role) nameRest)
      fun there => there.rest.head?.any Text.isWord = false :=
    Pattern.reaches_next _ (Pattern.reaches_many Text.isWord)
  have hreaches : stateHint.wanted.Reaches fun there => there.rest.head?.any Text.isWord = false :=
    Pattern.reaches_next _ (Pattern.reaches_next _ (Pattern.reaches_either (hname "player_")
      (Pattern.reaches_either (hname "enemy_") (hname "bullet_"))))
  have hhere : (⟨before, piece ++ after, before.length, []⟩ : Place).Counted := rfl
  exact Pattern.stop_of_foundAt hreaches hhere hfound

theorem word_unique {u v a b : List Char} (hu : ∀ c ∈ u, Text.isWord c = true)
    (hv : ∀ c ∈ v, Text.isWord c = true) (ha : Clear a) (hb : Clear b) (h : u ++ a = v ++ b) :
    u = v := by
  obtain rfl : a = b := by rw [← dropWhile_word hu ha, h, dropWhile_word hv hb]
  exact List.append_cancel_right h

theorem begun_of_state {w : List Char} (h : IsState (w ++ "unsigned".toList)) : Begun w := by
  obtain ⟨role, hrole, own, hown, hsplit⟩ := h
  have hlast : ∀ role ∈ roles, role.getLast? = some '_' := by decide
  refine ⟨role, hrole, .inr ?_⟩
  rcases List.append_eq_append_iff.mp hsplit with ⟨inner, rfl, hword⟩ | ⟨inner, rfl, rfl⟩
  · cases inner with
    | nil => exact ⟨[], by simp, by simp⟩
    | cons d inner =>
      -- the role's last character would be in the keyword
      exfalso
      have hmem : '_' ∈ d :: inner := by
        have h := hlast _ hrole
        rw [List.getLast?_append, List.getLast?_eq_some_getLast (List.cons_ne_nil d inner),
          Option.some_or] at h
        exact Option.some.inj h ▸ List.getLast_mem _
      have hnot : '_' ∉ "unsigned".toList := by decide
      exact hnot (hword ▸ List.mem_append_left own hmem)
  · exact ⟨inner, fun d hd => hown.2 d (List.mem_append_left _ hd), rfl⟩

theorem word_append {a b : List Char} (ha : ∀ c ∈ a, Text.isWord c = true)
    (hb : ∀ c ∈ b, Text.isWord c = true) : ∀ c ∈ a ++ b, Text.isWord c = true :=
  fun c hc => (List.mem_append.mp hc).elim (ha c) (hb c)

theorem unsigned_isWord : ∀ c ∈ "unsigned".toList, Text.isWord c = true := by
  have hall : "unsigned".toList.all Text.isWord = true := by decide +kernel
  exact List.all_eq_true.mp hall

/-- A keyword that begins inside a match of the hint for the state ends the name of the match. -/
theorem begun_of_inside {before u v after rest : List Char} {c : Char}
    (hfinds : Finds stateHint.wanted before (c :: (u ++ v)) after) (hv : v ≠ [])
    (hinside : v ++ after = "unsigned char ".toList ++ rest) : ∃ w, Begun w ∧ c :: u = byte w := by
  obtain ⟨name, hname, hpiece⟩ := stateHint_spells.mp ((wanted_spells _).mp hfinds.spells).2
  have hkeyword : "unsigned char ".toList <+: v ++ after := ⟨rest, hinside.symm⟩
  obtain ⟨rfl, hsplit⟩ : c = 'u' ∧ u ++ v = "nsigned char ".toList ++ name := List.cons.inj hpiece
  have hsolid : Keywordless "nsigned char ".toList := by decide
  rcases List.append_eq_append_iff.mp hsplit with ⟨inner, hfront, rfl⟩ | ⟨w, rfl, rfl⟩
  · exfalso
    cases inner with
    | nil =>
      rw [List.nil_append] at hinside hv
      have hhead := hname.head?_ne
      cases name with
      | nil => exact hv rfl
      | cons d name => exact hhead (congrArg List.head? hinside)
    | cons d inner =>
      have hk : "unsigned char ".toList ∈ keywords := by decide
      refine hsolid.not_begins hk hfront (by simp) (name ++ after) ?_
      rwa [List.append_assoc] at hkeyword
  · have hword : v = "unsigned".toList :=
      word_unique (fun d hd => hname.isName.2 d (List.mem_append_right w hd)) unsigned_isWord
        (clear_of_finds hfinds) (b := ' ' :: ("char ".toList ++ rest))
        (Text.not_word (by decide)) hinside
    exact ⟨w, begun_of_state (hword ▸ hname), rfl⟩

theorem Begun.isName {w : List Char} (h : Begun w) : IsName w := by
  have hroles : ∀ role ∈ roles, role ≠ [] ∧ role.dropLast ≠ [] ∧ role.all Text.isWord = true ∧
      role.dropLast.all Text.isWord = true := by decide +kernel
  obtain ⟨role, hrole, rfl | ⟨own, hown, rfl⟩⟩ := h
  · obtain ⟨-, hne, -, hword⟩ := hroles role hrole
    exact ⟨hne, List.all_eq_true.mp hword⟩
  · obtain ⟨hne, -, hword, -⟩ := hroles role hrole
    exact ⟨by simp [hne], word_append (List.all_eq_true.mp hword) hown⟩

/-- A role with a byte behind it reads like a name of the game's state. -/
theorem stateAhead_byte {role own : List Char} (hrole : role ∈ roles)
    (hown : ∀ c ∈ own, Text.isWord c = true) (name rest : List Char) :
    StateAhead ((role ++ own) ++ (byte name ++ rest)) := by
  have hfirst : Text.isWord 'u' = true := by decide +kernel
  have hword : ∀ c ∈ own ++ ['u'], Text.isWord c = true :=
    word_append hown (by simpa using hfirst)
  refine ⟨role ++ (own ++ ['u']), ("nsigned char ".toList ++ name) ++ rest,
    ⟨role, hrole, own ++ ['u'], ⟨by simp, hword⟩, rfl⟩, ?_⟩
  rw [List.append_assoc, List.append_assoc role, List.append_assoc own]
  rfl

theorem not_place_suffix {before w : List Char} (hw : IsName w) :
    ¬ place fast <:+ before ++ byte w := by
  obtain ⟨w, c, rfl⟩ := (List.eq_nil_or_concat w).resolve_left hw.1
  rintro ⟨front, hfront⟩
  have hleft : (front ++ place fast).getLast? = some ' ' := by
    rw [List.getLast?_append, show (place fast).getLast? = some ' ' by decide, Option.some_or]
  have hright : (before ++ ("unsigned char ".toList ++ (w ++ [c]))).getLast? = some c := by
    rw [← List.append_assoc, ← List.append_assoc, List.getLast?_concat]
  rw [List.concat_eq_append] at hfront hw
  have hc := hw.2 c (by simp)
  rw [hfront] at hleft
  have hleft := hright.symm.trans hleft
  rw [Option.some.inj hleft, Text.not_word (by decide)] at hc
  cases hc

theorem not_stateAhead_dropLast {role : List Char} (hrole : role ∈ roles) {c : Char}
    (hc : c ∈ ['u', 'c']) (rest : List Char) : ¬ StateAhead (role.dropLast ++ c :: rest) := by
  have hfacts : ∀ role ∈ roles, ∀ other ∈ roles, ∀ next ∈ [['u'], ['c']],
      ¬ role.dropLast ++ next <+: other ∧ ¬ other <+: role.dropLast ++ next := by decide
  rintro h
  obtain ⟨other, hother, d, after, -, hsplit⟩ := stateAhead_iff.mp h
  obtain ⟨hshort, hlong⟩ := hfacts role hrole other hother [c] (by simpa using hc)
  refine not_prefix_append hshort hlong rest ⟨d :: after, ?_⟩
  rw [← hsplit, List.append_assoc]
  rfl

theorem marks_at {m₁ m₂ n₁ n₂ : Marked} (h : m₁ ++ m₂ = n₁ ++ n₂) (hplain : plain m₁ = plain n₁) :
    m₂ = n₂ :=
  (List.append_inj h (by simpa [plain] using congrArg List.length hplain)).2

theorem unmarked_append (a b : List Char) : unmarked (a ++ b) = unmarked a ++ unmarked b :=
  List.map_append

section State

variable {m m₁ m₂ n₁ n₂ : Marked} {b : Bool} {c : Char} {role own name rest : List Char}

/-- The hint for the state does not see a variable whose first word ends the name of another
one. -/
theorem stateBehind_of_unseen (hmarks : Marks stateHint.wanted [] m)
    (hm : Keyword m m₁ false m₂) (hafter : ¬ place fast <:+ plain m₁)
    (hstate : StateAhead (plain m₂)) : StateBehind (plain m) := by
  obtain ⟨name, after, hname, hrest⟩ := hstate
  have hwants : stateHint.Wants (plain m₁).reverse
      ('u' :: plain (unmarked "nsigned char ".toList ++ m₂)) :=
    stateHint_wants_iff.mpr ⟨plain m₂, plain_keyword m₂, hafter, name, after, hname, hrest⟩
  rw [hm] at hmarks
  rcases marks_split hmarks with hfresh | ⟨n, c, u, v, n₂, rfl, hv, hsplit, hfinds⟩
  · rw [List.append_nil] at hfresh
    cases hfresh with
    | plain hnot _ => exact absurd hwants hnot
  · have hinside : v ++ plain n₂ = "unsigned char ".toList ++ plain m₂ := by
      rw [← plain_keyword, ← plain_unmarked v, ← plain_append, ← hsplit]
      rfl
    obtain ⟨w, hbegun, hw⟩ := begun_of_inside hfinds hv hinside
    refine ⟨w, name, hbegun, hname, plain n, after, ?_, ?_⟩
    · have hm₁ : plain (n ++ (true, c) :: unmarked u) = plain n ++ byte w := by
        rw [plain_append, ← hw, ← plain_unmarked (c :: u)]
        rfl
      rw [plain_of_keyword hm, hrest, hm₁, List.append_assoc, List.append_assoc (byte w)]
      exact congrArg (fun rest => plain n ++ (byte w ++ rest)) (List.append_assoc ..).symm
    · have hfirst := ((wanted_spells _).mp hfinds.spells).1
      rwa [List.append_nil, List.reverse_prefix] at hfirst

/-- A byte whose name would be the beginning of a role has no hint for the state. -/
theorem not_marked_of_dropLast (hmarks : Marks stateHint.wanted [] m) (hrole : role ∈ roles)
    (hc : c ∈ ['u', 'c']) (hrest : plain m₂ = role.dropLast ++ c :: rest) :
    ¬ Keyword m m₁ true m₂ := by
  intro hm
  rw [hm] at hmarks
  obtain ⟨others, hahead, -, hstate⟩ := stateHint_wants_iff.mp (wants_of_mark hmarks)
  rw [plain_keyword] at hahead
  rw [← List.append_cancel_left hahead, hrest] at hstate
  exact not_stateAhead_dropLast hrole hc _ hstate

/-- The hint for the state completes a role that is right before it. -/
theorem stateBehind_of_completed (hmarks : Marks stateHint.wanted [] m) (hrole : role ∈ roles)
    (hm : Keyword m m₁ false (unmarked role.dropLast ++ (true, c) :: m₂))
    (hafter : ¬ place fast <:+ plain m₁) : StateBehind (plain m) := by
  obtain ⟨m₀, rfl, hm₀⟩ := keyword_split hm
  obtain ⟨rest, hahead, -, name, after, hname, rfl⟩ :=
    stateHint_wants_iff.mp (wants_of_mark hmarks)
  refine ⟨role.dropLast, name, ⟨role, hrole, .inl rfl⟩, hname, plain m₁, after, ?_, hafter⟩
  rw [plain_append, hm₀, List.append_assoc (plain m₁), List.append_assoc (byte _)]
  exact congrArg (fun rest => plain m₁ ++ (byte role.dropLast ++ rest))
    (hahead.trans (List.append_assoc ..).symm)

/-- Behind the beginning of a role the second of two bytes completes it, if it has its hint; the
first one has none. -/
theorem pending_of_completed (hmarks : Marks stateHint.wanted [] m) (hrole : role ∈ roles)
    (hm : Keyword m m₁ b m₂) (hrest : plain m₂ = role.dropLast ++ (byte name ++ rest))
    (hn : Keyword m n₁ true n₂) (hn₁ : plain n₁ = plain m₁ ++ byte role.dropLast)
    (hafter : ¬ place fast <:+ plain m₁) : Pending (woven stateHint.text.toList m) := by
  have hh : stateHint ∈ hints := by simp [hints]
  have hroles : ∀ role ∈ roles, Keywordless role.dropLast := by decide
  have hkeyed := keyed_of_marks hh hmarks
  rw [pending_woven hh hkeyed]
  obtain ⟨m₄, rfl, hbyte⟩ :=
    unmarked_front (keyed_of_keyword hkeyed hm) (hroles role hrole) hrest
  obtain ⟨m₀, hm₀, hplain₀⟩ := keyword_split hm
  obtain rfl := marks_at (hm₀.symm.trans hn) (hplain₀.trans hn₁.symm)
  cases b with
  | false =>
    exact ⟨m₁, false, _, hm, hafter, (stateAhead_woven hh (keyed_of_keyword hkeyed hm)).mpr
      (.inr ⟨rfl, role, hrole, _, _, rfl⟩)⟩
  | true => exact absurd hm (not_marked_of_dropLast hmarks hrole (by decide) hrest)

/-- A match at the first of two bytes takes the first word of the second one, so both of them
cannot be marked. -/
theorem unmarked_of_named (hmarks : Marks stateHint.wanted [] m) (hrole : role ∈ roles)
    (hown : ∀ c ∈ own, Text.isWord c = true) (hm : Keyword m m₁ true m₂)
    (hrest : plain m₂ = (role ++ own) ++ (byte name ++ rest))
    (hn₁ : plain n₁ = plain m₁ ++ byte (role ++ own)) : ¬ Keyword m n₁ true n₂ := by
  have hwhole : IsName (role ++ own) := Begun.isName ⟨role, hrole, .inr ⟨own, hown, rfl⟩⟩
  intro hn
  rw [hm] at hmarks
  obtain ⟨piece, m₃, hsame, hfinds⟩ := finds_of_mark hmarks
  obtain ⟨found, hfound, hpiece⟩ := stateHint_spells.mp ((wanted_spells _).mp hfinds.spells).2
  obtain rfl : piece = "nsigned char ".toList ++ found := (List.cons.inj hpiece).2
  rw [unmarked_append, List.append_assoc] at hsame
  obtain rfl := List.append_cancel_left hsame
  rw [plain_append, plain_unmarked] at hrest
  have hword : found = (role ++ own) ++ "unsigned".toList := by
    refine word_unique hfound.isName.2 (word_append hwhole.2 unsigned_isWord)
      (clear_of_finds hfinds) (b := ' ' :: ("char ".toList ++ (name ++ rest)))
      (Text.not_word (by decide)) ?_
    rw [hrest, List.append_assoc (role ++ own) "unsigned".toList]
    exact congrArg (fun rest => (role ++ own) ++ rest)
      (List.append_assoc "unsigned char ".toList name rest)
  rw [hword, unmarked_append, List.append_assoc] at hm
  obtain ⟨m₀, hm₀, hplain₀⟩ := keyword_split hm
  cases marks_at (hm₀.symm.trans hn) (hplain₀.trans hn₁.symm)

theorem pending_of_stateBehind (hmarks : Marks stateHint.wanted [] m)
    (h : StateBehind (plain m)) : Pending (woven stateHint.text.toList m) := by
  have hh : stateHint ∈ hints := by simp [hints]
  have hkeyed := keyed_of_marks hh hmarks
  obtain ⟨w, name, hbegun, hname, before, rest, hsplit, hafter⟩ := h
  have hbehind : (byte w ++ byte name) ++ rest =
      byte w ++ ("unsigned char ".toList ++ (name ++ rest)) :=
    (List.append_assoc ..).trans (congrArg (byte w ++ ·) (List.append_assoc ..))
  have hsecond := hsplit
  rw [hbehind, ← List.append_assoc] at hsecond
  rw [byte_append_eq] at hsplit
  obtain ⟨m₁, b, m₂, hm, rfl, hrest⟩ := keyword_of_plain hkeyed hsplit
  obtain ⟨n₁, b', n₂, hn, hn₁, hn₂⟩ := keyword_of_plain hkeyed hsecond
  cases b' with
  | false =>
    refine (pending_woven hh hkeyed).mpr ⟨n₁, false, n₂, hn, ?_, ?_⟩
    · rw [if_neg (by simp), hn₁]
      exact not_place_suffix hbegun.isName
    · exact (stateAhead_woven hh (keyed_of_keyword hkeyed hn)).mpr (.inl ⟨name, rest, hname, hn₂⟩)
  | true =>
    obtain ⟨role, hrole, rfl | ⟨own, hown, rfl⟩⟩ := hbegun
    · exact pending_of_completed hmarks hrole hm hrest hn hn₁ hafter
    · cases b with
      | true => exact absurd hn (unmarked_of_named hmarks hrole hown hm hrest hn₁)
      | false =>
        refine (pending_woven hh hkeyed).mpr ⟨m₁, false, m₂, hm, hafter,
          (stateAhead_woven hh (keyed_of_keyword hkeyed hm)).mpr (.inl ?_)⟩
        rw [hrest]
        exact stateAhead_byte hrole hown name rest

end State

/-- The hint for the state leaves itself something to do in front of a variable that it does not
see, or that it makes out of a role. -/
theorem pending_state_iff (cs : List Char) : Pending (stateHint.insert cs) ↔ StateBehind cs := by
  have hh : stateHint ∈ hints := by simp [hints]
  obtain ⟨m, hmarks, rfl, hwoven⟩ := exists_marks stateHint.wanted stateHint.text.toList cs
  have hkeyed := keyed_of_marks hh hmarks
  rw [Hint.insert, ← hwoven]
  refine ⟨fun h => ?_, pending_of_stateBehind hmarks⟩
  obtain ⟨m₁, b, m₂, hm, hafter, hstate⟩ := (pending_woven hh hkeyed).mp h
  cases b with
  | true => exact absurd rfl hafter
  | false =>
    rcases (stateAhead_woven hh (keyed_of_keyword hkeyed hm)).mp hstate with
      hstate | ⟨-, role, hrole, c, m₃, rfl⟩
    · exact stateBehind_of_unseen hmarks hm hafter hstate
    · exact stateBehind_of_completed hmarks hrole hm hafter

end Cartridge.Code
