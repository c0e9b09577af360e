import Cartridge.Proofs.Code.Keywords
import Cartridge.Proofs.Code.Storage

/-!
# Hints that have nothing to do

A hint leaves the code as it is exactly if no place of the code wants it. A hint whose declarations
hold no second one is put in front of all that want it, so it has nothing to do the second time.

* `marks_split`: the marks from a place on.
* `insert_eq_self_iff`: the code that a hint leaves as it is.
* `Tight`, `not_wants_of_tight`: hints that no place is left to want.
* `idle_insert`, `idle_insert_of_ne`: what hints leave to do for one another.
-/

namespace Cartridge.Code

open Marked

/-! ## The marks from a place on -/

/-- From a place on the search begins anew, unless the place is inside a match. -/
theorem marks_split {p : Pattern} {before : List Char} {m₁ m₂ : Marked}
    (hmarks : Marks p before (m₁ ++ m₂)) :
    Marks p ((plain m₁).reverse ++ before) m₂ ∨
      ∃ n c u v n₂, m₁ = n ++ (true, c) :: unmarked u ∧ v ≠ [] ∧ m₂ = unmarked v ++ n₂ ∧
        Finds p ((plain n).reverse ++ before) (c :: (u ++ v)) (plain n₂) := by
  generalize hm : m₁ ++ m₂ = m at hmarks
  induction hmarks generalizing m₁ with
  | done before =>
    obtain ⟨rfl, rfl⟩ := List.append_eq_nil_iff.mp hm
    exact .inl (.done before)
  | @plain before c m hnot rest ih =>
    cases m₁ with
    | nil =>
      obtain rfl : m₂ = (false, c) :: m := hm
      exact .inl (.plain hnot rest)
    | cons x m₁ =>
      obtain ⟨rfl, htail⟩ := List.cons.inj hm
      rcases ih htail with hrest | ⟨n, d, u, v, n₂, rfl, hv, rfl, hfinds⟩
      · exact .inl (by simpa [plain] using hrest)
      · exact .inr ⟨(false, c) :: n, d, u, v, n₂, rfl, hv, rfl, by simpa [plain] using hfinds⟩
  | @found before piece c m hpiece rest ih =>
    cases m₁ with
    | nil =>
      obtain rfl : m₂ = (true, c) :: (unmarked piece ++ m) := hm
      exact .inl (.found hpiece rest)
    | cons x m₁ =>
      obtain ⟨rfl, htail⟩ := List.cons.inj hm
      rcases List.append_eq_append_iff.mp htail with ⟨s, hs, rfl⟩ | ⟨t, rfl, ht⟩
      · obtain ⟨u, v, rfl, rfl, rfl⟩ := List.map_eq_append_iff.mp hs
        by_cases hv : v = []
        · subst hv
          rcases ih (show [] ++ m = m from rfl) with hrest | ⟨n, d, u', v, n₂, hn, -⟩
          · refine .inl ?_
            simpa [plain, unmarked, Function.comp_def] using hrest
          · simp at hn
        · exact .inr ⟨[], c, u, v, m, rfl, hv, rfl, hpiece⟩
      · rcases ih ht.symm with hrest | ⟨n, d, u, v, n₂, rfl, hv, rfl, hfinds⟩
        · refine .inl ?_
          simpa [plain, unmarked, Function.comp_def] using hrest
        · refine .inr ⟨(true, c) :: (unmarked piece ++ n), d, u, v, n₂, by simp, hv, rfl, ?_⟩
          simpa [plain, unmarked, Function.comp_def] using hfinds

theorem finds_of_mark {p : Pattern} {before : List Char} {m₁ m₂ : Marked} {c : Char}
    (hmarks : Marks p before (m₁ ++ (true, c) :: m₂)) :
    ∃ piece m₃, m₂ = unmarked piece ++ m₃ ∧
      Finds p ((plain m₁).reverse ++ before) (c :: piece) (plain m₃) := by
  rcases marks_split hmarks with hrest | ⟨n, d, u, v, n₂, -, hv, hsplit, -⟩
  · cases hrest with
    | found hpiece _ => exact ⟨_, _, rfl, hpiece⟩
  · cases v with
    | nil => exact absurd rfl hv
    | cons e v => cases hsplit

theorem wants_of_mark {h : Hint} {m₁ m₂ : Marked} {c : Char}
    (hmarks : Marks h.wanted [] (m₁ ++ (true, c) :: m₂)) :
    h.Wants (plain m₁).reverse (c :: plain m₂) := by
  obtain ⟨piece, m₃, rfl, hfinds⟩ := finds_of_mark hmarks
  rw [List.append_nil] at hfinds
  refine ⟨c :: piece, plain m₃, ?_, by simp, hfinds.spells⟩
  rw [plain_append, plain_unmarked, List.cons_append]

/-! ## Hints that leave the code as it is -/

/-- No place of the code wants the hint. -/
def Hint.Idle (h : Hint) (cs : List Char) : Prop :=
  ∀ before ahead, cs = before ++ ahead → ¬ h.Wants before.reverse ahead

theorem text_ne_nil {h : Hint} (hh : h ∈ hints) : h.text.toList ≠ [] := by
  have hall : ∀ h ∈ hints, h.text.toList ≠ [] := by decide
  exact hall h hh

theorem woven_eq_plain_iff {text : List Char} (htext : text ≠ []) {m : Marked} :
    woven text m = plain m ↔ ∀ x ∈ m, x.1 = false := by
  induction m with
  | nil => simp [woven, plain]
  | cons x m ih =>
    obtain ⟨b, c⟩ := x
    rw [List.forall_mem_cons, ← ih]
    cases b with
    | false => simp [woven_false, plain]
    | true =>
      have hlength := (plain_sublist_woven text m).length_le
      have hpos := List.length_pos_iff.mpr htext
      refine iff_of_false (fun h => ?_) (by simp)
      have hsame := congrArg List.length h
      rw [woven_true, List.length_append, List.length_cons,
        show (plain ((true, c) :: m)).length = (plain m).length + 1 from rfl] at hsame
      omega

theorem insert_eq_self_iff {h : Hint} (hh : h ∈ hints) (cs : List Char) :
    h.insert cs = cs ↔ h.Idle cs := by
  obtain ⟨m, hmarks, rfl, hwoven⟩ := exists_marks h.wanted h.text.toList cs
  rw [Hint.insert, ← hwoven, woven_eq_plain_iff (text_ne_nil hh)]
  constructor
  · rintro hnone before ahead hsplit hwants
    obtain ⟨m₁, m₂, rfl, rfl, rfl⟩ := List.map_eq_append_iff.mp hsplit
    rcases marks_split hmarks with hrest | ⟨n, d, u, v, n₂, rfl, -⟩
    · rw [List.append_nil] at hrest
      cases hrest with
      | done =>
        obtain ⟨piece, after, hnil, hne, -⟩ := hwants
        exact hne (List.append_eq_nil_iff.mp hnil.symm).1
      | plain hnot _ => exact hnot hwants
      | @found _ piece c m => exact absurd (hnone (true, c) (by simp)) (by simp)
    · exact absurd (hnone (true, d) (by simp)) (by simp)
  · rintro hidle ⟨b, c⟩ hmem
    obtain ⟨m₁, m₂, rfl⟩ := List.append_of_mem hmem
    cases b with
    | false => rfl
    | true => exact absurd (wants_of_mark hmarks) (hidle _ _ (plain_append _ _))

/-! ## Hints whose declarations hold no second one -/

/-- The declarations begin with the keyword, no keyword and no hint begins behind its first letter,
and they are declarations whatever is around them. -/
structure Hint.Tight (h : Hint) (k : List Char) : Prop where
  keyword : k ∈ keywords
  piece : ∀ {before piece after}, h.declaration.Spells before piece after →
    ∃ c rest, piece = c :: rest ∧ k <+: piece ∧ Keywordless rest ∧
      ∀ g ∈ hints, Lacks g.text.toList rest
  moves : ∀ {before piece after}, h.declaration.Spells before piece after →
    ∀ before' after', h.declaration.Spells before' piece after'

/-- Declarations that have no blank behind the keyword and end with a bracket. -/
theorem tight_of {h : Hint} {k : List Char} (tails : List Char → Prop) (hk : k ∈ keywords)
    (hspells : ∀ before piece after, h.declaration.Spells before piece after ↔
      ∃ tail, tails tail ∧ piece = k ++ tail)
    (htails : ∀ tail, tails tail → tail.getLast? = some ']' ∧ ' ' ∉ tail) : h.Tight k where
  keyword := hk
  piece := fun hpiece => by
    obtain ⟨tail, htail, rfl⟩ := (hspells ..).mp hpiece
    have hfacts : ∀ k ∈ keywords, k ≠ [] ∧ ∀ lead ∈ keywords ++ hints.map (·.text.toList),
        Lacks lead k.tail ∧ ']' ∉ lead ∧ ' ' ∈ lead := by decide
    obtain ⟨hne, hleads⟩ := hfacts k hk
    obtain ⟨hlast, hsolid⟩ := htails tail htail
    have hlacks : ∀ lead ∈ keywords ++ hints.map (·.text.toList), Lacks lead (k.tail ++ tail) :=
      fun lead hlead => by
        obtain ⟨hfront, hnone, hblank⟩ := hleads lead hlead
        exact hfront.append (lacks_of_last ']' hlast hnone hblank hsolid)
    cases k with
    | nil => exact absurd rfl hne
    | cons c front =>
      refine ⟨c, front ++ tail, rfl, List.prefix_append _ _, fun k' hk' => ?_, fun g hg => ?_⟩
      · exact hlacks k' (List.mem_append_left _ hk')
      · exact hlacks _ (List.mem_append_right _ (List.mem_map_of_mem hg))
  moves := fun hpiece before' after' => (hspells ..).mpr ((hspells ..).mp hpiece)

theorem constantHint_tight : constantHint.Tight "const char ".toList := by
  refine tight_of (fun tail => ∃ name, IsName name ∧ tail = name ++ "[]".toList) (by decide)
    (fun before piece after => ?_) ?_
  · rw [constantHint_spells]
    constructor
    · rintro ⟨name, hname, h⟩
      exact ⟨_, ⟨name, hname, rfl⟩, h⟩
    · rintro ⟨_, ⟨name, hname, rfl⟩, h⟩
      exact ⟨name, hname, h⟩
  · rintro _ ⟨name, hname, rfl⟩
    refine ⟨by simp, ?_⟩
    simpa using not_mem_of_isName hname (c := ' ') (by decide)

theorem registerHint_tight : registerHint.Tight "unsigned char ".toList := by
  refine tight_of (fun tail => ∃ name size, IsName name ∧ '1' ≤ size ∧ size ≤ '4' ∧
    tail = name ++ ['[', size, ']']) (by decide) (fun before piece after => ?_) ?_
  · rw [registerHint_spells]
    constructor
    · rintro ⟨name, size, hname, hleast, hmost, h⟩
      exact ⟨_, ⟨name, size, hname, hleast, hmost, rfl⟩, h⟩
    · rintro ⟨_, ⟨name, size, hname, hleast, hmost, rfl⟩, h⟩
      exact ⟨name, size, hname, hleast, hmost, h⟩
  · rintro _ ⟨name, size, hname, hleast, -, rfl⟩
    have hsize : ' ' ≠ size := by
      rintro rfl
      exact absurd hleast (by decide)
    refine ⟨by simp, ?_⟩
    simpa using ⟨not_mem_of_isName hname (c := ' ') (by decide), hsize⟩

section Tight

variable {g h : Hint} {k : List Char} {m m₁ m₂ : Marked} {c : Char}

/-- Every place that wants a tight hint has it. -/
theorem not_wants_of_tight (htight : h.Tight k)
    (hmarks : Marks h.wanted [] (m₁ ++ (false, c) :: m₂)) :
    ¬ h.Wants (plain m₁).reverse (c :: plain m₂) := by
  rcases marks_split hmarks with hrest | ⟨n, d, u, v, n₂, rfl, hv, hsplit, hfinds⟩
  · rw [List.append_nil] at hrest
    cases hrest with
    | plain hnot _ => exact hnot
  · intro hwants
    obtain ⟨piece, after, hahead, -, -, hpiece⟩ := wants_iff.mp hwants
    obtain ⟨e, rest, rfl, hbegins, -⟩ := htight.piece hpiece
    obtain ⟨e', rest', hfound, -, hlacks, -⟩ :=
      htight.piece ((wanted_spells h).mp hfinds.spells).2
    obtain ⟨rfl, rfl⟩ := List.cons.inj hfound
    refine hlacks.not_begins htight.keyword rfl hv (plain n₂) ?_
    have hplain : c :: plain m₂ = v ++ plain n₂ := by
      have h := congrArg plain hsplit
      rwa [plain_append, plain_unmarked] at h
    rw [← hplain, hahead]
    exact hbegins.trans (List.prefix_append _ _)

/-- What wants a tight hint in the code with other hints, by its mark. -/
theorem wants_woven (htight : g.Tight k) (hg : g ∈ hints) (hh : h ∈ hints)
    (hmarks : Marks h.wanted [] m) {before ahead : List Char}
    (hsplit : woven h.text.toList m = before ++ ahead) (hwants : g.Wants before.reverse ahead) :
    ∃ m₁ b c m₂, m = m₁ ++ (b, c) :: m₂ ∧ k <+: c :: plain m₂ ∧
      before = woven h.text.toList m₁ ++ (if b then h.text.toList else []) ∧
      (b = false → g.Wants (plain m₁).reverse (c :: plain m₂)) := by
  have htexts : ∀ h ∈ hints, Keywordless h.text.toList := by decide
  have hkeyed := keyed_of_marks hh hmarks
  obtain ⟨piece, after, rfl, -, hafter, hpiece⟩ := wants_iff.mp hwants
  obtain ⟨c, rest, rfl, hbegins, -, hlacks⟩ := htight.piece hpiece
  obtain ⟨m₁, b, m₂, rfl, rfl, rfl⟩ := marked_of_woven htight.keyword hbegins (htexts h hh)
    (hlacks h hh) hsplit
  have hahead : c :: plain (unmarked rest ++ m₂) = c :: rest ++ plain m₂ := by
    rw [plain_append, plain_unmarked, List.cons_append]
  refine ⟨m₁, b, c, _, rfl, ?_, rfl, ?_⟩
  · rw [hahead]
    exact hbegins.trans (List.prefix_append _ _)
  · rintro rfl
    rw [hahead]
    refine wants_iff.mpr ⟨_, _, rfl, by simp, ?_, htight.moves hpiece _ _⟩
    rw [List.reverse_prefix, if_neg (by simp), List.append_nil] at hafter
    rw [List.reverse_prefix]
    exact fun hsuffix => hafter ((suffix_woven_iff hkeyed
      fun k hk u w hsplit hw => (htexts g hg).not_begins hk hsplit hw _).mpr hsuffix)

/-- Hints leave the declarations of tight hints as they are. -/
theorem somewhere_tight (htight : g.Tight k) (hh : h ∈ hints) {before piece after cs : List Char}
    (hpiece : g.declaration.Spells before piece after) :
    Somewhere (h.insert cs) piece (fun _ _ => True) ↔ Somewhere cs piece fun _ _ => True := by
  have htexts : ∀ h ∈ hints, Keywordless h.text.toList := by decide
  obtain ⟨c, rest, rfl, hbegins, hsolid, hlacks⟩ := htight.piece hpiece
  obtain ⟨m, hmarks, rfl, hwoven⟩ := exists_marks h.wanted h.text.toList cs
  rw [Hint.insert, ← hwoven]
  constructor
  · rintro ⟨front, tail, hsplit, -⟩
    obtain ⟨m₁, b, m₂, rfl, -⟩ := marked_of_woven htight.keyword hbegins (htexts h hh)
      (hlacks h hh) hsplit
    exact ⟨plain m₁, plain m₂, by rw [plain_append, plain_marked], trivial⟩
  · rintro ⟨front, tail, hsplit, -⟩
    obtain ⟨m₁, b, m₂, rfl, -⟩ := marked_of_plain (keyed_of_marks hh hmarks) hsolid hsplit
    refine ⟨woven h.text.toList m₁ ++ (if b then h.text.toList else []),
      woven h.text.toList m₂, ?_, trivial⟩
    rw [woven_append, woven_marked, List.append_assoc]

/-- A tight hint has nothing to do the second time. -/
theorem idle_insert (htight : h.Tight k) (hh : h ∈ hints) (cs : List Char) :
    h.Idle (h.insert cs) := by
  obtain ⟨m, hmarks, rfl, hwoven⟩ := exists_marks h.wanted h.text.toList cs
  rw [Hint.insert, ← hwoven]
  intro before ahead hsplit hwants
  obtain ⟨m₁, b, c, m₂, rfl, -, rfl, hplain⟩ := wants_woven htight hh hh hmarks hsplit hwants
  cases b with
  | false => exact not_wants_of_tight htight hmarks (hplain rfl)
  | true =>
    obtain ⟨-, -, -, -, hafter, -⟩ := wants_iff.mp hwants
    rw [List.reverse_prefix] at hafter
    exact hafter (List.suffix_append _ _)

/-- A tight hint that has nothing to do keeps nothing to do when hints with another keyword are put
in. -/
theorem idle_insert_of_ne {k' : List Char} (hg : g ∈ hints) (hgtight : g.Tight k) (hh : h ∈ hints)
    (hhtight : h.Tight k') (hne : ¬ k <+: k' ∧ ¬ k' <+: k) {cs : List Char} (hidle : g.Idle cs) :
    g.Idle (h.insert cs) := by
  obtain ⟨m, hmarks, rfl, hwoven⟩ := exists_marks h.wanted h.text.toList cs
  rw [Hint.insert, ← hwoven]
  intro before ahead hsplit hwants
  obtain ⟨m₁, b, c, m₂, rfl, hbegins, rfl, hplain⟩ :=
    wants_woven hgtight hg hh hmarks hsplit hwants
  cases b with
  | false => exact hidle _ _ (plain_append _ _) (hplain rfl)
  | true =>
    obtain ⟨piece, after, hahead, -, -, hpiece⟩ := wants_iff.mp (wants_of_mark hmarks)
    obtain ⟨d, rest, -, hother, -⟩ := hhtight.piece hpiece
    rw [hahead] at hbegins
    have hother := hother.trans (List.prefix_append _ after)
    exact (List.prefix_or_prefix_of_prefix hbegins hother).elim hne.1 hne.2

end Tight

end Cartridge.Code
