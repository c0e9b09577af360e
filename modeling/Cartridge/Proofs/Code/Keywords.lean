import Cartridge.Proofs.Code.Insertion

/-!
# Where a hint can be

A hint is put in front of a keyword and nowhere else. So a text in which no keyword begins is not
broken up by hints, whatever code it stands in.

* `Keyed`, `keyed_of_marks`: every mark is in front of a keyword.
* `unmarked_of_plain`: a piece in which no keyword begins has no mark.
* `Lacks`, `Keywordless`: texts in which another one, or a keyword, does not begin.
* `marked_of_plain`, `marked_of_woven`: pieces of the code by their marks, without the hints and
  with them.
* `insert_sublist`, `occursIn_insert`: what hints leave as it is.
-/

namespace Cartridge.Code

open Marked

/-- The first words of the declarations that want a hint. -/
def keywords : List (List Char) := ["unsigned char ", "const char "].map String.toList

theorem keyword_of_hint {h : Hint} (hh : h ∈ hints) {before ahead : List Char}
    (hwants : h.Wants before ahead) : ∃ k ∈ keywords, k <+: ahead := by
  have hfacts : ∀ lead ∈ leads, lead ≠ [] ∧
      (lead.head? = some 'u' ∨ lead.head? = some 'c' → lead ∈ keywords) := by decide
  obtain ⟨c, hc, hhead, -, lead, hlead, hbegins⟩ := keyword_of_mem_hints hh hwants
  obtain ⟨hne, hkeyword⟩ := hfacts lead hlead
  refine ⟨lead, hkeyword ?_, hbegins⟩
  obtain ⟨others, rfl⟩ := hbegins
  cases lead with
  | nil => exact absurd rfl hne
  | cons d lead =>
    cases hhead
    simpa using hc

/-- Every mark is in front of a keyword. -/
def Keyed (m : Marked) : Prop :=
  ∀ m₁ c m₂, m = m₁ ++ (true, c) :: m₂ → ∃ k ∈ keywords, k <+: c :: plain m₂

theorem keyed_of_marks {h : Hint} (hh : h ∈ hints) {m : Marked} (hmarks : Marks h.wanted [] m) :
    Keyed m := by
  rintro m₁ c m₂ rfl
  cases guided_split (guided_of_marks (solid_of_mem_hints hh) hmarks) with
  | hint hwants _ => exact keyword_of_hint hh hwants

section Pieces

variable {text : List Char} {m : Marked} {c : Char} {before piece rest : List Char}

/-- A piece of the code in which no keyword begins has no mark. -/
theorem unmarked_of_plain (hkeyed : Keyed m) (h : plain m = before ++ (piece ++ rest))
    (hpiece : ∀ k ∈ keywords, ∀ u w, piece = u ++ w → w ≠ [] → ¬ k <+: w ++ rest) :
    ∃ m₁ m₂, m = m₁ ++ (unmarked piece ++ m₂) ∧ plain m₁ = before ∧ plain m₂ = rest := by
  generalize htail : piece ++ rest = tail at h
  rw [← woven_nil] at h
  cases cut_of_woven h with
  | inside m₁ c m₂ htext hne => exact absurd (List.append_eq_nil_iff.mp htext.symm).1 hne
  | between m₁ m₂ =>
    rcases woven_eq_piece htail.symm with ⟨m₃, rfl, hrest⟩ | ⟨u, w, c, m₃, hsplit, hw, rfl, hinside⟩
    · exact ⟨m₁, m₃, rfl, (woven_nil m₁).symm, (hrest.trans (woven_nil m₃)).symm⟩
    · obtain ⟨k, hk, hbegins⟩ := hkeyed (m₁ ++ unmarked u) c m₃ (List.append_assoc ..).symm
      refine absurd ?_ (hpiece k hk u w hsplit hw)
      rwa [hinside, List.nil_append, woven_nil]

/-- Marks that end with a character of the code end with it, marked or not. -/
theorem marked_last {m₁ : Marked} (h : woven text m₁ = before ++ [c]) :
    ∃ m₀ b, m₁ = m₀ ++ [(b, c)] ∧ before = woven text m₀ ++ if b then text else [] := by
  rcases List.eq_nil_or_concat m₁ with rfl | ⟨m₀, ⟨b, d⟩, rfl⟩
  · exact absurd (congrArg List.length h) (by simp [woven])
  · have hlast : woven text [(b, d)] = (if b then text else []) ++ [d] := by
      cases b with
      | false => rfl
      | true => exact woven_true
    rw [List.concat_eq_append, woven_append, hlast, ← List.append_assoc] at h
    obtain ⟨hbefore, hd⟩ := List.append_inj' h rfl
    obtain ⟨rfl, -⟩ := List.cons.inj hd
    exact ⟨m₀, b, List.concat_eq_append, hbefore.symm⟩

end Pieces

/-! ## Texts that begin nowhere -/

/-- One text does not begin where the other does, whatever follows. -/
theorem not_prefix_append {k w : List Char} (hshort : ¬ w <+: k) (hlong : ¬ k <+: w)
    (rest : List Char) : ¬ k <+: w ++ rest := fun h =>
  (List.prefix_or_prefix_of_prefix h (List.prefix_append w rest)).elim hlong hshort

/-- The first text begins nowhere in the second one, whatever follows it. -/
def Lacks (lead text : List Char) : Prop :=
  ∀ n < text.length, ¬ text.drop n <+: lead ∧ ¬ lead <+: text.drop n

instance (lead text : List Char) : Decidable (Lacks lead text) :=
  inferInstanceAs (Decidable (∀ n < text.length,
    ¬ text.drop n <+: lead ∧ ¬ lead <+: text.drop n))

theorem lacks_iff {lead text : List Char} : Lacks lead text ↔
    ∀ u w, text = u ++ w → w ≠ [] → ∀ rest, ¬ lead <+: w ++ rest := by
  constructor
  · rintro h u w rfl hw rest
    have hlt : u.length < (u ++ w).length := by
      rw [List.length_append]
      have := List.length_pos_iff.mpr hw
      omega
    obtain ⟨hshort, hlong⟩ := h u.length hlt
    rw [List.drop_left] at hshort hlong
    exact not_prefix_append hshort hlong rest
  · intro h n hn
    have hnot := h (text.take n) (text.drop n) (List.take_append_drop n text).symm
      (by simpa using hn)
    refine ⟨?_, fun hlong => hnot [] (by simpa using hlong)⟩
    rintro ⟨rest, hrest⟩
    exact hnot rest (hrest ▸ List.prefix_refl _)

theorem Lacks.append {lead a b : List Char} (ha : Lacks lead a) (hb : Lacks lead b) :
    Lacks lead (a ++ b) := by
  rw [lacks_iff] at *
  intro u w hsplit hw rest
  rcases List.append_eq_append_iff.mp hsplit with ⟨inner, rfl, rfl⟩ | ⟨inner, rfl, rfl⟩
  · exact hb inner w rfl hw rest
  · by_cases hinner : inner = []
    · rw [hinner, List.nil_append] at hw ⊢
      exact hb [] b rfl hw rest
    · rw [List.append_assoc]
      exact ha u inner rfl hinner (b ++ rest)

/-- A text with a blank does not begin in one that has no blank and ends with a character that the
first text does not have. -/
theorem lacks_of_last {lead text : List Char} (last : Char) (hlast : text.getLast? = some last)
    (hnone : last ∉ lead) (hblank : ' ' ∈ lead) (hsolid : ' ' ∉ text) : Lacks lead text :=
  lacks_iff.mpr fun _ _ hsplit hw _ => not_keyword_of_last last hw hsplit hlast hnone hblank hsolid

/-- No keyword begins in the text, whatever follows it. -/
def Keywordless (text : List Char) : Prop := ∀ k ∈ keywords, Lacks k text

instance (text : List Char) : Decidable (Keywordless text) :=
  inferInstanceAs (Decidable (∀ k ∈ keywords, Lacks k text))

theorem Keywordless.not_begins {text k u w : List Char} (h : Keywordless text) (hk : k ∈ keywords)
    (hsplit : text = u ++ w) (hw : w ≠ []) (rest : List Char) : ¬ k <+: w ++ rest :=
  lacks_iff.mp (h k hk) u w hsplit hw rest

/-! ## Pieces of the code and what they are in front of -/

section Places

variable {text : List Char} {m : Marked} {c : Char} {before piece rest : List Char}

theorem plain_marked (b : Bool) (c : Char) (piece : List Char) (m : Marked) :
    plain ((b, c) :: (unmarked piece ++ m)) = (c :: piece) ++ plain m := by
  show c :: plain (unmarked piece ++ m) = _
  rw [plain_append, plain_unmarked]
  rfl

theorem woven_marked (text : List Char) (b : Bool) (c : Char) (piece : List Char) (m : Marked) :
    woven text ((b, c) :: (unmarked piece ++ m)) =
      (if b then text else []) ++ ((c :: piece) ++ woven text m) := by
  cases b with
  | false =>
    rw [woven_false, woven_append, woven_unmarked]
    rfl
  | true =>
    rw [woven_true, woven_append, woven_unmarked]
    rfl

/-- A piece that no keyword breaks up, in the code without the hints. -/
theorem marked_of_plain (hkeyed : Keyed m) (hpiece : Keywordless piece)
    (h : plain m = before ++ (c :: (piece ++ rest))) :
    ∃ m₁ b m₂, m = m₁ ++ (b, c) :: (unmarked piece ++ m₂) ∧ plain m₁ = before ∧
      plain m₂ = rest := by
  have hshift : plain m = (before ++ [c]) ++ (piece ++ rest) := by rw [h]; simp
  obtain ⟨m₁, m₂, rfl, hbefore, hrest⟩ := unmarked_of_plain hkeyed hshift
    fun k hk u w hsplit hw => hpiece.not_begins hk hsplit hw rest
  rw [← woven_nil] at hbefore
  obtain ⟨m₀, b, rfl, hfront⟩ := marked_last hbefore
  exact ⟨m₀, b, m₂, by simp, by simpa [woven_nil] using hfront.symm, hrest⟩

/-- A piece at the beginning of the code. -/
theorem unmarked_front (hkeyed : Keyed m) (hpiece : Keywordless piece)
    (h : plain m = piece ++ rest) : ∃ m₂, m = unmarked piece ++ m₂ ∧ plain m₂ = rest := by
  have hfront : plain m = [] ++ (piece ++ rest) := h
  obtain ⟨m₁, m₂, rfl, hnil, hrest⟩ := unmarked_of_plain hkeyed hfront
    fun k hk u w hsplit hw => hpiece.not_begins hk hsplit hw rest
  obtain rfl := List.map_eq_nil_iff.mp hnil
  exact ⟨m₂, rfl, hrest⟩

/-- A piece that the hint does not break up, in the code with the hints. -/
theorem unmarked_of_woven (hpiece : Lacks text piece) (h : woven text m = piece ++ rest) :
    ∃ m₂, m = unmarked piece ++ m₂ ∧ rest = woven text m₂ := by
  rcases woven_eq_piece h with hplain | ⟨u, w, d, m₂, hsplit, hw, rfl, hinside⟩
  · exact hplain
  · exact absurd ⟨d :: woven text m₂, hinside.symm⟩ (lacks_iff.mp hpiece u w hsplit hw rest)

/-- A piece that begins with a keyword and that the hint does not break up, in the code with the
hints. -/
theorem marked_of_woven {k : List Char} (hk : k ∈ keywords) (hbegins : k <+: c :: piece)
    (htext : Keywordless text) (hpiece : Lacks text piece)
    (h : woven text m = before ++ (c :: (piece ++ rest))) :
    ∃ m₁ b m₂, m = m₁ ++ (b, c) :: (unmarked piece ++ m₂) ∧
      before = woven text m₁ ++ (if b then text else []) ∧ rest = woven text m₂ := by
  have hshift : woven text m = (before ++ [c]) ++ (piece ++ rest) := by rw [h]; simp
  generalize hfront : before ++ [c] = front at hshift
  generalize htail : piece ++ rest = tail at hshift
  cases cut_of_woven hshift with
  | @inside m₁ d m₂ t₁ t₂ hsplit hne =>
    -- the keyword would begin with the last character of the part of the hint
    obtain ⟨t, e, rfl⟩ := (List.eq_nil_or_concat t₁).resolve_left hne
    rw [List.concat_eq_append, ← List.append_assoc] at hfront
    obtain ⟨-, he⟩ := List.append_inj' hfront rfl
    obtain ⟨rfl, -⟩ := List.cons.inj he
    refine absurd ?_ (htext.not_begins hk (u := t) (w := c :: t₂) (by simp [hsplit]) (by simp)
      (d :: woven text m₂))
    rw [List.cons_append, ← htail, ← List.cons_append]
    exact hbegins.trans (List.prefix_append _ _)
  | between m₁ m₂ =>
    obtain ⟨m₀, b, rfl, hbefore⟩ := marked_last hfront.symm
    obtain ⟨m₃, rfl, hrest⟩ := unmarked_of_woven hpiece htail.symm
    exact ⟨m₀, b, m₃, by simp, hbefore, hrest⟩

/-- What ends before a place, with the hints and without. -/
theorem suffix_woven_iff {m₁ m₂ : Marked} (hkeyed : Keyed (m₁ ++ m₂))
    (hpiece : ∀ k ∈ keywords, ∀ u w, piece = u ++ w → w ≠ [] → ¬ k <+: w ++ plain m₂) :
    piece <:+ woven text m₁ ↔ piece <:+ plain m₁ := by
  induction hn : m₁.length generalizing m₁ m₂ piece with
  | zero =>
    obtain rfl := List.length_eq_zero_iff.mp hn
    rfl
  | succ n ih =>
    obtain ⟨m₀, ⟨b, c⟩, rfl⟩ :=
      (List.eq_nil_or_concat m₁).resolve_left (List.ne_nil_of_length_eq_add_one hn)
    rw [List.concat_eq_append] at *
    rcases List.eq_nil_or_concat piece with rfl | ⟨front, d, rfl⟩
    · simp
    rw [List.concat_eq_append] at *
    have hlast (a : List Char) : front ++ [d] <:+ a ++ [c] ↔ d = c ∧ front <:+ a := by
      constructor
      · rintro ⟨t, ht⟩
        rw [← List.append_assoc] at ht
        obtain ⟨rfl, hd⟩ := List.append_inj' ht rfl
        exact ⟨(List.cons.inj hd).1, List.suffix_append t front⟩
      · rintro ⟨rfl, t, rfl⟩
        exact ⟨t, by simp⟩
    rw [woven_append, plain_append, show plain [(b, c)] = [c] from rfl, hlast]
    cases b with
    | false =>
      rw [show woven text [(false, c)] = [c] from rfl, hlast]
      refine and_congr_right ?_
      rintro rfl
      rw [List.append_assoc] at hkeyed
      refine ih hkeyed (fun k hk u w hsplit hw => ?_) (by simpa using hn)
      have hnot := hpiece k hk u (w ++ [d]) (by simp [hsplit]) (by simp)
      rwa [List.append_assoc] at hnot
    | true =>
      rw [woven_true, ← List.append_assoc, show woven text [] = [] from rfl, hlast]
      refine and_congr_right ?_
      rintro rfl
      obtain ⟨k, hk, hbegins⟩ := hkeyed m₀ d m₂ (by simp)
      exact absurd hbegins (hpiece k hk front [d] rfl (by simp))

end Places

/-! ## What hints leave as it is -/

theorem plain_sublist_woven (text : List Char) (m : Marked) : (plain m).Sublist (woven text m) := by
  induction m with
  | nil => exact .slnil
  | cons x m ih =>
    obtain ⟨b, c⟩ := x
    cases b with
    | false => exact ih.cons_cons c
    | true =>
      rw [woven_true]
      exact (ih.cons_cons c).trans (List.sublist_append_right _ _)

theorem insert_sublist (h : Hint) (cs : List Char) : cs.Sublist (h.insert cs) := by
  obtain ⟨m, -, rfl, hwoven⟩ := exists_marks h.wanted h.text.toList cs
  rw [Hint.insert, ← hwoven]
  exact plain_sublist_woven _ m

theorem occursIn_insert {h : Hint} (hh : h ∈ hints) {text cs : List Char}
    (htext : Keywordless text) (hoccurs : Text.occursIn text cs = true) :
    Text.occursIn text (h.insert cs) = true := by
  obtain ⟨m, hmarks, rfl, hwoven⟩ := exists_marks h.wanted h.text.toList cs
  obtain ⟨before, rest, hsplit⟩ := Text.occursIn_iff.mp hoccurs
  rw [List.append_assoc] at hsplit
  obtain ⟨m₁, m₂, rfl, -, -⟩ := unmarked_of_plain (keyed_of_marks hh hmarks) hsplit
    fun k hk u w hpiece hw => htext.not_begins hk hpiece hw rest
  rw [Hint.insert, ← hwoven, woven_append, woven_append, woven_unmarked]
  exact Text.occursIn_iff.mpr ⟨_, _, (List.append_assoc ..).symm⟩

end Cartridge.Code
