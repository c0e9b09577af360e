import Mathlib.Data.List.Basic
import Cartridge.Text.Blank

/-!
# Pieces taken out of a text

What is left of a text when certain pieces are taken out of it, each with the white space behind it.
A piece goes from a `#` to the next `>`, so no two of them overlap, and a text falls apart wherever
no piece goes across.

* `Leaves`: what is left.
* `leaves_cons_iff`, `leaves_piece_iff`, `leaves_append_iff`: what is left, from the front.
* `Leaves.split`: what is left of two texts is what is left of each.
* `Leaves.merge`: what is left when two kinds of pieces are taken out.
-/

namespace Cartridge.Text

/-! ## Pieces -/

/-- From a number sign to the next closing bracket. -/
def Bracketed (piece : List Char) : Prop :=
  ∃ inner, piece = '#' :: inner ++ ['>'] ∧ '#' ∉ inner ∧ '>' ∉ inner

/-- The text begins with one of the pieces. -/
def Begins (D : List Char → Prop) (cs : List Char) : Prop :=
  ∃ piece rest, D piece ∧ cs = piece ++ rest

/-- The text ends with one of the pieces. -/
def Ends (D : List Char → Prop) (cs : List Char) : Prop :=
  ∃ front piece, D piece ∧ cs = front ++ piece

/-- One of the pieces begins in the first text and ends in the second. -/
def Crosses (D : List Char → Prop) (front back : List Char) : Prop :=
  ∃ x p q y, front = x ++ p ∧ back = q ++ y ∧ p ≠ [] ∧ q ≠ [] ∧ D (p ++ q)

/-- Nothing but pieces and white space. -/
inductive Pieces (D : List Char → Prop) : List Char → Prop
  | done : Pieces D []
  | blank {c : Char} {rest : List Char} (hc : isBlank c = true) (hrest : Pieces D rest) :
      Pieces D (c :: rest)
  | piece {piece rest : List Char} (hpiece : D piece) (hrest : Pieces D rest) :
      Pieces D (piece ++ rest)

/-- What is left of a text when the pieces are taken out, each with the white space behind it. -/
inductive Leaves (D : List Char → Prop) : List Char → List Char → Prop
  | done : Leaves D [] []
  | keep {c : Char} {rest out : List Char} (h : ¬ Begins D (c :: rest))
      (hrest : Leaves D rest out) : Leaves D (c :: rest) (c :: out)
  | drop {cs piece rest out : List Char} (hpiece : D piece) (hcs : cs = piece ++ rest)
      (hrest : Leaves D (stripLeft rest) out) : Leaves D cs out

theorem Bracketed.cancel {p q r s : List Char} (hp : Bracketed p) (hq : Bracketed q)
    (h : p ++ r = q ++ s) : p = q ∧ r = s := by
  obtain ⟨inner, rfl, -, hinner⟩ := hp
  obtain ⟨inner', rfl, -, hinner'⟩ := hq
  have h : inner ++ '>' :: r = inner' ++ '>' :: s := by simpa using h
  rcases List.append_eq_append_iff.mp h with ⟨a, rfl, ha⟩ | ⟨a, rfl, ha⟩ <;> cases a
  · simpa using ha
  · cases ha
    simp at hinner'
  · simpa using ha.symm
  · cases ha
    simp at hinner

theorem Bracketed.eq_cons {p : List Char} (hp : Bracketed p) :
    ∃ rest, p = '#' :: rest ∧ rest ≠ [] ∧ '#' ∉ rest := by
  obtain ⟨inner, rfl, hinner, -⟩ := hp
  exact ⟨inner ++ ['>'], rfl, by simp, by simp [hinner]⟩

theorem Bracketed.eq_concat {p : List Char} (hp : Bracketed p) :
    ∃ front, p = front ++ ['>'] := by
  obtain ⟨inner, rfl, -, -⟩ := hp
  exact ⟨'#' :: inner, rfl⟩

section

variable {D : List Char → Prop} {c : Char} {rest out u v : List Char}

theorem Begins.append (h : Begins D u) (v : List Char) : Begins D (u ++ v) := by
  obtain ⟨piece, rest, hpiece, rfl⟩ := h
  exact ⟨piece, rest ++ v, hpiece, List.append_assoc _ _ _⟩

theorem Begins.of_append (h : Begins D (u ++ v)) (hcross : ¬ Crosses D u v) (hu : u ≠ []) :
    Begins D u := by
  obtain ⟨piece, rest, hpiece, h⟩ := h
  rcases List.append_eq_append_iff.mp h with ⟨q, rfl, rfl⟩ | ⟨rest, rfl, -⟩
  · by_cases hq : q = []
    · subst hq
      exact ⟨_, [], hpiece, by simp⟩
    · exact absurd ⟨[], u, q, rest, rfl, rfl, hu, hq, hpiece⟩ hcross
  · exact ⟨piece, rest, hpiece, rfl⟩

theorem Crosses.append_left (x : List Char) (h : Crosses D u v) : Crosses D (x ++ u) v := by
  obtain ⟨w, p, q, y, rfl, rfl, hp, hq, hpiece⟩ := h
  exact ⟨x ++ w, p, q, y, (List.append_assoc _ _ _).symm, rfl, hp, hq, hpiece⟩

theorem Pieces.blank_append {gap : List Char} (hgap : ∀ c ∈ gap, isBlank c = true)
    (h : Pieces D rest) : Pieces D (gap ++ rest) := by
  induction gap with
  | nil => exact h
  | cons c gap ih =>
    rw [List.forall_mem_cons] at hgap
    exact .blank hgap.1 (ih hgap.2)

theorem leaves_nil_iff (hD : ∀ piece, D piece → Bracketed piece) : Leaves D [] out ↔ out = [] := by
  constructor
  · intro h
    cases h with
    | done => rfl
    | drop hpiece hcs _ =>
      obtain ⟨tail, rfl, -, -⟩ := (hD _ hpiece).eq_cons
      cases hcs
  · rintro rfl
    exact .done

theorem leaves_cons_iff (h : ¬ Begins D (c :: rest)) :
    Leaves D (c :: rest) out ↔ ∃ out', out = c :: out' ∧ Leaves D rest out' := by
  constructor
  · intro hleaves
    cases hleaves with
    | keep _ hrest => exact ⟨_, rfl, hrest⟩
    | drop hpiece hcs _ => exact absurd ⟨_, _, hpiece, hcs⟩ h
  · rintro ⟨out', rfl, hrest⟩
    exact .keep h hrest

/-- Where no piece begins, nothing is taken out. -/
theorem leaves_append_iff {p : List Char}
    (h : ∀ q, q ≠ [] → q <:+ p → ¬ Begins D (q ++ rest)) :
    Leaves D (p ++ rest) out ↔ ∃ out', out = p ++ out' ∧ Leaves D rest out' := by
  induction p generalizing out with
  | nil => simp
  | cons c p ih =>
    have hc : ¬ Begins D (c :: (p ++ rest)) := h _ (List.cons_ne_nil _ _) (List.suffix_refl _)
    have hp : ∀ q, q ≠ [] → q <:+ p → ¬ Begins D (q ++ rest) :=
      fun q hq hsuffix => h q hq (hsuffix.trans (List.suffix_cons c p))
    rw [List.cons_append, leaves_cons_iff hc]
    constructor
    · rintro ⟨out', rfl, hrest⟩
      obtain ⟨out'', rfl, hrest'⟩ := (ih hp).mp hrest
      exact ⟨out'', rfl, hrest'⟩
    · rintro ⟨out', rfl, hrest⟩
      exact ⟨p ++ out', rfl, (ih hp).mpr ⟨out', rfl, hrest⟩⟩

/-- Text in front of which no white space stands leaves none at its beginning. -/
theorem Leaves.stripLeft_eq (h : Leaves D u out) (hu : stripLeft u = u) : stripLeft out = out := by
  induction h with
  | done => rfl
  | keep _ _ _ => exact stripLeft_of_head (not_blank_of_stripLeft_eq hu) _
  | drop _ _ _ ih => exact ih (stripLeft_stripLeft _)

/-- What is left of two texts is what is left of each, unless a piece goes across or the second text
loses the white space that it begins with. -/
theorem Leaves.split (h : Leaves D (u ++ v) out) (hcross : ¬ Crosses D u v)
    (hv : stripLeft v = v) : ∃ front back, out = front ++ back ∧ Leaves D u front ∧
      Leaves D v back := by
  generalize hcs : u ++ v = cs at h
  induction h generalizing u with
  | done =>
    obtain ⟨rfl, rfl⟩ := List.append_eq_nil_iff.mp hcs
    exact ⟨[], [], rfl, .done, .done⟩
  | @keep c rest out hnone hrest ih =>
    cases u with
    | nil => exact ⟨[], c :: out, rfl, .done, (show v = c :: rest from hcs) ▸ .keep hnone hrest⟩
    | cons d u =>
      obtain ⟨rfl, rfl⟩ := List.cons.inj hcs
      obtain ⟨front, back, rfl, hfront, hback⟩ := ih (fun h => hcross (h.append_left [d])) rfl
      exact ⟨d :: front, back, rfl, .keep (fun h => hnone (h.append v)) hfront, hback⟩
  | @drop cs piece rest out hpiece hcs' hrest ih =>
    subst hcs'
    rcases List.append_eq_append_iff.mp hcs with ⟨q, rfl, rfl⟩ | ⟨a, rfl, rfl⟩
    · by_cases hu : u = []
      · subst hu
        exact ⟨[], out, rfl, .done, .drop hpiece rfl hrest⟩
      · by_cases hq : q = []
        · subst hq
          rw [List.append_nil] at hpiece
          refine ⟨[], out, rfl, .drop hpiece (List.append_nil u).symm .done, ?_⟩
          rw [List.nil_append] at hv ⊢
          rwa [hv] at hrest
        · exact absurd ⟨[], u, q, rest, rfl, rfl, hu, hq, hpiece⟩ hcross
    · obtain ⟨gap, ha, -⟩ := exists_blank_append_stripLeft a
      have hcross' : ¬ Crosses D (stripLeft a) v := by
        intro h
        have h := h.append_left (piece ++ gap)
        rw [List.append_assoc, ← ha] at h
        exact hcross h
      obtain ⟨front, back, rfl, hfront, hback⟩ := ih hcross' (stripLeft_append hv a).symm
      exact ⟨front, back, rfl, .drop hpiece rfl hfront, hback⟩

/-- If only white space is left, the text has pieces and white space behind it. -/
theorem Leaves.pieces_of_blank (h : Leaves D u out) (hout : ∀ c ∈ out, isBlank c = true) :
    ∃ run, u = out ++ run ∧ (run = [] ∨ Begins D run ∧ Pieces D run) := by
  induction h with
  | done => exact ⟨[], rfl, .inl rfl⟩
  | @keep c rest out _ _ ih =>
    rw [List.forall_mem_cons] at hout
    obtain ⟨run, rfl, hrun⟩ := ih hout.2
    exact ⟨run, rfl, hrun⟩
  | @drop cs piece rest out hpiece hcs hrest ih =>
    obtain ⟨run, hrest', hrun⟩ := ih hout
    obtain ⟨gap, hgap, hblank⟩ := exists_blank_append_stripLeft rest
    have hnil : out = [] := by
      have hstrip := hrest.stripLeft_eq (stripLeft_stripLeft rest)
      cases out with
      | nil => rfl
      | cons c out =>
        have hc := hout c List.mem_cons_self
        rw [not_blank_of_stripLeft_eq hstrip] at hc
        cases hc
    subst hnil
    have hpieces : Pieces D (stripLeft rest) := by
      rw [hrest']
      rcases hrun with rfl | ⟨-, hrun⟩
      · exact .done
      · exact hrun
    refine ⟨cs, rfl, .inr ⟨⟨piece, rest, hpiece, hcs⟩, ?_⟩⟩
    rw [hcs, hgap]
    exact .piece hpiece (hpieces.blank_append hblank)

end

/-! ## What is left, from the front -/

section

variable {D : List Char → Prop} (hD : ∀ piece, D piece → Bracketed piece) {c : Char}
  {rest out out' u v : List Char}

include hD

theorem not_begins_of_ne (hc : c ≠ '#') : ¬ Begins D (c :: rest) := by
  rintro ⟨piece, tail, hpiece, h⟩
  obtain ⟨inner, rfl, -, -⟩ := (hD piece hpiece).eq_cons
  exact hc (List.cons.inj h).1

theorem not_begins_of_blank (hc : isBlank c = true) : ¬ Begins D (c :: rest) := by
  refine not_begins_of_ne hD ?_
  rintro rfl
  exact absurd hc (by decide)

theorem not_begins_of_unmarked {p : List Char} (hp : '#' ∉ p) (q : List Char) (hq : q ≠ [])
    (hsuffix : q <:+ p) : ¬ Begins D (q ++ rest) := by
  obtain ⟨c, q, rfl⟩ := List.exists_cons_of_ne_nil hq
  refine not_begins_of_ne hD ?_
  rintro rfl
  exact hp (hsuffix.subset List.mem_cons_self)

/-- Within a piece no other begins. -/
theorem not_begins_within {p q : List Char} (hpq : Bracketed (p ++ q)) (hp : p ≠ []) (hq : q ≠ []) :
    ¬ Begins D (q ++ rest) := by
  obtain ⟨inner, hinner, -, hnot⟩ := hpq.eq_cons
  obtain ⟨a, p, rfl⟩ := List.exists_cons_of_ne_nil hp
  obtain ⟨-, rfl⟩ := List.cons.inj hinner
  have hmark : '#' ∉ q := fun h => hnot (List.mem_append_right p h)
  exact not_begins_of_unmarked hD hmark q hq (List.suffix_refl q)

/-- Where a piece of another kind stands, none begins before it ends. -/
theorem not_begins_from {piece : List Char} (hpiece : Bracketed piece) (hnone : ¬ D piece)
    (q : List Char) (hq : q ≠ []) (hsuffix : q <:+ piece) : ¬ Begins D (q ++ rest) := by
  obtain ⟨p, rfl⟩ := hsuffix
  by_cases hp : p = []
  · subst hp
    rintro ⟨piece, tail, hother, h⟩
    obtain ⟨rfl, -⟩ := hpiece.cancel (hD _ hother) h
    exact hnone hother
  · exact not_begins_within hD hpiece hp hq

theorem stripLeft_of_begins (h : Begins D u) : stripLeft u = u := by
  obtain ⟨piece, tail, hpiece, rfl⟩ := h
  obtain ⟨inner, rfl, -, -⟩ := (hD piece hpiece).eq_cons
  exact stripLeft_of_head (by decide) _

theorem leaves_piece_iff {piece : List Char} (hpiece : D piece) :
    Leaves D (piece ++ rest) out ↔ Leaves D (stripLeft rest) out := by
  constructor
  · intro h
    generalize hcs : piece ++ rest = cs at h
    cases h with
    | done =>
      obtain ⟨inner, rfl, -, -⟩ := (hD piece hpiece).eq_cons
      cases hcs
    | keep hnone _ => exact absurd ⟨piece, rest, hpiece, hcs.symm⟩ hnone
    | drop hpiece' hcs' hrest =>
      obtain ⟨-, rfl⟩ := (hD _ hpiece).cancel (hD _ hpiece') (hcs.trans hcs')
      exact hrest
  · exact .drop hpiece rfl

theorem leaves_blank_append_iff {gap : List Char} (hgap : ∀ c ∈ gap, isBlank c = true) :
    Leaves D (gap ++ rest) out ↔ ∃ out', out = gap ++ out' ∧ Leaves D rest out' := by
  have hmark : '#' ∉ gap := fun h => absurd (hgap '#' h) (by decide)
  exact leaves_append_iff (not_begins_of_unmarked hD hmark)

theorem Leaves.unique (h : Leaves D u out) (h' : Leaves D u out') : out = out' := by
  induction h generalizing out' with
  | done => exact ((leaves_nil_iff hD).mp h').symm
  | keep hnone _ ih =>
    obtain ⟨out'', rfl, hrest⟩ := (leaves_cons_iff hnone).mp h'
    rw [ih hrest]
  | drop hpiece hcs _ ih =>
    subst hcs
    exact ih ((leaves_piece_iff hD hpiece).mp h')

/-- A text of pieces and white space leaves nothing but the white space that it begins with. -/
theorem Pieces.leaves (h : Pieces D u) : Leaves D (stripLeft u) [] := by
  induction h with
  | done => exact .done
  | @blank c rest hc _ ih =>
    rwa [show stripLeft (c :: rest) = stripLeft rest by simp [stripLeft, hc]]
  | piece hpiece _ ih =>
    rw [stripLeft_of_begins hD ⟨_, _, hpiece, rfl⟩]
    exact .drop hpiece rfl ih

end

/-! ## One removal after another -/

section

variable (D : List Char → Prop) [DecidablePred (Begins D)]

/-- The number of places of the text at which a piece begins. -/
def pieceCount : List Char → Nat
  | [] => 0
  | c :: cs => pieceCount cs + if Begins D (c :: cs) then 1 else 0

variable {D} {rest u v : List Char}

theorem pieceCount_append_of_none {p : List Char}
    (h : ∀ q, q ≠ [] → q <:+ p → ¬ Begins D (q ++ rest)) :
    pieceCount D (p ++ rest) = pieceCount D rest := by
  induction p with
  | nil => rfl
  | cons c p ih =>
    have hc : ¬ Begins D (c :: (p ++ rest)) := h _ (List.cons_ne_nil _ _) (List.suffix_refl _)
    rw [List.cons_append, pieceCount, if_neg hc, Nat.add_zero]
    exact ih fun q hq hsuffix => h q hq (hsuffix.trans (List.suffix_cons c p))

theorem pieceCount_cons_le {c : Char} (h : pieceCount D u ≤ pieceCount D v)
    (hbegins : Begins D (c :: u) → Begins D (c :: v)) :
    pieceCount D (c :: u) ≤ pieceCount D (c :: v) := by
  rw [pieceCount, pieceCount]
  by_cases hu : Begins D (c :: u)
  · rw [if_pos hu, if_pos (hbegins hu)]
    exact Nat.succ_le_succ h
  · rw [if_neg hu]
    exact Nat.le_trans h (Nat.le_add_right _ _)

theorem pieceCount_add_le (u v : List Char) :
    pieceCount D u + pieceCount D v ≤ pieceCount D (u ++ v) := by
  induction u with
  | nil => simp [pieceCount]
  | cons c u ih =>
    rw [List.cons_append, pieceCount, pieceCount]
    by_cases hu : Begins D (c :: u)
    · rw [if_pos hu, if_pos (show Begins D (c :: (u ++ v)) from hu.append v)]
      omega
    · rw [if_neg hu]
      omega

theorem pieceCount_append (hcross : ¬ Crosses D u v) :
    pieceCount D (u ++ v) = pieceCount D u + pieceCount D v := by
  induction u with
  | nil => simp [pieceCount]
  | cons c u ih =>
    have hsame : Begins D (c :: (u ++ v)) ↔ Begins D (c :: u) :=
      ⟨fun h => h.of_append hcross (List.cons_ne_nil _ _), fun h => h.append v⟩
    rw [List.cons_append, pieceCount, pieceCount, ih fun h => hcross (h.append_left [c])]
    simp only [hsame]
    omega

end

section

variable {D E : List Char → Prop} [DecidablePred (Begins E)]
  (hD : ∀ piece, D piece → Bracketed piece) (hE : ∀ piece, E piece → Bracketed piece)
  (hDE : ∀ piece, D piece → ¬ E piece) {cs rest mid out : List Char}

include hE

theorem pieceCount_stripLeft (cs : List Char) : pieceCount E (stripLeft cs) = pieceCount E cs := by
  obtain ⟨gap, hgap, hblank⟩ := exists_blank_append_stripLeft cs
  have hmark : '#' ∉ gap := fun h => absurd (hblank '#' h) (by decide)
  rw [hgap, pieceCount_append_of_none (not_begins_of_unmarked hE hmark), ← hgap]

theorem pieceCount_piece {piece : List Char} (hpiece : E piece) (rest : List Char) :
    pieceCount E (piece ++ rest) = pieceCount E rest + 1 := by
  have hbegins : Begins E (piece ++ rest) := ⟨piece, rest, hpiece, rfl⟩
  obtain ⟨tail, rfl, -, hmark⟩ := (hE piece hpiece).eq_cons
  rw [List.cons_append] at hbegins ⊢
  rw [pieceCount, if_pos hbegins, pieceCount_append_of_none (not_begins_of_unmarked hE hmark)]

include hD hDE

theorem pieceCount_drop {piece : List Char} (hpiece : D piece) (rest : List Char) :
    pieceCount E (piece ++ rest) = pieceCount E (stripLeft rest) := by
  rw [pieceCount_stripLeft hE]
  exact pieceCount_append_of_none (not_begins_from hE (hD piece hpiece) (hDE piece hpiece))

omit [DecidablePred (Begins E)] in
theorem leaves_other_iff {piece : List Char} (hpiece : E piece) :
    Leaves D (piece ++ rest) out ↔ ∃ out', out = piece ++ out' ∧ Leaves D rest out' :=
  leaves_append_iff (not_begins_from hD (hE piece hpiece) fun h => hDE piece h hpiece)

/-- Taking out one kind of piece takes none of the other away. -/
theorem Leaves.pieceCount_le (h : Leaves D cs mid) : pieceCount E cs ≤ pieceCount E mid := by
  induction h with
  | done => exact Nat.le_refl _
  | @keep c rest out hnone hrest ih =>
    refine pieceCount_cons_le ih ?_
    rintro ⟨piece, tail, hpiece, htail⟩
    have hleaves := Leaves.keep hnone hrest
    rw [htail, leaves_other_iff hD hE hDE hpiece] at hleaves
    obtain ⟨out', hout, -⟩ := hleaves
    exact ⟨piece, out', hpiece, hout⟩
  | drop hpiece hcs _ ih =>
    rw [hcs, pieceCount_drop hD hE hDE hpiece]
    exact ih

/-- Behind a piece of the second kind the first removal leaves as much white space as there was, so
the second one goes on where it would without the first. -/
theorem Leaves.behind_piece {piece : List Char} (hpiece : E piece)
    (h : Leaves D (piece ++ rest) mid) (h' : Leaves E mid out) :
    ∃ after, Leaves D (stripLeft rest) after ∧ Leaves E after out ∧
      pieceCount E mid = pieceCount E after + 1 := by
  obtain ⟨behind, rfl, hbehind⟩ := (leaves_other_iff hD hE hDE hpiece).mp h
  obtain ⟨gap, hgap, hblank⟩ := exists_blank_append_stripLeft rest
  rw [hgap] at hbehind
  obtain ⟨after, rfl, hafter⟩ := (leaves_blank_append_iff hD hblank).mp hbehind
  have hstrip : stripLeft (gap ++ after) = after := by
    rw [stripLeft_blank_append hblank]
    exact hafter.stripLeft_eq (stripLeft_stripLeft rest)
  have hout := (leaves_piece_iff hE hpiece).mp h'
  rw [hstrip] at hout
  refine ⟨after, hafter, hout, ?_⟩
  rw [pieceCount_piece hE hpiece, ← pieceCount_stripLeft hE, hstrip]

/-- Two kinds of pieces that are taken out one after the other might as well be taken out at once,
if the first removal does not put together any pieces of the second kind. -/
theorem Leaves.merge (h : Leaves D cs mid) (h' : Leaves E mid out)
    (hcount : pieceCount E mid = pieceCount E cs) :
    Leaves (fun piece => D piece ∨ E piece) cs out := by
  induction hlength : cs.length using Nat.strongRecOn generalizing cs mid out with
  | _ n ih =>
    subst hlength
    have hshorter : ∀ {piece rest : List Char}, Bracketed piece →
        (stripLeft rest).length < (piece ++ rest).length := by
      intro piece rest hpiece
      obtain ⟨tail, rfl, -, -⟩ := hpiece.eq_cons
      have hle : (stripLeft rest).length ≤ rest.length := (List.dropWhile_suffix _).length_le
      rw [List.length_append, List.length_cons]
      omega
    by_cases hfirst : Begins D cs
    · obtain ⟨piece, rest, hpiece, rfl⟩ := hfirst
      rw [pieceCount_drop hD hE hDE hpiece] at hcount
      have hrest := (leaves_piece_iff hD hpiece).mp h
      exact .drop (.inl hpiece) rfl (ih _ (hshorter (hD _ hpiece)) hrest h' hcount rfl)
    · by_cases hsecond : Begins E cs
      · obtain ⟨piece, rest, hpiece, rfl⟩ := hsecond
        obtain ⟨after, hafter, hout, hmid⟩ := h.behind_piece hD hE hDE hpiece h'
        rw [hmid, pieceCount_piece hE hpiece, ← pieceCount_stripLeft hE rest] at hcount
        exact .drop (.inr hpiece) rfl
          (ih _ (hshorter (hE _ hpiece)) hafter hout (Nat.succ.inj hcount) rfl)
      · cases cs with
        | nil =>
          obtain rfl := (leaves_nil_iff hD).mp h
          obtain rfl := (leaves_nil_iff hE).mp h'
          exact .done
        | cons c rest =>
          obtain ⟨mid, rfl, hmid⟩ := (leaves_cons_iff hfirst).mp h
          have hle := hmid.pieceCount_le hD hE hDE
          rw [pieceCount, pieceCount, if_neg hsecond] at hcount
          -- the first removal has put no piece together here
          have hnone : ¬ Begins E (c :: mid) := by
            intro hbegins
            rw [if_pos hbegins] at hcount
            omega
          rw [if_neg hnone] at hcount
          obtain ⟨out, rfl, hout⟩ := (leaves_cons_iff hnone).mp h'
          refine .keep ?_ (ih _ (Nat.lt_succ_self _) hmid hout hcount rfl)
          rintro ⟨piece, tail, hpiece | hpiece, htail⟩
          · exact hfirst ⟨piece, tail, hpiece, htail⟩
          · exact hsecond ⟨piece, tail, hpiece, htail⟩

end

end Cartridge.Text
