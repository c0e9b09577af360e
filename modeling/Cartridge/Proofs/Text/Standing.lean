import Cartridge.Proofs.Text.Lines
import Cartridge.Proofs.Text.Removal

/-!
# Lines from which nothing is taken out

Where pieces are taken out of a text, each with all the white space behind it, a line that has no
part in a piece is kept. It may lose the line break in front of it, though: that is so if a piece
stands in front of it, and text that belongs to no piece in front of that piece, on one line.

* `Hangs`: a text ends with pieces that begin within a line.
* `Leaves.exists_begun`, `Leaves.of_hangs`: what is left then ends within a line.
* `Line.split`: what is left of a text around a line.
* `Line.alone_iff`: whether the line is one of the lines that are left.
* `Line.sublist`: the lines that are left are in the order in which they were.
-/

namespace Cartridge.Text

/-- A line that has been begun, with text that belongs to no piece, stands in front of `run`. -/
def Begun (D : List Char → Prop) (run cs : List Char) : Prop :=
  ∃ front c gap, cs = front ++ c :: gap ++ run ∧ isBlank c = false ∧ ¬ Ends D (front ++ [c]) ∧
    (∀ d ∈ gap, isBlank d = true) ∧ '\n' ∉ gap

/-- The text ends with pieces and white space, and the first of these pieces stands in a line that
has been begun with other text. -/
def Hangs (D : List Char → Prop) (cs : List Char) : Prop :=
  ∃ run, Begins D run ∧ Pieces D run ∧ Begun D run cs

section

variable {D : List Char → Prop} (hD : ∀ piece, D piece → Bracketed piece) {c : Char}
  {rest out out' u v : List Char}

theorem Begun.cons {run : List Char} (h : Begun D run u) (hnone : ¬ Begins D (c :: u)) :
    Begun D run (c :: u) := by
  obtain ⟨front, d, gap, rfl, hd, hends, hgap, hline⟩ := h
  refine ⟨c :: front, d, gap, rfl, hd, ?_, hgap, hline⟩
  rintro ⟨x, piece, hpiece, h⟩
  cases x with
  | nil =>
    have h : c :: front ++ [d] = piece := h
    exact hnone ⟨piece, gap ++ run, hpiece, by rw [← h]; simp⟩
  | cons e x => exact hends ⟨x, piece, hpiece, (List.cons.inj h).2⟩

include hD

theorem not_ends_singleton : ¬ Ends D [c] := by
  rintro ⟨front, piece, hpiece, h⟩
  obtain ⟨rest, rfl, hne, -⟩ := (hD _ hpiece).eq_cons
  cases front with
  | nil => exact hne (List.cons.inj h).2.symm
  | cons d front => simp at h

/-- The piece that a text ends with does not reach back over the end of another. -/
theorem Ends.of_piece_append {piece gap : List Char} (hpiece : D piece)
    (hgap : ∀ c ∈ gap, isBlank c = true) (hu : u ≠ []) (h : Ends D (piece ++ gap ++ u)) :
    Ends D u := by
  obtain ⟨front, last, hlast, h⟩ := h
  rw [List.append_assoc] at h
  have hlast' : Begins D last := ⟨last, [], hlast, (List.append_nil last).symm⟩
  have hbehind : ∀ a, gap ++ u = a ++ last → Ends D u := by
    intro a ha
    rcases List.append_eq_append_iff.mp ha with ⟨b, -, rfl⟩ | ⟨q, rfl, rfl⟩
    · exact ⟨b, last, hlast, rfl⟩
    · cases q with
      | nil => exact ⟨[], u, hlast, rfl⟩
      | cons c q => exact absurd hlast' (not_begins_of_blank hD (hgap c (by simp)))
  rcases List.append_eq_append_iff.mp h with ⟨a, -, ha⟩ | ⟨q, rfl, rfl⟩
  · exact hbehind a ha
  · by_cases hq : q = []
    · subst hq
      exact hbehind [] rfl
    · by_cases hfront : front = []
      · subst hfront
        have hall := (hD _ hpiece).cancel (r := gap ++ u) (s := []) (hD _ hlast) (by simp)
        exact absurd (List.append_eq_nil_iff.mp hall.2).2 hu
      · exact absurd hlast' (not_begins_within hD (hD _ hpiece) hfront hq)

theorem Begun.piece_append {run piece gap : List Char} (hpiece : D piece)
    (hgap : ∀ c ∈ gap, isBlank c = true) (h : Begun D run u) :
    Begun D run (piece ++ gap ++ u) := by
  obtain ⟨front, c, white, rfl, hc, hfront, hwhite, hline⟩ := h
  refine ⟨piece ++ gap ++ front, c, white, by simp, hc, fun h => hfront ?_, hwhite, hline⟩
  rw [List.append_assoc] at h
  exact Ends.of_piece_append hD hpiece hgap (by simp) h

/-- If what is left ends in a line that has text, the text itself has begun a line before the pieces
and the white space that it ends with. -/
theorem Leaves.exists_begun {i : List Char} {d : Char} (h : Leaves D u out) (hi : i <:+ out)
    (hline : '\n' ∉ i) (hd : d ∈ i) (hsolid : isBlank d = false) :
    ∃ run, (run = [] ∨ Begins D run ∧ Pieces D run) ∧ Begun D run u := by
  induction h generalizing i d with
  | done =>
    rw [List.suffix_nil.mp hi] at hd
    cases hd
  | @keep c rest out hnone hrest ih =>
    by_cases hlater : ∃ j d, j <:+ out ∧ '\n' ∉ j ∧ d ∈ j ∧ isBlank d = false
    · obtain ⟨j, d, hj, hline, hd, hsolid⟩ := hlater
      obtain ⟨run, hrun, hbegun⟩ := ih hj hline hd hsolid
      exact ⟨run, hrun, hbegun.cons hnone⟩
    · have hi : i = c :: out := by
        rcases List.suffix_cons_iff.mp hi with hi | hi
        · exact hi
        · exact absurd ⟨i, d, hi, hline, hd, hsolid⟩ hlater
      subst hi
      rw [List.mem_cons, not_or] at hline
      have hblank : ∀ e ∈ out, isBlank e = true := by
        intro e he
        by_contra hsolid
        exact hlater ⟨out, e, List.suffix_refl _, hline.2, he, by simpa using hsolid⟩
      have hc : isBlank c = false := by
        rcases List.mem_cons.mp hd with rfl | hd
        · exact hsolid
        · rw [hblank d hd] at hsolid
          cases hsolid
      obtain ⟨run, rfl, hrun⟩ := hrest.pieces_of_blank hblank
      exact ⟨run, hrun, [], c, out, rfl, hc, not_ends_singleton hD, hblank, hline.2⟩
  | @drop cs piece rest out hpiece hcs hrest ih =>
    obtain ⟨run, hrun, hbegun⟩ := ih hi hline hd hsolid
    obtain ⟨white, hwhite, hblank⟩ := exists_blank_append_stripLeft rest
    refine ⟨run, hrun, ?_⟩
    rw [hcs, hwhite, ← List.append_assoc]
    exact hbegun.piece_append hD hpiece hblank

/-- Text that belongs to no piece is left, with the white space behind it. -/
theorem Leaves.append_solid {front gap : List Char} (h : Leaves D (front ++ c :: gap) out)
    (hc : isBlank c = false) (hends : ¬ Ends D (front ++ [c]))
    (hgap : ∀ d ∈ gap, isBlank d = true) : ∃ out', out = out' ++ c :: gap := by
  -- a piece that begins no later than `c` and ends after it would end in white space
  have hnone : ∀ p q y, c :: gap = q ++ y → q ≠ [] → D (p ++ q) → q = [c] := by
    intro p q y hq hne hpiece
    obtain ⟨e, q, rfl⟩ := List.exists_cons_of_ne_nil hne
    obtain ⟨rfl, rfl⟩ := List.cons.inj hq
    obtain ⟨inner, hinner⟩ := (hD _ hpiece).eq_concat
    rcases List.eq_nil_or_concat q with rfl | ⟨q, last, rfl⟩
    · rfl
    · have hconcat : (p ++ c :: q) ++ [last] = inner ++ ['>'] := by simpa using hinner
      obtain rfl := List.singleton_inj.mp (List.append_inj' hconcat rfl).2
      exact absurd (hgap '>' (by simp)) (by decide)
  have hcross : ¬ Crosses D front (c :: gap) := by
    rintro ⟨x, p, q, y, rfl, hq, -, hne, hpiece⟩
    obtain rfl := hnone p q y hq hne hpiece
    exact hends ⟨x, p ++ [c], hpiece, by simp⟩
  have hbegins : ¬ Begins D (c :: gap) := by
    rintro ⟨piece, y, hpiece, hq⟩
    obtain ⟨rest, hrest, hne, -⟩ := (hD _ hpiece).eq_cons
    have hsingle := hnone [] piece y hq (by simp [hrest]) hpiece
    rw [hrest] at hsingle
    exact hne (List.cons.inj hsingle).2
  obtain ⟨front', back, rfl, -, hback⟩ := h.split hcross (stripLeft_of_head hc gap)
  obtain ⟨back', rfl, hback'⟩ := (leaves_cons_iff hbegins).mp hback
  rw [← List.append_nil gap] at hback'
  obtain ⟨nothing, rfl, hnothing⟩ := (leaves_blank_append_iff hD hgap).mp hback'
  obtain rfl := (leaves_nil_iff hD).mp hnothing
  exact ⟨front', by rw [List.append_nil]⟩

/-- What hangs leaves a line that has been begun. -/
theorem Leaves.of_hangs (h : Leaves D u out) (hu : Hangs D u) :
    ∃ front c gap, out = front ++ c :: gap ∧ isBlank c = false ∧ '\n' ∉ gap := by
  obtain ⟨run, hbegins, hpieces, front, c, gap, rfl, hc, hends, hgap, hline⟩ := hu
  have hstrip := stripLeft_of_begins hD hbegins
  have hcross : ¬ Crosses D (front ++ c :: gap) run := by
    rintro ⟨x, p, q, y, -, rfl, hp, hq, hpiece⟩
    exact not_begins_within hD (hD _ hpiece) hp hq hbegins
  obtain ⟨left, back, rfl, hleft, hback⟩ := h.split hcross hstrip
  have hnothing := hpieces.leaves hD
  rw [hstrip] at hnothing
  obtain rfl := hback.unique hD hnothing
  obtain ⟨left', rfl⟩ := hleft.append_solid hD hc hends hgap
  exact ⟨left', c, gap, List.append_nil _, hc, hline⟩

end

/-! ## Lines -/

/-- The last line of a text holds the last character of its text, and what comes after it. -/
theorem mem_last_line {b i front gap : List Char} {c : Char} (h : b ++ i = front ++ c :: gap)
    (hb : b = [] ∨ ∃ b', b = b' ++ ['\n']) (hc : isBlank c = false) (hline : '\n' ∉ gap) :
    c ∈ i := by
  have hline : '\n' ∉ c :: gap := by
    rw [List.mem_cons, not_or]
    refine ⟨?_, hline⟩
    rintro rfl
    exact absurd hc (by decide)
  rcases List.append_eq_append_iff.mp h with ⟨a, rfl, rfl⟩ | ⟨a, rfl, ha⟩
  · simp
  · rcases List.eq_nil_or_concat' a with rfl | ⟨a, last, rfl⟩
    · rw [← show c :: gap = i from ha]
      exact List.mem_cons_self
    · rcases hb with hb | ⟨b', hb⟩
      · simp at hb
      · rw [← List.append_assoc] at hb
        obtain rfl := List.singleton_inj.mp (List.append_inj' hb rfl).2
        rw [ha] at hline
        simp at hline

theorem exists_last_line (cs : List Char) :
    ∃ b i, cs = b ++ i ∧ (b = [] ∨ ∃ b', b = b' ++ ['\n']) ∧ '\n' ∉ i := by
  induction cs with
  | nil => exact ⟨[], [], rfl, .inl rfl, by simp⟩
  | cons c cs ih =>
    obtain ⟨b, i, rfl, hb, hi⟩ := ih
    rcases hb with rfl | ⟨b', rfl⟩
    · by_cases hc : c = '\n'
      · subst hc
        exact ⟨['\n'], i, rfl, .inr ⟨[], rfl⟩, hi⟩
      · exact ⟨[], c :: i, rfl, .inl rfl, by simp [Ne.symm hc, hi]⟩
    · exact ⟨c :: (b' ++ ['\n']), i, rfl, .inr ⟨c :: b', rfl⟩, hi⟩

namespace Line

/-- What stands in front of the first character of the line that is not white space. -/
def lead (line : Line) : List Char := line.before ++ line.text.takeWhile isBlank

/-- The line from its first character on that is not white space. -/
def body (line : Line) : List Char := stripLeft line.text

/-- The line, or some of it, is part of one of the pieces. -/
def TakesPart (D : List Char → Prop) (line : Line) : Prop :=
  ∃ x piece y, D piece ∧ line.whole = x ++ piece ++ y ∧
    x.length < line.before.length + line.text.length ∧
    line.before.length < x.length + piece.length

/-- Between these two texts the body is a line but for white space in front of it. -/
def Alone (front body back : List Char) : Prop :=
  ∃ (line : Line) (indent : List Char), line.before ++ indent = front ∧
    (∀ c ∈ indent, isBlank c = true) ∧ line.text = indent ++ body ∧ line.after = back

section

variable {D : List Char → Prop} {line : Line} {out front back : List Char}

theorem indent_append_body (line : Line) : line.text.takeWhile isBlank ++ line.body = line.text :=
  List.takeWhile_append_dropWhile

theorem whole_eq (line : Line) : line.whole = line.lead ++ (line.body ++ line.after) := by
  simp only [whole, lead, List.append_assoc]
  rw [← List.append_assoc _ line.body, indent_append_body]

theorem length_lead_le (line : Line) :
    line.lead.length ≤ line.before.length + line.text.length := by
  rw [← indent_append_body line, lead, List.length_append, List.length_append]
  omega

theorem not_crosses (h : ¬ line.TakesPart D) : ¬ Crosses D line.lead (line.body ++ line.after) := by
  rintro ⟨x, p, q, y, hlead, hback, hp, hq, hpiece⟩
  refine h ⟨x, p ++ q, y, hpiece, ?_, ?_, ?_⟩
  · rw [whole_eq, hlead, hback]
    simp
  all_goals
    have hle := length_lead_le line
    have hlength := congrArg List.length hlead
    have hp := List.length_pos_iff.mpr hp
    have hq := List.length_pos_iff.mpr hq
    rw [List.length_append] at hlength
  · omega
  · rw [lead, List.length_append] at hlength
    rw [List.length_append]
    omega

theorem not_begins (hD : ∀ piece, D piece → Bracketed piece) (h : ¬ line.TakesPart D)
    {q : List Char} (hne : q ≠ []) (hq : q <:+ line.body) : ¬ Begins D (q ++ line.after) := by
  rintro ⟨piece, y, hpiece, hy⟩
  obtain ⟨p, hp⟩ := hq
  have hlength := congrArg List.length (indent_append_body line)
  rw [← hp, List.length_append, List.length_append] at hlength
  have hq := List.length_pos_iff.mpr hne
  refine h ⟨line.lead ++ p, piece, y, hpiece, ?_, ?_, ?_⟩
  · rw [whole_eq, ← hp, List.append_assoc p, hy]
    simp
  · rw [lead, List.length_append, List.length_append]
    omega
  · obtain ⟨tail, rfl, -, -⟩ := (hD piece hpiece).eq_cons
    rw [lead, List.length_append, List.length_append, List.length_cons]
    omega

theorem split (hD : ∀ piece, D piece → Bracketed piece) (hpart : ¬ line.TakesPart D)
    (hbody : line.body ≠ []) (h : Leaves D line.whole out) :
    ∃ front back, out = front ++ line.body ++ back ∧ Leaves D line.lead front ∧
      Leaves D line.after back := by
  have hstrip : stripLeft (line.body ++ line.after) = line.body ++ line.after := by
    rcases stripLeft_cases line.text with hnil | ⟨c, rest, hc, hblank⟩
    · exact absurd hnil hbody
    · rw [show line.body = c :: rest from hc]
      exact stripLeft_of_head hblank _
  rw [whole_eq] at h
  obtain ⟨front, rest, rfl, hfront, hrest⟩ := h.split (not_crosses hpart) hstrip
  obtain ⟨back, rfl, hback⟩ := (leaves_append_iff fun q => not_begins hD hpart).mp hrest
  exact ⟨front, back, (List.append_assoc _ _ _).symm, hfront, hback⟩

/-- A line that nothing is taken out of is a line of what is left, but for white space in front of
it, unless the text in front of it hangs. -/
theorem alone_iff (hD : ∀ piece, D piece → Bracketed piece) (hfront : Leaves D line.lead front)
    (hback : Leaves D line.after back) :
    Alone front line.body back ↔ ¬ Hangs D line.lead := by
  constructor
  · rintro ⟨shown, indent, rfl, hblank, htext, rfl⟩ hhangs
    obtain ⟨before, c, gap, hlast, hc, hline⟩ := hfront.of_hangs hD hhangs
    rw [hblank c (mem_last_line hlast shown.starts hc hline)] at hc
    cases hc
  · intro hhangs
    obtain ⟨before, indent, rfl, hbefore, hindent⟩ := exists_last_line front
    have hblank : ∀ c ∈ indent, isBlank c = true := by
      intro d hd
      by_contra hsolid
      obtain ⟨run, hrun, hbegun⟩ :=
        hfront.exists_begun hD (List.suffix_append _ _) hindent hd (by simpa using hsolid)
      rcases hrun with rfl | ⟨hbegins, hpieces⟩
      · obtain ⟨x, c, gap, hlead, hc, -, hgap, hline⟩ := hbegun
        rw [List.append_nil] at hlead
        have hmem := mem_last_line hlead line.starts hc hline
        rw [List.all_eq_true.mp List.all_takeWhile c hmem] at hc
        cases hc
      · exact hhangs ⟨run, hbegins, hpieces, hbegun⟩
    have hbody : '\n' ∉ line.body :=
      fun h => line.unbroken ((List.dropWhile_suffix _).subset h)
    refine ⟨⟨before, indent ++ line.body, back, hbefore, by simp [hindent, hbody], ?_⟩, indent,
      rfl, hblank, rfl, rfl⟩
    rcases line.ends with hnil | ⟨rest, hrest⟩
    · rw [hnil] at hback
      exact .inl ((leaves_nil_iff hD).mp hback)
    · rw [hrest] at hback
      obtain ⟨back, rfl, -⟩ := (leaves_cons_iff (not_begins_of_blank hD (by decide))).mp hback
      exact .inr ⟨back, rfl⟩

/-- If taking out one kind of piece puts together no pieces of another kind, it puts none together
in what stands around a line either. -/
theorem pieceCount_eq {E : List Char → Prop} [DecidablePred (Begins E)]
    (hD : ∀ piece, D piece → Bracketed piece) (hE : ∀ piece, E piece → Bracketed piece)
    (hDE : ∀ piece, D piece → ¬ E piece) (hpart : ¬ line.TakesPart D) (hother : ¬ line.TakesPart E)
    (hbody : line.body ≠ []) (h : Leaves D line.whole out) (hfront : Leaves D line.lead front)
    (hback : Leaves D line.after back) (hcount : pieceCount E out = pieceCount E line.whole) :
    pieceCount E front = pieceCount E line.lead ∧ pieceCount E back = pieceCount E line.after := by
  obtain ⟨front', back', rfl, hfront', hback'⟩ := line.split hD hpart hbody h
  obtain rfl := hfront'.unique hD hfront
  obtain rfl := hback'.unique hD hback
  have hwhole : pieceCount E line.whole = pieceCount E line.lead + pieceCount E line.after := by
    rw [whole_eq, pieceCount_append (not_crosses hother),
      pieceCount_append_of_none fun q => not_begins hE hother]
  have hout : pieceCount E front' + pieceCount E back' ≤
      pieceCount E (front' ++ line.body ++ back') := by
    rw [List.append_assoc]
    have hback := pieceCount_add_le (D := E) line.body back'
    have hfront := pieceCount_add_le (D := E) front' (line.body ++ back')
    omega
  have hlead := hfront'.pieceCount_le hD hE hDE
  have hafter := hback'.pieceCount_le hD hE hDE
  omega

/-- A line further back in the text has the line and its newline in front of it. -/
theorem before_eq {later : Line} (hwhole : line.whole = later.whole)
    (hlt : line.before.length < later.before.length) :
    ∃ between, later.before = line.before ++ line.text ++ '\n' :: between := by
  rcases later.starts with hnil | ⟨front, hfront⟩
  · rw [hnil] at hlt
    cases hlt
  · rw [whole, whole, hfront, List.append_assoc, List.append_assoc, List.append_assoc] at hwhole
    rcases append_cons_cut line.unbroken hwhole with ⟨t, rfl, ht⟩ | ⟨t, ht, -⟩
    · rcases line.ends with hnil | ⟨back, hback⟩
      · simp [hnil] at ht
      · cases t with
        | nil => exact ⟨[], by simp [hfront]⟩
        | cons c t =>
          rw [hback] at ht
          obtain ⟨rfl, -⟩ := List.cons.inj ht
          exact ⟨t ++ ['\n'], by simp [hfront]⟩
    · rw [hfront, ht, List.length_append, List.length_append, List.length_cons] at hlt
      simp at hlt

/-- The lines in front of a line come first in what is left. -/
theorem count_lt (hD : ∀ piece, D piece → Bracketed piece) {later : Line} {front' : List Char}
    (hpart : ¬ line.TakesPart D) (hbody : line.body ≠ []) (hwhole : line.whole = later.whole)
    (hlt : line.before.length < later.before.length) (hfront : Leaves D line.lead front)
    (hfront' : Leaves D later.lead front') : front.count '\n' < front'.count '\n' := by
  obtain ⟨between, hbetween⟩ := before_eq hwhole hlt
  -- the line is a line of what stands in front of the later one
  let within : Line := ⟨line.before, line.text, '\n' :: between ++ later.text.takeWhile isBlank,
    line.starts, line.unbroken, .inr ⟨_, rfl⟩⟩
  have hlead : later.lead = within.whole := by simp [lead, hbetween, whole, within]
  have hwithin : ¬ within.TakesPart D := by
    rintro ⟨x, piece, y, hpiece, hx, hstart, hstop⟩
    refine hpart ⟨x, piece, y ++ later.body ++ later.after, hpiece, ?_, hstart, hstop⟩
    rw [hwhole, whole_eq, hlead, hx]
    simp
  rw [hlead] at hfront'
  obtain ⟨first, back, rfl, hfirst, hback⟩ := within.split hD hwithin hbody hfront'
  obtain rfl := hfirst.unique hD hfront
  obtain ⟨back, rfl, -⟩ := (leaves_cons_iff (not_begins_of_blank hD (by decide))).mp hback
  rw [List.count_append, List.count_append, List.count_cons_self]
  omega

end

end Line

/-- Members found at increasing places of a list are in the order of the list. -/
theorem sublist_of_increasing {α β : Type} {all : List β} (place : α → Nat) {value : α → β}
    {members : List α} (hplace : members.Pairwise fun a b => place a < place b)
    (h : ∀ a ∈ members, all[place a]? = some (value a)) : (members.map value).Sublist all := by
  -- the members lie behind all the places that come before the first of them
  have hdrop : ∀ n, (∀ a ∈ members, n ≤ place a) → (members.map value).Sublist (all.drop n) := by
    induction members with
    | nil => exact fun n _ => List.nil_sublist _
    | cons a members ih =>
      intro n hn
      rw [List.pairwise_cons] at hplace
      rw [List.forall_mem_cons] at h hn
      obtain ⟨hlt, hvalue⟩ := List.getElem?_eq_some_iff.mp h.1
      have hrest := ih hplace.2 h.2 (place a + 1) hplace.1
      have hfrom : all.drop (place a) = value a :: all.drop (place a + 1) := by
        rw [List.drop_eq_getElem_cons hlt, hvalue]
      refine List.Sublist.trans ?_ (List.drop_sublist_drop_left all hn.1)
      rw [hfrom]
      exact hrest.cons_cons (value a)
  exact hdrop 0 fun _ _ => Nat.zero_le _

namespace Line

/-- The lines that nothing is taken out of, and in front of which the text does not hang, are lines
of what is left, in the same order, but for white space in front of them. -/
theorem sublist {D : List Char → Prop} (hD : ∀ piece, D piece → Bracketed piece)
    {whole : List Char} {left : List Char → List Char} {kept : List Line}
    (horder : kept.Pairwise fun line later => line.before.length < later.before.length)
    (hkept : ∀ line ∈ kept, line.whole = whole ∧ line.body ≠ [] ∧ ¬ line.TakesPart D ∧
      ¬ Hangs D line.lead)
    (hleft : ∀ line ∈ kept, left whole = left line.lead ++ line.body ++ left line.after ∧
      Leaves D line.lead (left line.lead) ∧ Leaves D line.after (left line.after)) :
    (kept.map body).Sublist (((left whole).splitOn '\n').map stripLeft) := by
  refine sublist_of_increasing (fun line => (left line.lead).count '\n') ?_ ?_
  · refine horder.imp_of_mem ?_
    intro line later hline hlater hlt
    obtain ⟨hwhole, hbody, hpart, -⟩ := hkept line hline
    exact count_lt hD hpart hbody (hwhole.trans (hkept later hlater).1.symm) hlt
      (hleft line hline).2.1 (hleft later hlater).2.1
  · intro line hline
    obtain ⟨-, -, -, hhangs⟩ := hkept line hline
    obtain ⟨heq, hfront, hback⟩ := hleft line hline
    obtain ⟨shown, indent, hlead, hblank, htext, hafter⟩ := (alone_iff hD hfront hback).mpr hhangs
    have hwhole : left whole = shown.whole := by
      rw [heq, ← hlead, Line.whole, htext, ← hafter]
      simp
    have hnone : '\n' ∉ indent := by
      intro h
      refine shown.unbroken ?_
      rw [htext]
      exact List.mem_append_left _ h
    have hplace : (left line.lead).count '\n' = shown.before.count '\n' := by
      rw [← hlead, List.count_append, List.count_eq_zero.mpr hnone]
      rfl
    rw [hwhole, hplace, List.getElem?_map, getElem?_lines, htext]
    show some (stripLeft (indent ++ line.body)) = some line.body
    rw [stripLeft_blank_append hblank]
    exact congrArg some (stripLeft_stripLeft _)

end Line

end Cartridge.Text
