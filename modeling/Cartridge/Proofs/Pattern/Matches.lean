import Cartridge.Proofs.Pattern.Spelling

/-!
# The matches of a text

A text is searched from the left. Where a match begins the search goes on behind it, and elsewhere
behind the next character. So the matches of a text are those that begin at a place that no other
match of the text reaches over.

* `Scans`: the matches that a search finds from a place on.
* `scans_findAll`: the matches of a text.
* `mem_findAll_iff`: which of the matches that begin in a text are found.
* `Covers`: a match reaches over a place.
-/

namespace Cartridge.Pattern

/-- A match begins before a place and ends behind it. -/
def Found.Covers (m : Found) (index : Nat) : Prop := m.start.index < index ∧ index < m.stop.index

/-- The place between two parts of a text, the first of which is given from its end. -/
def placeAt (before rest : List Char) : Place := ⟨before, rest, before.length, []⟩

/-- The matches that a search finds from a place on. -/
inductive Scans (p : Pattern) : List Char → List Char → List Found → Prop
  | done (before : List Char) : Scans p before [] []
  | pass {before rest : List Char} {c : Char} {ms : List Found}
      (hnone : p.foundAt (placeAt before (c :: rest)) = none)
      (later : Scans p (c :: before) rest ms) : Scans p before (c :: rest) ms
  | take {before piece after : List Char} {m : Found} {ms : List Found}
      (hfound : p.foundAt (placeAt before (piece ++ after)) = some m) (hne : piece ≠ [])
      (hstop : m.stop.index = before.length + piece.length)
      (later : Scans p (piece.reverse ++ before) after ms) :
      Scans p before (piece ++ after) (m :: ms)

/-- The match in a piece of a text, if the piece is one. -/
def Piece.match? : Piece → Option Found
  | .found m => some m
  | .plain _ => none

theorem findAll_eq (p : Pattern) (cs : List Char) :
    p.findAll cs = (cutting p cs [] 0 0 []).filterMap Piece.match? := rfl

theorem scans_cutting (p : Pattern) (cs before : List Char) :
    Scans p before cs ((cutting p cs before before.length 0 []).filterMap Piece.match?) := by
  induction hn : cs.length using Nat.strongRecOn generalizing cs before with
  | ind n ih =>
    cases cs with
    | nil => exact .done before
    | cons c rest =>
      cases hfound : p.foundAt (placeAt before (c :: rest)) with
      | none =>
        have hlater := ih rest.length (by rw [← hn]; simp) rest (c :: before) rfl
        rw [cutting_plain hfound]
        exact .pass hfound hlater
      | some m =>
        have hcounted : (placeAt before (c :: rest)).Counted := rfl
        obtain ⟨piece, after, groups, hrest, hne, -, rfl⟩ := foundAt_sound hcounted hfound
        obtain ⟨d, piece, rfl⟩ := List.exists_cons_of_ne_nil hne
        obtain rfl : c = d := (List.cons.inj hrest).1
        have hrest : rest = piece ++ after := (List.cons.inj hrest).2
        subst hrest
        have hshorter : after.length < n := by
          simp only [← hn, List.length_cons, List.length_append]
          omega
        have hlater := ih after.length hshorter after ((c :: piece).reverse ++ before) rfl
        have hlength : ((c :: piece).reverse ++ before).length =
            before.length + 1 + piece.length := by
          simp
          omega
        have hbefore : (c :: piece).reverse ++ before = piece.reverse ++ c :: before := by simp
        rw [hlength] at hlater
        have hstop : (placeAt before (c :: (piece ++ after))).index + (c :: piece).length =
            before.length + 1 + piece.length := by
          show before.length + (piece.length + 1) = _
          omega
        rw [cutting_found hfound (by simp) hstop, List.drop_left, List.take_left, ← hbefore]
        rw [← List.cons_append] at hfound ⊢
        exact .take hfound hne rfl hlater

theorem scans_findAll (p : Pattern) (cs : List Char) : Scans p [] cs (p.findAll cs) := by
  rw [findAll_eq]
  exact scans_cutting p cs []

theorem start_of_foundAt {p : Pattern} {here : Place} {m : Found} (h : p.foundAt here = some m)
    (hhere : here.Counted) : m.start = here ∧ here.index < m.stop.index := by
  obtain ⟨piece, rest, groups, -, hne, -, rfl⟩ := foundAt_sound hhere h
  exact ⟨rfl, Nat.lt_add_of_pos_right (List.length_pos_iff.mpr hne)⟩

/-- A text is cut at a place in one way. -/
theorem placeAt_inj {before rest before' rest' : List Char}
    (htext : before'.reverse ++ rest' = before.reverse ++ rest)
    (hlength : before'.length = before.length) : before' = before ∧ rest' = rest := by
  obtain ⟨hbefore, hrest⟩ := List.append_inj htext (by simpa using hlength)
  exact ⟨List.reverse_inj.mp hbefore, hrest⟩

/-- A match begins in a text, no earlier than at a place. -/
def BeginsIn (p : Pattern) (before rest : List Char) (m : Found) : Prop :=
  ∃ before' rest', before'.reverse ++ rest' = before.reverse ++ rest ∧
    before.length ≤ before'.length ∧ p.foundAt (placeAt before' rest') = some m

section BeginsIn

variable {p : Pattern} {before rest piece : List Char} {m m' : Found}

theorem BeginsIn.index_le (h : BeginsIn p before rest m) : before.length ≤ m.start.index := by
  obtain ⟨before', rest', -, hle, hfound⟩ := h
  rw [(start_of_foundAt hfound rfl).1]
  exact hle

/-- What begins behind a piece is what begins in the text and not within the piece. -/
theorem beginsIn_piece : BeginsIn p (piece.reverse ++ before) rest m ↔
    BeginsIn p before (piece ++ rest) m ∧ before.length + piece.length ≤ m.start.index := by
  have htext : (piece.reverse ++ before).reverse ++ rest = before.reverse ++ (piece ++ rest) := by
    simp
  have hlength : (piece.reverse ++ before).length = before.length + piece.length := by
    simp [Nat.add_comm]
  constructor
  · intro h
    refine ⟨?_, hlength ▸ h.index_le⟩
    obtain ⟨before', rest', hsame, hle, hfound⟩ := h
    exact ⟨before', rest', hsame.trans htext, by omega, hfound⟩
  · rintro ⟨⟨before', rest', hsame, -, hfound⟩, hle⟩
    rw [(start_of_foundAt hfound rfl).1] at hle
    exact ⟨before', rest', hsame.trans htext.symm, hlength ▸ hle, hfound⟩

/-- What begins in a text begins at its first place or behind it. -/
theorem BeginsIn.first_or (h : BeginsIn p before rest m) :
    p.foundAt (placeAt before rest) = some m ∨ before.length < m.start.index := by
  obtain ⟨before', rest', hsame, hle, hfound⟩ := h
  rcases Nat.eq_or_lt_of_le hle with heq | hlt
  · obtain ⟨rfl, rfl⟩ := placeAt_inj hsame heq.symm
    exact .inl hfound
  · rw [(start_of_foundAt hfound rfl).1]
    exact .inr hlt

end BeginsIn

/-- A search finds the matches that begin where no match that it finds reaches over. -/
theorem Scans.mem_iff {p : Pattern} {before rest : List Char} {ms : List Found}
    (h : Scans p before rest ms) (m : Found) :
    m ∈ ms ↔ BeginsIn p before rest m ∧ ∀ other ∈ ms, ¬ other.Covers m.start.index := by
  induction h generalizing m with
  | done before =>
    refine iff_of_false List.not_mem_nil ?_
    rintro ⟨⟨before', rest', htext, hle, hfound⟩, -⟩
    have hend : rest' = [] := by
      have hlength := congrArg List.length htext
      simp only [List.length_append, List.length_reverse, List.length_nil] at hlength
      exact List.length_eq_zero_iff.mp (by omega)
    obtain ⟨piece, after, groups, hrest, hne, -⟩ :=
      foundAt_sound (show (placeAt before' rest').Counted from rfl) hfound
    rw [show (placeAt before' rest').rest = rest' from rfl, hend] at hrest
    exact hne (List.append_eq_nil_iff.mp hrest.symm).1
  | @pass before rest c ms hnone later ih =>
    rw [ih, show c :: before = [c].reverse ++ before from rfl, beginsIn_piece]
    refine and_congr_left fun _ => and_iff_left_of_imp fun hbegins => ?_
    rcases hbegins.first_or with hfirst | hlt
    · rw [show [c] ++ rest = c :: rest from rfl, hnone] at hfirst
      cases hfirst
    · exact hlt
  | @take before piece after first ms hfound hne hstop later ih =>
    have hstart : first.start.index = before.length := by rw [(start_of_foundAt hfound rfl).1]; rfl
    have hpos : 0 < piece.length := List.length_pos_iff.mpr hne
    simp only [beginsIn_piece] at ih
    rw [List.mem_cons, List.forall_mem_cons]
    constructor
    · rintro (rfl | hm)
      · refine ⟨⟨before, _, rfl, Nat.le_refl _, hfound⟩, fun hcovers => ?_,
          fun other hother hcovers => ?_⟩
        · exact Nat.lt_irrefl _ hcovers.1
        · obtain ⟨⟨-, hbehind⟩, -⟩ := (ih other).mp hother
          have := hcovers.1
          omega
      · obtain ⟨⟨hbegins, hbehind⟩, hothers⟩ := (ih m).mp hm
        refine ⟨hbegins, fun hcovers => ?_, hothers⟩
        have := hcovers.2
        omega
    · rintro ⟨hbegins, hfirst, hothers⟩
      rcases hbegins.first_or with hsame | hlt
      · exact .inl (Option.some.inj (hsame.symm.trans hfound))
      · refine .inr ((ih m).mpr ⟨⟨hbegins, ?_⟩, hothers⟩)
        rw [← hstop]
        exact Nat.le_of_not_lt fun hinside => hfirst ⟨hstart ▸ hlt, hinside⟩

/-- The matches of a text are the matches that begin in it at a place that none of them reaches
over. -/
theorem mem_findAll_iff {p : Pattern} {cs : List Char} {m : Found} :
    m ∈ p.findAll cs ↔ (∃ before rest, before.reverse ++ rest = cs ∧
        p.foundAt (placeAt before rest) = some m) ∧
      ∀ other ∈ p.findAll cs, ¬ other.Covers m.start.index := by
  rw [(scans_findAll p cs).mem_iff m]
  simp only [BeginsIn, List.reverse_nil, List.nil_append, List.length_nil, Nat.zero_le, true_and]

end Cartridge.Pattern
