import Cartridge.Pattern.Search
import Cartridge.Text.Search

/-!
# Substitution by pattern

What searching and replacing come to, from one place of a text to the next.

* `nearest_append_of_ahead`, `nearest_append`: a reluctant repetition goes on as long as what
  follows it cannot match.
* `substituteFrom_plain`, `substituteFrom_found`, `substituteFrom_piece`: what becomes of the text
  from a place on.
* `find?_of_not_occurs`, `substitute_of_not_occurs`: a pattern that begins with a fixed text finds
  nothing where that text does not occur.
-/

namespace Cartridge

namespace Place

theorem skip_succ {pl : Place} {c : Char} {rest : List Char} (h : pl.rest = c :: rest) (n : Nat) :
    pl.skip (n + 1) = (pl.pass c rest).skip n := by
  rw [skip, h]

theorem skip_rest (pl : Place) (n : Nat) : (pl.skip n).rest = pl.rest.drop n := by
  induction n generalizing pl with
  | zero => rfl
  | succ n ih =>
    cases hrest : pl.rest with
    | nil => rw [skip, hrest, hrest, List.drop_nil]
    | cons c rest =>
      rw [skip_succ hrest, ih, List.drop_succ_cons]
      rfl

theorem skip_index {pl : Place} {n : Nat} (h : n ≤ pl.rest.length) :
    (pl.skip n).index = pl.index + n := by
  induction n generalizing pl with
  | zero => rfl
  | succ n ih =>
    cases hrest : pl.rest with
    | nil =>
      rw [hrest] at h
      cases h
    | cons c rest =>
      rw [hrest, List.length_cons] at h
      have hle : n ≤ (pl.pass c rest).rest.length := Nat.le_of_succ_le_succ h
      rw [skip_succ hrest, ih hle]
      show pl.index + 1 + n = pl.index + (n + 1)
      omega

theorem skip_groups (pl : Place) (n : Nat) : (pl.skip n).groups = pl.groups := by
  induction n generalizing pl with
  | zero => rfl
  | succ n ih =>
    cases hrest : pl.rest with
    | nil => rw [skip, hrest]
    | cons c rest =>
      rw [skip_succ hrest, ih]
      rfl

end Place

namespace Pattern

/-! ## Reluctant repetition -/

/-- A reluctant repetition passes a part of the text if the rest of the pattern fails wherever some
of that part is still ahead. -/
theorem nearest_append_of_ahead {α : Type} {p : Char → Bool} {k : Place → Option α}
    {inner tail : List Char} {here : Place} (hrest : here.rest = inner ++ tail)
    (hp : ∀ c ∈ inner, p c = true)
    (hk : ∀ (there : Place) (ahead : List Char), ahead ≠ [] → ahead <:+ inner →
      there.rest = ahead ++ tail → k there = none) :
    nearest p k (inner ++ tail) 0 here = nearest p k tail 0 (here.skip inner.length) := by
  induction inner generalizing here with
  | nil => rfl
  | cons c inner ih =>
    have hhere : k here = none := hk here (c :: inner) (List.cons_ne_nil c inner)
      (List.suffix_refl _) hrest
    have hc : p c = true := hp c List.mem_cons_self
    rw [List.cons_append, nearest, hhere, if_pos hc, List.length_cons, Place.skip_succ hrest]
    refine ih rfl (fun d hd => hp d (List.mem_cons_of_mem c hd)) ?_
    intro there ahead hne hsuffix hthere
    exact hk there ahead hne (hsuffix.trans (List.suffix_cons c inner)) hthere

/-- A reluctant repetition passes the characters before which the rest of the pattern fails. -/
theorem nearest_append {α : Type} {p : Char → Bool} {k : Place → Option α} {inner tail : List Char}
    {here : Place} (hrest : here.rest = inner ++ tail) (hp : ∀ c ∈ inner, p c = true)
    (hk : ∀ there : Place, ∀ c rest, there.rest = c :: rest → c ∈ inner → k there = none) :
    nearest p k (inner ++ tail) 0 here = nearest p k tail 0 (here.skip inner.length) := by
  refine nearest_append_of_ahead hrest hp ?_
  intro there ahead hne hsuffix hthere
  obtain ⟨c, rest, rfl⟩ := List.exists_cons_of_ne_nil hne
  exact hk there c (rest ++ tail) hthere (hsuffix.subset List.mem_cons_self)

/-- A reluctant repetition that may be empty stops at once if the rest of the pattern matches. -/
theorem nearest_of_some {α : Type} {p : Char → Bool} {k : Place → Option α} {here : Place} {a : α}
    (h : k here = some a) (cs : List Char) : nearest p k cs 0 here = some a := by
  cases cs with
  | nil => exact h
  | cons c cs => rw [nearest, h]

/-! ## Pieces from a place on -/

theorem cutting_done (p : Pattern) (cs before : List Char) (index skip : Nat) (done : List Piece) :
    cutting p cs before index skip done = done.reverse ++ cutting p cs before index skip [] := by
  induction cs generalizing before index skip done with
  | nil => simp [cutting]
  | cons c rest ih =>
    cases skip with
    | succ skip =>
      rw [cutting, cutting]
      exact ih ..
    | zero =>
      rw [cutting, cutting]
      cases p.foundAt ⟨before, c :: rest, index, []⟩ with
      | none =>
        dsimp only
        rw [ih _ _ _ (.plain c :: done), ih _ _ _ [.plain c]]
        simp
      | some m =>
        dsimp only
        rw [ih _ _ _ (.found m :: done), ih _ _ _ [.found m]]
        simp

theorem cutting_skip (p : Pattern) {cs before : List Char} {index skip : Nat}
    (h : skip ≤ cs.length) :
    cutting p cs before index skip [] =
      cutting p (cs.drop skip) ((cs.take skip).reverse ++ before) (index + skip) 0 [] := by
  induction skip generalizing cs before index with
  | zero => rfl
  | succ skip ih =>
    cases cs with
    | nil => cases h
    | cons c rest =>
      rw [cutting, ih (Nat.le_of_succ_le_succ h)]
      simp only [List.drop_succ_cons, List.take_succ_cons, List.reverse_cons, List.append_assoc,
        List.singleton_append]
      rw [Nat.add_assoc, Nat.add_comm 1 skip]

theorem cutting_plain {p : Pattern} {c : Char} {rest before : List Char} {index : Nat}
    (h : p.foundAt ⟨before, c :: rest, index, []⟩ = none) :
    cutting p (c :: rest) before index 0 [] =
      .plain c :: cutting p rest (c :: before) (index + 1) 0 [] := by
  rw [cutting, h]
  exact cutting_done ..

/-- After a match the pieces begin where it ends. -/
theorem cutting_found {p : Pattern} {c : Char} {rest before : List Char} {index n : Nat} {m : Found}
    (h : p.foundAt ⟨before, c :: rest, index, []⟩ = some m) (hn : n ≤ rest.length)
    (hstop : m.stop.index = index + 1 + n) :
    cutting p (c :: rest) before index 0 [] =
      .found m ::
        cutting p (rest.drop n) ((rest.take n).reverse ++ c :: before) (index + 1 + n) 0 [] := by
  have hskip : m.stop.index - index - 1 = n := by omega
  rw [cutting, h]
  dsimp only
  rw [hskip, cutting_done, cutting_skip p hn]
  rfl

/-! ## Replacing from a place on -/

/-- What a piece of a text is replaced by. -/
def Piece.replaced (f : Found → List Char) : Piece → List Char
  | .plain c => [c]
  | .found m => f m

/-- What becomes of the text from a place on at which the last match has ended. -/
def substituteFrom (p : Pattern) (f : Found → List Char) (cs before : List Char) (index : Nat) :
    List Char :=
  (cutting p cs before index 0 []).flatMap (Piece.replaced f)

section From

variable {p : Pattern} {f : Found → List Char} {c : Char} {rest before : List Char} {index : Nat}

theorem substitute_eq (p : Pattern) (f : Found → List Char) (cs : List Char) :
    p.substitute f cs = p.substituteFrom f cs [] 0 := by
  rfl

theorem substituteFrom_plain (h : p.foundAt ⟨before, c :: rest, index, []⟩ = none) :
    p.substituteFrom f (c :: rest) before index =
      c :: p.substituteFrom f rest (c :: before) (index + 1) := by
  rw [substituteFrom, cutting_plain h, List.flatMap_cons]
  rfl

theorem substituteFrom_found {n : Nat} {m : Found}
    (h : p.foundAt ⟨before, c :: rest, index, []⟩ = some m) (hn : n ≤ rest.length)
    (hstop : m.stop.index = index + 1 + n) :
    p.substituteFrom f (c :: rest) before index =
      f m ++ p.substituteFrom f (rest.drop n) ((rest.take n).reverse ++ c :: before)
        (index + 1 + n) := by
  rw [substituteFrom, cutting_found h hn hstop, List.flatMap_cons]
  rfl

/-- A match is replaced, and what follows it is replaced on its own. -/
theorem substituteFrom_piece {piece after : List Char} {m : Found} (hne : piece ≠ [])
    (h : p.foundAt ⟨before, piece ++ after, before.length, []⟩ = some m)
    (hstop : m.stop.index = before.length + piece.length) :
    p.substituteFrom f (piece ++ after) before before.length =
      f m ++ p.substituteFrom f after (piece.reverse ++ before)
        (piece.reverse ++ before).length := by
  obtain ⟨c, piece, rfl⟩ := List.exists_cons_of_ne_nil hne
  have hle : piece.length ≤ (piece ++ after).length := (List.sublist_append_left _ _).length_le
  have hend : m.stop.index = before.length + 1 + piece.length := by
    rw [hstop, List.length_cons]
    omega
  have hbefore : (c :: piece).reverse ++ before = piece.reverse ++ c :: before := by simp
  have hlength : (piece.reverse ++ c :: before).length = before.length + 1 + piece.length := by
    rw [List.length_append, List.length_reverse, List.length_cons]
    omega
  rw [List.cons_append] at h ⊢
  rw [substituteFrom_found h hle hend, List.drop_left, List.take_left, hbefore, hlength]

end From

/-! ## Patterns that begin with a fixed text -/

section Fixed

variable {s : String} {a : Pattern} {more : List Pattern}

theorem foundAt_of_not_begins {here : Place} (h : s.toList.isPrefixOf here.rest = false) :
    (inOrder (exactly s :: a :: more)).foundAt here = none := by
  show (if s.toList.isPrefixOf here.rest then _ else none) = none
  rw [h]
  rfl

theorem not_begins_of_not_occurs {needle cs : List Char} {c : Char} {rest : List Char}
    (h : Text.occursIn needle cs = false) (hsuffix : c :: rest <:+ cs) :
    needle.isPrefixOf (c :: rest) = false := by
  rw [Bool.eq_false_iff]
  intro hprefix
  obtain ⟨before, hbefore⟩ := hsuffix
  obtain ⟨after, hafter⟩ := List.isPrefixOf_iff_prefix.mp hprefix
  have hoccurs : Text.occursIn needle cs = true :=
    Text.occursIn_iff.mpr ⟨before, after, by rw [← hbefore, ← hafter, List.append_assoc]⟩
  rw [h] at hoccurs
  cases hoccurs

theorem find?_of_not_occurs {cs : List Char} (h : Text.occursIn s.toList cs = false) :
    (inOrder (exactly s :: a :: more)).find? cs = none := by
  have hfrom : ∀ rest before index, rest <:+ cs →
      findFrom (inOrder (exactly s :: a :: more)) rest before index = none := by
    intro rest
    induction rest with
    | nil => intros; rfl
    | cons c rest ih =>
      intro before index hsuffix
      have hnone : (inOrder (exactly s :: a :: more)).foundAt ⟨before, c :: rest, index, []⟩ =
          none := foundAt_of_not_begins (not_begins_of_not_occurs h hsuffix)
      rw [findFrom, hnone]
      exact ih _ _ ((List.suffix_cons c rest).trans hsuffix)
  exact hfrom cs [] 0 (List.suffix_refl cs)

theorem substitute_of_not_occurs {cs : List Char} (f : Found → List Char)
    (h : Text.occursIn s.toList cs = false) :
    (inOrder (exactly s :: a :: more)).substitute f cs = cs := by
  have hfrom : ∀ rest before index, rest <:+ cs →
      (inOrder (exactly s :: a :: more)).substituteFrom f rest before index = rest := by
    intro rest
    induction rest with
    | nil => intros; rfl
    | cons c rest ih =>
      intro before index hsuffix
      rw [substituteFrom_plain (foundAt_of_not_begins (not_begins_of_not_occurs h hsuffix)),
        ih _ _ ((List.suffix_cons c rest).trans hsuffix)]
  rw [substitute_eq]
  exact hfrom cs [] 0 (List.suffix_refl cs)

end Fixed

end Pattern

end Cartridge
