import Cartridge.Learning
import Cartridge.Proofs.Decimal.Order
import Mathlib.Data.List.Sort

/-!
# The best examples

Whenever there is one example too many, all of them are sorted and the last one is dropped. What is
dropped this way is never missed: the examples that are left are the first ones of all that were
ever made, sorted once at the end.

* `mergeSort_concat`: sorting one more is putting it behind all that are no worse.
* `take_mergeSort_concat`: what was dropped has no part in what comes to the first places later.
* `Code.quality_ne_notANumber`: any two qualities compare.
* `Ranked`, `ranked_byQuality`, `Ranked.eq_byQuality`: the better examples first, and the older ones
  among equally good; there is one such ranking.
* `foldl_remember`: the examples that are left when some were made one after another.
-/

namespace Cartridge

/-! ## Sorting one more -/

section Sorting

open List

variable {α : Type} {le : α → α → Bool}

/-- One that goes ahead of its equals and one that goes behind its equals are put in, in any
order. -/
theorem orderedInsert_comm (trans : ∀ a b c, le a b → le b c → le a c)
    (total : ∀ a b, le a b || le b a) (a x : α) (l : List α) :
    (l.orderedInsert (fun x b => le b x = false) x).orderedInsert (fun a b => le a b = true) a =
      (l.orderedInsert (fun a b => le a b = true) a).orderedInsert
        (fun x b => le b x = false) x := by
  induction l with
  | nil => by_cases h : le a x = true <;> simp [h]
  | cons b l ih =>
    by_cases hb : le b x = true <;> by_cases ha : le a b = true
    · have hax := trans a b x ha hb
      simp [hb, ha, hax]
    · simp [hb, ha, ih]
    · by_cases hax : le a x = true <;> simp [hb, ha, hax]
    · have hxb : le x b = true := by simpa [hb] using total x b
      have hax : ¬ le a x = true := fun hax => ha (trans a x b hax hxb)
      simp [hb, ha, hax]

theorem mergeSort_cons_eq (trans : ∀ a b c, le a b → le b c → le a c)
    (total : ∀ a b, le a b || le b a) (a : α) (l : List α) :
    (a :: l).mergeSort le = (l.mergeSort le).orderedInsert (fun a b => le a b = true) a := by
  obtain ⟨before, after, hsorted, hrest, hbefore⟩ := mergeSort_cons trans total a l
  have hafter : ∀ b ∈ after, le a b = true := by
    have hpairwise := pairwise_mergeSort trans total (a :: l)
    rw [hsorted] at hpairwise
    exact (pairwise_cons.mp (pairwise_append.mp hpairwise).2.1).1
  rw [hsorted, hrest]
  clear hsorted hrest
  induction before with
  | nil =>
    cases after with
    | nil => rfl
    | cons b after => exact (orderedInsert_cons_of_le _ after (hafter b mem_cons_self)).symm
  | cons b before ih =>
    obtain ⟨hb, hbefore⟩ := forall_mem_cons.mp hbefore
    rw [cons_append, cons_append, orderedInsert_cons, if_neg (by simpa using hb), ih hbefore]

/-- Sorting one more is putting it behind all that are no worse. -/
theorem mergeSort_concat (trans : ∀ a b c, le a b → le b c → le a c)
    (total : ∀ a b, le a b || le b a) (l : List α) (x : α) :
    (l ++ [x]).mergeSort le = (l.mergeSort le).orderedInsert (fun x b => le b x = false) x := by
  induction l with
  | nil => simp
  | cons a l ih =>
    rw [cons_append, mergeSort_cons_eq trans total, mergeSort_cons_eq trans total, ih,
      orderedInsert_comm trans total]

theorem take_orderedInsert {r : α → α → Prop} [DecidableRel r] (x : α) (n : Nat) (l : List α) :
    ((l.take n).orderedInsert r x).take n = (l.orderedInsert r x).take n := by
  induction l generalizing n with
  | nil => simp
  | cons b l ih =>
    cases n with
    | zero => simp
    | succ n =>
      rw [take_succ_cons, orderedInsert_cons, orderedInsert_cons]
      split
      · cases n <;> simp [take_take]
      · rw [take_succ_cons, take_succ_cons, ih]

/-- What is beyond a number of places has no part in what comes to these places later. -/
theorem take_mergeSort_concat (trans : ∀ a b c, le a b → le b c → le a c)
    (total : ∀ a b, le a b || le b a) (n : Nat) (l : List α) (x : α) :
    (((l.mergeSort le).take n ++ [x]).mergeSort le).take n =
      ((l ++ [x]).mergeSort le).take n := by
  have hsorted : ((l.mergeSort le).take n).mergeSort le = (l.mergeSort le).take n :=
    mergeSort_of_pairwise ((pairwise_mergeSort trans total l).sublist (take_sublist n _))
  rw [mergeSort_concat trans total, mergeSort_concat trans total, hsorted, take_orderedInsert]

end Sorting

/-! ## Qualities are numbers -/

open Decimal (notANumber)

theorem Quantity.atLeast_ne_notANumber {bound : Float} (hbound : bound ≠ notANumber) (x : Float) :
    atLeast bound x ≠ notANumber := by
  rw [atLeast]
  split
  · rename_i hbelow
    rintro rfl
    exact Decimal.not_lt_notANumber bound (of_decide_eq_true hbelow)
  · exact hbound

/-- Whatever comes of the sums, a quality is a number. -/
theorem Code.quality_ne_notANumber (code : String) : (quality code : Float) ≠ notANumber :=
  Quantity.atLeast_ne_notANumber (by decide) _

namespace Example

/-! ## The order of examples -/

/-- Whether an example comes before another one that is younger. A quality that is not a number
would be the worst. -/
def noWorse (a b : Example Float) : Bool := b.quality = notANumber ∨ b.quality ≤ a.quality

theorem noWorse_trans (a b c : Example Float) (hab : noWorse a b) (hbc : noWorse b c) :
    noWorse a c := by
  rw [noWorse, decide_eq_true_iff] at *
  rcases hbc with hc | hcb
  · exact .inl hc
  · rcases hab with hb | hba
    · rw [hb] at hcb
      exact absurd hcb (Decimal.not_le_notANumber _)
    · exact .inr (Decimal.le_of_le_of_le hcb hba)

theorem noWorse_total (a b : Example Float) : noWorse a b || noWorse b a := by
  rw [Bool.or_eq_true, noWorse, noWorse, decide_eq_true_iff, decide_eq_true_iff]
  by_cases ha : a.quality = notANumber
  · exact .inr (.inl ha)
  · by_cases hb : b.quality = notANumber
    · exact .inl (.inl hb)
    · rcases Decimal.lt_or_le ha hb with hlt | hle
      · exact .inr (.inr (Decimal.le_of_lt hlt))
      · exact .inl (.inr hle)

/-- The quality of an example is a number. -/
def Rated (e : Example Float) : Prop := e.quality ≠ notANumber

variable {history : List (Example Float)}

theorem byQuality_eq_mergeSort (h : ∀ e ∈ history, Rated e) :
    byQuality history = history.mergeSort noWorse := by
  have hsame : ∀ a ∈ history, ∀ b ∈ history,
      Quantity.upTo b.quality a.quality = noWorse (id a) (id b) := by
    intro a _ b hb
    exact decide_eq_decide.mpr (or_iff_right (h b hb)).symm
  have hmap := List.map_mergeSort hsame
  rwa [List.map_id, List.map_id] at hmap

/-- All the examples of a history: the better ones first, and as they were where they were in that
order already. -/
structure Ranked (history ranking : List (Example Float)) : Prop where
  perm : ranking.Perm history
  descending : ranking.Pairwise fun a b => b.quality ≤ a.quality
  stable : ∀ chosen : List (Example Float), chosen.Sublist history →
    (chosen.Pairwise fun a b => b.quality ≤ a.quality) → chosen.Sublist ranking

theorem ranked_byQuality (h : ∀ e ∈ history, Rated e) : Ranked history (byQuality history) := by
  rw [byQuality_eq_mergeSort h]
  have hperm := List.mergeSort_perm history noWorse
  refine ⟨hperm, ?_, ?_⟩
  · refine (List.pairwise_mergeSort noWorse_trans noWorse_total history).imp_of_mem ?_
    intro a b _ hb hab
    exact (of_decide_eq_true hab).resolve_left (h b (hperm.mem_iff.mp hb))
  · intro chosen hsublist hdescending
    refine List.sublist_mergeSort noWorse_trans noWorse_total (hdescending.imp ?_) hsublist
    intro a b hba
    exact decide_eq_true (.inr hba)

/-- Whether an example is as good as a quality. -/
def ties (quality : Float) (e : Example Float) : Bool :=
  e.quality ≤ quality ∧ quality ≤ e.quality

theorem Rated.ties_self {e : Example Float} (h : Rated e) : ties e.quality e = true :=
  decide_eq_true ⟨Decimal.le_self h, Decimal.le_self h⟩

/-- A ranking has the examples of one quality as the history has them. -/
theorem Ranked.filter_ties {ranking : List (Example Float)} (h : Ranked history ranking)
    (quality : Float) : ranking.filter (ties quality) = history.filter (ties quality) := by
  have hkept : (history.filter (ties quality)).Sublist ranking := by
    refine h.stable _ List.filter_sublist (List.pairwise_of_forall_mem_list ?_)
    intro a ha b hb
    have ha := of_decide_eq_true (List.mem_filter.mp ha).2
    have hb := of_decide_eq_true (List.mem_filter.mp hb).2
    exact Decimal.le_of_le_of_le hb.1 ha.2
  have hsublist := hkept.filter (ties quality)
  rw [List.filter_filter] at hsublist
  simp only [Bool.and_self] at hsublist
  exact (hsublist.eq_of_length (h.perm.filter _).length_eq.symm).symm

/-- The best example of a descending list is as good as any example in it. -/
theorem le_head {e first : Example Float} {rest : List (Example Float)}
    (hdescending : (first :: rest).Pairwise fun a b => b.quality ≤ a.quality) (hrated : Rated first)
    (he : e ∈ first :: rest) : e.quality ≤ first.quality := by
  rcases List.mem_cons.mp he with rfl | he
  · exact Decimal.le_self hrated
  · exact List.rel_of_pairwise_cons hdescending he

/-- Descending lists are known by their examples of each quality. -/
theorem eq_of_filter_ties (first : List (Example Float)) :
    ∀ {second : List (Example Float)}, (∀ e ∈ first, Rated e) → (∀ e ∈ second, Rated e) →
      (first.Pairwise fun a b => b.quality ≤ a.quality) →
      (second.Pairwise fun a b => b.quality ≤ a.quality) →
      (∀ quality, first.filter (ties quality) = second.filter (ties quality)) →
      first = second := by
  induction first with
  | nil =>
    intro second _ hsecond _ _ hties
    cases second with
    | nil => rfl
    | cons b second =>
      have hb := hties b.quality
      rw [List.filter_cons_of_pos (hsecond b List.mem_cons_self).ties_self] at hb
      cases hb
  | cons a first ih =>
    intro second hfirst hsecond hdescending hdescending' hties
    have ha := hfirst a List.mem_cons_self
    have hmem : a ∈ second.filter (ties a.quality) := by
      rw [← hties, List.filter_cons_of_pos ha.ties_self]
      exact List.mem_cons_self
    cases second with
    | nil => cases hmem
    | cons b second =>
      have hb := hsecond b List.mem_cons_self
      have hmem' : b ∈ (a :: first).filter (ties b.quality) := by
        rw [hties, List.filter_cons_of_pos hb.ties_self]
        exact List.mem_cons_self
      -- the heads are as good as each other, so they are the first of the same examples
      have hsame : ties a.quality b = true :=
        decide_eq_true ⟨le_head hdescending ha (List.mem_filter.mp hmem').1,
          le_head hdescending' hb (List.mem_filter.mp hmem).1⟩
      have hheads := hties a.quality
      rw [List.filter_cons_of_pos ha.ties_self, List.filter_cons_of_pos hsame] at hheads
      obtain rfl : a = b := (List.cons.inj hheads).1
      have hrest : first = second := by
        refine ih (List.forall_mem_cons.mp hfirst).2 (List.forall_mem_cons.mp hsecond).2
          hdescending.of_cons hdescending'.of_cons ?_
        intro quality
        have hquality := hties quality
        rw [List.filter_cons, List.filter_cons] at hquality
        split at hquality
        · exact (List.cons.inj hquality).2
        · exact hquality
      rw [hrest]

/-- There is only one ranking of a history. -/
theorem Ranked.eq_byQuality {ranking : List (Example Float)} (h : Ranked history ranking)
    (hrated : ∀ e ∈ history, Rated e) : ranking = byQuality history := by
  have hown := ranked_byQuality hrated
  refine eq_of_filter_ties ranking ?_ ?_ h.descending hown.descending ?_
  · intro e he
    exact hrated e (h.perm.mem_iff.mp he)
  · intro e he
    exact hrated e (hown.perm.mem_iff.mp he)
  · intro quality
    rw [h.filter_ties, hown.filter_ties]

/-! ## Remembering one after another -/

/-- The examples of a history that are left: all of them while there is room, else the best. -/
def best (history : List (Example Float)) : List (Example Float) :=
  if history.length ≤ capacity then history else (byQuality history).take capacity

theorem remember_best {new : Example Float} (h : ∀ e ∈ history, Rated e) (hnew : Rated new) :
    remember (best history) new = best (history ++ [new]) := by
  have hall : ∀ e ∈ history ++ [new], Rated e :=
    List.forall_mem_append.mpr ⟨h, List.forall_mem_singleton.mpr hnew⟩
  have hlength : (history ++ [new]).length = history.length + 1 := List.length_append
  by_cases hroom : history.length ≤ capacity
  · rw [best, best, if_pos hroom, remember]
    by_cases hfull : capacity < (history ++ [new]).length
    · rw [if_pos hfull, if_neg (Nat.not_le.mpr hfull)]
    · rw [if_neg hfull, if_pos (Nat.not_lt.mp hfull)]
  · have hkept : ((byQuality history).take capacity).length = capacity := by
      rw [byQuality, List.length_take, List.length_mergeSort]
      omega
    have hrated : ∀ e ∈ (byQuality history).take capacity ++ [new], Rated e := by
      refine List.forall_mem_append.mpr ⟨?_, List.forall_mem_singleton.mpr hnew⟩
      intro e he
      exact h e ((ranked_byQuality h).perm.mem_iff.mp (List.mem_of_mem_take he))
    rw [best, best, if_neg hroom, if_neg (by omega), remember]
    rw [if_pos (by rw [List.length_append, hkept]; exact Nat.lt_succ_self _),
      byQuality_eq_mergeSort hrated, byQuality_eq_mergeSort h, byQuality_eq_mergeSort hall]
    exact take_mergeSort_concat noWorse_trans noWorse_total capacity history new

/-- Examples that are remembered one after another leave the best of them all. -/
theorem foldl_remember (history made : List (Example Float)) (h : ∀ e ∈ history ++ made, Rated e) :
    made.foldl remember (best history) = best (history ++ made) := by
  induction made generalizing history with
  | nil => rw [List.append_nil, List.foldl_nil]
  | cons new made ih =>
    obtain ⟨hhistory, hmade⟩ := List.forall_mem_append.mp h
    have hall : ∀ e ∈ history ++ [new] ++ made, Rated e := by
      rwa [List.append_assoc, List.singleton_append]
    rw [List.foldl_cons, remember_best hhistory (hmade new List.mem_cons_self), ih _ hall,
      List.append_assoc, List.singleton_append]

end Example

end Cartridge
