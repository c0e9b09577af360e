import Cartridge.Json.Reader
import Cartridge.Json.Writer
import Cartridge.Proofs.Decimal.Digits
import Cartridge.Proofs.Decimal.Shortest

/-!
# Reading numbers back

A written number is read again if nothing follows that could belong to it. A whole number comes back
if it has not too many digits, and every double comes back, those that are not finite included.

* `number_whole`, `number_fraction`, `number_exponent`: the three ways to write a number.
* `number_plain`: a decimal that is written out has its value again.
* `value_floatText`: the text of a double is read as the double.
-/

namespace Cartridge.Json

open Decimal

/-- Nothing follows that could belong to a number. -/
def EndsNumber (rest : List Char) : Prop :=
  ∀ c ∈ rest.head?, c.isDigit = false ∧ c ≠ '.' ∧ c ≠ 'e' ∧ c ≠ 'E'

/-- Digits that can be the whole part of a number: no zero stands before others. -/
structure IsWhole (ds : List Char) : Prop where
  digits : ∀ c ∈ ds, c.isDigit = true
  nonempty : ds ≠ []
  first : ds.head? = some '0' → ds = ['0']

/-! ## Digits -/

theorem digitsNumber_eq (ds : List Char) : digitsNumber ds = Nat.ofDigitChars 10 ds 0 := rfl

theorem digitsNumber_toDigits (n : Nat) : digitsNumber (Nat.toDigits 10 n) = n := by
  rw [digitsNumber_eq, Nat.ofDigitChars_ten_toDigits]

theorem digitsNumber_zeros_append (k : Nat) (ds : List Char) :
    digitsNumber (List.replicate k '0' ++ ds) = digitsNumber ds := by
  rw [digitsNumber_eq, Nat.ofDigitChars_append, Nat.ofDigitChars_replicate_zero, Nat.mul_zero,
    digitsNumber_eq]

theorem digitsNumber_append_zeros (ds : List Char) (k : Nat) :
    digitsNumber (ds ++ List.replicate k '0') = digitsNumber ds * 10 ^ k := by
  rw [digitsNumber_eq, Nat.ofDigitChars_append, Nat.ofDigitChars_replicate_zero, digitsNumber_eq,
    Nat.mul_comm]

theorem isDigit_of_mem_zeros {k : Nat} {c : Char} (hc : c ∈ List.replicate k '0') :
    c.isDigit = true := by
  rw [List.eq_of_mem_replicate hc]
  rfl

theorem isWhole_zero : IsWhole ['0'] := ⟨by simp, by simp, fun _ => rfl⟩

theorem head?_toDigits_ne_zero {n : Nat} (hn : n ≠ 0) : (Nat.toDigits 10 n).head? ≠ some '0' := by
  induction n using Nat.strongRecOn with
  | ind n ih =>
    by_cases hsmall : n < 10
    · rw [Nat.toDigits_of_lt_base hsmall, List.head?_cons]
      have hdigit : ∀ n < 10, n ≠ 0 → some n.digitChar ≠ some '0' := by decide
      exact hdigit n hsmall hn
    · have hne : Nat.toDigits 10 (n / 10) ≠ [] := Nat.toDigits_ne_nil
      rw [Nat.toDigits_eq_if (by decide), if_neg hsmall, List.head?_append_of_ne_nil _ hne]
      exact ih (n / 10) (by omega) (by omega)

theorem isWhole_toDigits (n : Nat) : IsWhole (Nat.toDigits 10 n) where
  digits _ hc := Nat.isDigit_of_mem_toDigits (by decide) (by decide) hc
  nonempty := Nat.toDigits_ne_nil
  first h := by
    by_cases hn : n = 0
    · rw [hn]
      rfl
    · exact absurd h (head?_toDigits_ne_zero hn)

theorem isWhole_append {ds more : List Char} (hds : IsWhole ds) (hfirst : ds.head? ≠ some '0')
    (hmore : ∀ c ∈ more, c.isDigit = true) : IsWhole (ds ++ more) where
  digits c hc := (List.mem_append.mp hc).elim (hds.digits c) (hmore c)
  nonempty h := hds.nonempty (List.append_eq_nil_iff.mp h).1
  first h := by
    rw [List.head?_append_of_ne_nil _ hds.nonempty] at h
    exact absurd h hfirst

theorem digits_append {ds rest : List Char} (hds : ∀ c ∈ ds, c.isDigit = true)
    (hrest : ∀ c ∈ rest.head?, c.isDigit = false) : digits (ds ++ rest) = (ds, rest) := by
  have hrest' : rest.takeWhile Char.isDigit = [] ∧ rest.dropWhile Char.isDigit = rest := by
    cases rest with
    | nil => exact ⟨rfl, rfl⟩
    | cons c rest =>
      have hc := hrest c rfl
      simp [hc]
  rw [digits, List.takeWhile_append_of_pos hds, List.dropWhile_append_of_pos hds, hrest'.1,
    hrest'.2, List.append_nil]

/-! ## The parts of a number -/

theorem whole?_append {ds rest : List Char} (hds : IsWhole ds)
    (hrest : ∀ c ∈ rest.head?, c.isDigit = false) : whole? (ds ++ rest) = some (ds, rest) := by
  obtain ⟨c, more, rfl⟩ := List.exists_cons_of_ne_nil hds.nonempty
  by_cases hzero : c = '0'
  · subst hzero
    obtain ⟨-, rfl⟩ := List.cons.inj (hds.first rfl)
    rfl
  · have hread := digits_append hds.digits hrest
    rw [List.cons_append] at hread ⊢
    unfold whole?
    split
    · rename_i heq
      exact absurd (List.cons.inj heq).1 hzero
    · rw [hread]

theorem fraction?_append {ds rest : List Char} (hne : ds ≠ [])
    (hds : ∀ c ∈ ds, c.isDigit = true) (hrest : ∀ c ∈ rest.head?, c.isDigit = false) :
    fraction? ('.' :: (ds ++ rest)) = some (ds, rest) := by
  rw [fraction?, digits_append hds hrest]
  cases ds with
  | nil => exact absurd rfl hne
  | cons c ds => rfl

theorem fraction?_none {rest : List Char} (hrest : ∀ c ∈ rest.head?, c ≠ '.') :
    fraction? rest = none := by
  cases rest with
  | nil => rfl
  | cons c rest =>
    unfold fraction?
    split
    · rename_i heq
      exact absurd (List.cons.inj heq).1 (hrest c rfl)
    · rfl

theorem power?_none {rest : List Char} (hrest : EndsNumber rest) : power? rest = none := by
  cases rest with
  | nil => rfl
  | cons c rest =>
    obtain ⟨-, -, he, hE⟩ := hrest c rfl
    simp [power?, he, hE]

theorem power?_append {ds rest : List Char} (negative : Bool) (hne : ds ≠ [])
    (hds : ∀ c ∈ ds, c.isDigit = true) (hrest : ∀ c ∈ rest.head?, c.isDigit = false) :
    power? ('e' :: (if negative then '-' else '+') :: (ds ++ rest)) =
      some (if negative then -(digitsNumber ds : Int) else digitsNumber ds, rest) := by
  have hread := digits_append hds hrest
  cases ds with
  | nil => exact absurd rfl hne
  | cons c ds =>
    rw [List.cons_append] at hread
    cases negative <;> simp [power?, hread]

/-! ## Numbers -/

theorem EndsNumber.digit {rest : List Char} (h : EndsNumber rest) :
    ∀ c ∈ rest.head?, c.isDigit = false := fun c hc => (h c hc).1

variable {ds fraction rest : List Char}

theorem number_whole (negative : Bool) (hds : IsWhole ds) (hlength : ds.length ≤ Text.digitLimit)
    (hrest : EndsNumber rest) : number negative (ds ++ rest) =
      .ok (.int (if negative then -(digitsNumber ds : Int) else digitsNumber ds), rest) := by
  unfold number
  rw [whole?_append hds hrest.digit]
  dsimp only
  rw [fraction?_none fun c hc => (hrest c hc).2.1]
  dsimp only
  rw [power?_none hrest]
  dsimp only
  rw [if_neg Bool.false_ne_true, if_neg (not_lt.mpr hlength)]

theorem number_fraction (negative : Bool) (ds fraction : List Char) (hds : IsWhole ds)
    (hne : fraction ≠ []) (hfraction : ∀ c ∈ fraction, c.isDigit = true)
    (hrest : EndsNumber rest) :
    number negative (ds ++ '.' :: (fraction ++ rest)) =
      .ok (.float (ofDigits negative (digitsNumber (ds ++ fraction)) (-fraction.length)),
        rest) := by
  unfold number
  rw [whole?_append hds (by rintro c ⟨⟩; rfl)]
  dsimp only
  rw [fraction?_append hne hfraction hrest.digit]
  dsimp only
  rw [power?_none hrest]
  rfl

theorem number_exponent (negative : Bool) (ds fraction : List Char) (hds : IsWhole ds)
    (hfraction : ∀ c ∈ fraction, c.isDigit = true) (below : Bool)
    {power : List Char} (hne : power ≠ []) (hpower : ∀ c ∈ power, c.isDigit = true)
    (hrest : EndsNumber rest) :
    number negative (ds ++ ((if fraction = [] then [] else '.' :: fraction) ++
        'e' :: (if below then '-' else '+') :: (power ++ rest))) =
      .ok (.float (ofDigits negative (digitsNumber (ds ++ fraction))
        ((if below then -(digitsNumber power : Int) else digitsNumber power) - fraction.length)),
        rest) := by
  have hread := power?_append below hne hpower hrest.digit
  unfold number
  by_cases hempty : fraction = []
  · rw [if_pos hempty, List.nil_append, whole?_append hds (by rintro c ⟨⟩; rfl)]
    dsimp only
    rw [fraction?_none (by rintro c ⟨⟩; decide), hread, hempty]
  · rw [if_neg hempty, List.cons_append, whole?_append hds (by rintro c ⟨⟩; rfl)]
    dsimp only
    rw [fraction?_append hempty hfraction (by rintro c ⟨⟩; rfl)]
    dsimp only
    rw [hread]

/-! ## Decimals written out -/

theorem isWhole_take {k : Nat} (hds : IsWhole ds) (hfirst : ds.head? ≠ some '0') (hk : k ≠ 0) :
    IsWhole (ds.take k) where
  digits c hc := hds.digits c (List.mem_of_mem_take hc)
  nonempty h := by
    rcases List.take_eq_nil_iff.mp h with h | h
    · exact hk h
    · exact hds.nonempty h
  first h := by
    rw [List.head?_take, if_neg hk] at h
    exact absurd h hfirst

theorem isDigit_of_mem_padded (width n : Nat) {c : Char} (hc : c ∈ (padded width n).toList) :
    c.isDigit = true := by
  rw [padded, String.toList_ofList] at hc
  rcases List.mem_append.mp hc with hc | hc
  · exact isDigit_of_mem_zeros hc
  · exact (isWhole_toDigits n).digits c hc

theorem digitsNumber_padded (width n : Nat) : digitsNumber (padded width n).toList = n := by
  rw [padded, String.toList_ofList, digitsNumber_zeros_append, digitsNumber_toDigits]

/-- A decimal that is written out is read as digits and a power of ten with the same value. -/
theorem number_plain (negative : Bool) {s : Scientific} (hs : s.digits ≠ 0)
    (hrest : EndsNumber rest) : ∃ n p,
      number negative (s.plain.toList ++ rest) = .ok (.float (ofDigits negative n p), rest) ∧
        (n : ℚ) * 10 ^ p = s.value := by
  have hwhole := isWhole_toDigits s.digits
  have hfirst := head?_toDigits_ne_zero hs
  have hnumber := digitsNumber_toDigits s.digits
  have hcount : 0 < (Nat.toDigits 10 s.digits).length := Nat.length_toDigits_pos
  unfold Scientific.plain Scientific.value
  dsimp only
  generalize Nat.toDigits 10 s.digits = ds at *
  split
  · split
    · -- the point stands behind all digits
      rename_i hplace
      refine ⟨_, _, (congrArg (number negative) ?_).trans (number_fraction
        negative (ds ++ List.replicate s.place.toNat '0') ['0']
        (isWhole_append hwhole hfirst fun c hc => isDigit_of_mem_zeros hc) (by simp)
        isWhole_zero.digits hrest), ?_⟩
      · simp
      · have hzeros : List.replicate s.place.toNat '0' ++ ['0'] =
            List.replicate (s.place.toNat + 1) '0' := List.replicate_succ'.symm
        rw [List.append_assoc, hzeros, digitsNumber_append_zeros, hnumber]
        push_cast
        rw [mul_assoc, ← zpow_natCast, ← zpow_add₀ (by norm_num)]
        congr 2
        simp
        omega
    split
    · -- the point stands among the digits
      rename_i hplace hlead
      have hk : (s.place + ds.length - 1).toNat + 1 < ds.length := by omega
      generalize hsplit : (s.place + ds.length - 1).toNat + 1 = k at *
      refine ⟨_, _, (congrArg (number negative) ?_).trans (number_fraction
        negative (ds.take k) (ds.drop k) (isWhole_take hwhole hfirst (by omega))
        (fun h => by have := List.drop_eq_nil_iff.mp h; omega)
        (fun c hc => hwhole.digits c (List.mem_of_mem_drop hc)) hrest), ?_⟩
      · simp
      · rw [List.take_append_drop, hnumber, List.length_drop]
        congr 2
        omega
    · -- the point stands before all digits
      rename_i hplace hlead
      refine ⟨_, _, (congrArg (number negative) ?_).trans (number_fraction
        negative ['0'] (List.replicate (-(s.place + ds.length - 1) - 1).toNat '0' ++ ds)
        isWhole_zero (by simp [hwhole.nonempty])
        (fun c hc => (List.mem_append.mp hc).elim isDigit_of_mem_zeros (hwhole.digits c))
        hrest), ?_⟩
      · simp
      · rw [← List.append_assoc, show ['0'] = List.replicate 1 '0' from rfl,
          ← List.replicate_add, digitsNumber_zeros_append, hnumber, List.length_append,
          List.length_replicate]
        congr 2
        omega
  · -- one digit before the point, and an exponent
    refine ⟨_, _, (congrArg (number negative) ?_).trans (number_exponent negative
      (ds.take 1) (ds.drop 1) (isWhole_take hwhole hfirst (by decide))
      (fun c hc => hwhole.digits c (List.mem_of_mem_drop hc))
      (decide (s.place + ds.length - 1 < 0)) ?_
      (fun _ => isDigit_of_mem_padded 2 (s.place + ds.length - 1).natAbs)
      hrest), ?_⟩
    · have hdrop : ds.drop 1 = [] ↔ ds.length = 1 := by
        rw [List.drop_eq_nil_iff]
        omega
      have hpoint : (if ds.length = 1 then "" else "." ++ String.ofList (ds.drop 1)).toList =
          if ds.drop 1 = [] then [] else '.' :: ds.drop 1 := by
        by_cases hone : ds.length = 1
        · rw [if_pos hone, if_pos (hdrop.mpr hone)]
          rfl
        · rw [if_neg hone, if_neg (mt hdrop.mp hone)]
          simp
      have hsign : (if s.place + ds.length - 1 < 0 then "-" else "+").toList =
          [if decide (s.place + ds.length - 1 < 0) = true then '-' else '+'] := by
        by_cases hbelow : s.place + ds.length - 1 < 0
        · rw [if_pos hbelow, decide_eq_true hbelow]
          rfl
        · rw [if_neg hbelow, decide_eq_false hbelow]
          rfl
      simp only [String.toList_append, hpoint, hsign, String.toList_ofList, List.append_assoc]
      rfl
    · rw [padded, String.toList_ofList]
      exact List.append_ne_nil_of_right_ne_nil _ (isWhole_toDigits _).nonempty
    · rw [List.take_append_drop, hnumber, digitsNumber_padded, List.length_drop]
      congr 2
      simp only [decide_eq_true_eq]
      split <;> omega

/-! ## Values without inner structure -/

/-- The words of the format. -/
def words : List String := ["null", "true", "false", "NaN", "Infinity", "-Infinity"]

theorem word?_none {cs : List Char} (h : ∀ w ∈ words, ¬ w.toList <+: cs) : word? cs = none := by
  unfold word?
  dsimp only
  rw [List.findSome?_eq_none_iff]
  intro p hp
  exact if_neg (mt List.isPrefixOf_iff_prefix.mp (h p.1 (List.mem_map_of_mem (f := Prod.fst) hp)))

/-- No word has a digit among its first two characters. -/
theorem word?_of_digit {c : Char} (hc : c.isDigit = true) {cs : List Char} (hmem : c ∈ cs.take 2) :
    word? cs = none := by
  refine word?_none fun w hw hprefix => ?_
  have hwords : ∀ w ∈ words, 2 ≤ w.toList.length ∧ ∀ d ∈ w.toList.take 2, d.isDigit = false := by
    simp [words]
  obtain ⟨hlength, hdigits⟩ := hwords w hw
  have htake : w.toList.take 2 = cs.take 2 := by
    rw [List.prefix_iff_eq_take.mp hprefix, List.take_take, min_eq_left hlength]
  rw [hdigits c (by rw [htake]; exact hmem)] at hc
  cases hc

/-- A value that begins neither a string nor a list nor an object is a word or a number. -/
theorem value_apply (bound room : Nat) (cs : List Char) :
    (∀ c ∈ ['"', '[', '\x7b'], cs.head? ≠ some c) → value (bound + 1) room cs =
      match word? cs with
      | some found => .ok found
      | none =>
        match cs with
        | '-' :: rest => number true rest
        | _ => number false cs := by
  intro hcs
  unfold value
  split
  iterate 5 exact absurd rfl (hcs _ (by decide))
  rfl

theorem ne_of_isDigit {c d : Char} (hc : c.isDigit = true) (hd : d.isDigit = false) : c ≠ d := by
  rintro rfl
  rw [hc] at hd
  cases hd

theorem digit_of_number {negative : Bool} {cs : List Char} {found : Json × List Char}
    (h : number negative cs = .ok found) : ∃ c more, cs = c :: more ∧ c.isDigit = true := by
  unfold number at h
  split at h
  · cases h
  rename_i hwhole
  unfold whole? at hwhole
  split at hwhole
  · exact ⟨_, _, rfl, rfl⟩
  · unfold digits at hwhole
    cases cs with
    | nil => cases hwhole
    | cons c more =>
      cases hc : c.isDigit with
      | true => exact ⟨c, more, rfl, hc⟩
      | false =>
        rw [List.takeWhile_cons_of_neg (by simp [hc])] at hwhole
        cases hwhole

/-- A sign and what is read as a number are read as a value. -/
theorem value_signed (bound room : Nat) {negative : Bool} {cs : List Char}
    {found : Json × List Char} (h : number negative cs = .ok found) :
    value (bound + 1) room ((signText negative).toList ++ cs) = .ok found := by
  obtain ⟨c, more, rfl, hc⟩ := digit_of_number h
  cases negative with
  | true =>
    show value (bound + 1) room ('-' :: c :: more) = _
    have hhead : ∀ d ∈ ['"', '[', '\x7b'], '-' ≠ d := by simp
    rw [value_apply bound room ('-' :: c :: more)
      (fun d hd heq => hhead d hd (Option.some.inj heq)), word?_of_digit hc (by simp)]
    exact h
  | false =>
    show value (bound + 1) room (c :: more) = _
    have hhead : ∀ d ∈ ['"', '[', '\x7b'], d.isDigit = false := by simp
    rw [value_apply bound room (c :: more)
      (fun d hd heq => ne_of_isDigit hc (hhead d hd) (Option.some.inj heq)),
      word?_of_digit hc (by simp)]
    dsimp only
    split
    · rename_i heq
      exact absurd (List.cons.inj heq).1 (ne_of_isDigit hc (by decide))
    · exact h

/-! ## Doubles -/

theorem value_infinity (bound room : Nat) (negative : Bool) (rest : List Char) :
    value (bound + 1) room ((if negative then "-Infinity" else "Infinity").toList ++ rest) =
      .ok (.float (infinity negative), rest) := by
  cases negative <;> rfl

theorem value_nan (bound room : Nat) (rest : List Char) :
    value (bound + 1) room ("NaN".toList ++ rest) = .ok (.float notANumber, rest) := rfl

/-- A decimal with the word of a double, written out after its sign, is read as the double. -/
theorem value_plain (bound room : Nat) {x : Float} {s : Scientific} (hs : s.digits ≠ 0)
    (hreads : s.readsAs (x.toBits.toNat % signWord) = true) (hrest : EndsNumber rest) :
    value (bound + 1) room ((signText (decide (signWord ≤ x.toBits.toNat))).toList ++
      (s.plain.toList ++ rest)) = .ok (.float x, rest) := by
  obtain ⟨n, p, hnumber, hvalue⟩ := number_plain (decide (signWord ≤ x.toBits.toNat)) hs hrest
  have hsame : (⟨n, p⟩ : Scientific).readsAs (x.toBits.toNat % signWord) = true := by
    rw [← hreads]
    exact Scientific.readsAs_congr hvalue
  have hword : nearestWord (scaled n 10 p).1 (scaled n 10 p).2 = x.toBits.toNat % signWord :=
    (Scientific.readsAs_iff _).mp hsame
  rw [value_signed bound room hnumber, ofDigits_eq_nearest, nearest_eq hword]

/-- The text of a double is read as the double. -/
theorem value_floatText (bound room : Nat) (x : Float) (hrest : EndsNumber rest) :
    value (bound + 1) room ((floatText x).toList ++ rest) = .ok (.float x, rest) := by
  unfold floatText
  cases hreading : reading x with
  | infinite negative => rw [value_infinity, eq_infinity hreading]
  | undefined => rw [value_nan, eq_notANumber hreading]
  | finite negative num den =>
    obtain ⟨hsize, rfl, hnum, hden⟩ := reading_finite hreading
    have hzero : num = 0 ↔ x.toBits.toNat % signWord = 0 := by
      rw [hnum, scaled_fst_eq_zero_iff, mantissaOf_eq_zero_iff hsize]
    dsimp only
    unfold Decimal.plain
    rw [hreading]
    dsimp only
    rw [String.toList_append, List.append_assoc]
    by_cases h : num = 0
    · have hread : number (decide (signWord ≤ x.toBits.toNat)) ("0.0".toList ++ rest) =
          .ok (.float (ofDigits _ 0 (-1)), rest) :=
        number_fraction _ ['0'] ['0'] isWhole_zero (by simp) isWhole_zero.digits hrest
      have hword : nearestWord (scaled 0 10 (-1)).1 (scaled 0 10 (-1)).2 =
          x.toBits.toNat % signWord := by
        rw [hzero.mp h]
        rfl
      rw [if_pos h, value_signed bound room hread, ofDigits_eq_nearest, nearest_eq hword]
    · have hpos := mt hzero.mpr h
      have hden₀ : 0 < den := by
        rw [hden]
        exact scaled_pos Nat.two_pos _ _
      have hreads := shortest_readsAs hsize hpos h hden₀ (by
        rw [hnum, hden]
        exact scaled_div _ _)
      rw [if_neg h]
      exact value_plain bound room (Scientific.digits_ne_zero hpos hreads) hreads hrest

end Cartridge.Json
