import Cartridge.Decimal.Shortest
import Cartridge.Proofs.Decimal.Nearest

/-!
# Seventeen digits

Seventeen digits are enough for every double: the nearer of the two decimals with so many digits
that lie next to it reads back as the double. So the search for a shortest decimal finds one.

* `leadingPlace_spec`: the place of the first digit.
* `closest_isSome`: the last try succeeds.
* `shortest_readsAs`: the shortest decimal reads back as its double.
-/

namespace Cartridge.Decimal

variable {num den word : Nat}

/-! ## The first digit -/

theorem ten_zpow_le_of_pow {k n : Int} {p q : Nat} (hp : p ≠ 0)
    (hpow : ((10 : ℚ) ^ p) ^ k ≤ (2 ^ q) ^ k) (hkn : q * k ≤ p * n) : (10 : ℚ) ^ k ≤ 2 ^ n := by
  refine le_of_not_gt fun hlt => ?_
  have hlt' := pow_lt_pow_left₀ hlt (zpow_pos (by norm_num) n).le hp
  have hten : ((10 : ℚ) ^ k) ^ p = (10 ^ p) ^ k := by
    rw [← zpow_natCast, ← zpow_mul, mul_comm, zpow_mul, zpow_natCast]
  have htwo : ((2 : ℚ) ^ n) ^ p = 2 ^ (p * n : Int) := by
    rw [← zpow_natCast, ← zpow_mul, mul_comm]
  have htwo' : ((2 : ℚ) ^ q) ^ k = 2 ^ (q * k : Int) := by rw [zpow_mul, zpow_natCast]
  rw [hten, htwo] at hlt'
  rw [htwo'] at hpow
  exact absurd (hlt'.trans_le hpow) (not_lt.mpr (zpow_le_zpow_right₀ (by norm_num) hkn))

/-- Powers of ten among powers of two: `log₂ 10` lies between `93 / 28` and `196 / 59`. -/
theorem ten_zpow_le_two_zpow {k n : Int} (hup : 0 ≤ k → 196 * k ≤ 59 * n)
    (hdown : k ≤ 0 → 93 * k ≤ 28 * n) : (10 : ℚ) ^ k ≤ 2 ^ n := by
  rcases le_total 0 k with hk | hk
  · refine ten_zpow_le_of_pow (p := 59) (q := 196) (by decide) ?_ (hup hk)
    exact zpow_le_zpow_left₀ hk (by norm_num) (by norm_num)
  · refine ten_zpow_le_of_pow (p := 28) (q := 93) (by decide) ?_ (hdown hk)
    obtain ⟨j, rfl⟩ : ∃ j : Nat, k = -j := ⟨k.natAbs, by omega⟩
    rw [zpow_neg, zpow_neg]
    refine inv_anti₀ (by positivity) ?_
    rw [zpow_natCast, zpow_natCast]
    exact pow_le_pow_left₀ (by norm_num) (by norm_num) j

/-- Whether a power of ten is no more than a ratio. -/
def reaches (num den : Nat) (e : Int) : Bool :=
  match e with
  | .ofNat n => den * Nat.pow 10 n ≤ num
  | .negSucc n => den ≤ num * Nat.pow 10 (n + 1)

/-- The place of the first digit is found by trying powers of ten. -/
theorem leadingPlace_apply (num den : Nat) : leadingPlace num den =
    let estimate := (((num.log2 : Int) - den.log2) * 30103).fdiv 100000 + 2
    if reaches num den estimate then estimate + 1
    else if reaches num den (estimate - 1) then estimate
    else if reaches num den (estimate - 2) then estimate - 1
    else estimate - 2 := rfl

theorem reaches_iff (num : Nat) (hden : 0 < den) (e : Int) :
    reaches num den e = true ↔ (10 : ℚ) ^ e ≤ num / den := by
  have hpos : (0 : ℚ) < (ratioAt 10 num den e).2 := by
    exact_mod_cast ratioAt_pos num (by decide) hden e
  have hten : (0 : ℚ) < 10 ^ e := zpow_pos (by norm_num) e
  have hratio : (10 : ℚ) ^ e ≤ num / den ↔ (ratioAt 10 num den e).2 ≤ (ratioAt 10 num den e).1 := by
    have hdiv := ratioAt_div 10 num den e
    rw [show ((10 : Nat) : ℚ) = 10 from rfl] at hdiv
    rw [← one_le_div₀ hten, ← hdiv, one_le_div₀ hpos]
    exact_mod_cast Iff.rfl
  rw [hratio]
  cases e with
  | ofNat n => exact decide_eq_true_iff
  | negSucc n => exact decide_eq_true_iff

/-- The first digit of a ratio of moderate size is not further down than the place says. -/
theorem leadingPlace_spec (hnum : num ≠ 0) (hden : 0 < den)
    (hlow : -10000 ≤ (num.log2 : Int) - den.log2) (hhigh : (num.log2 : Int) - den.log2 ≤ 10000) :
    (10 : ℚ) ^ (leadingPlace num den - 1) ≤ num / den := by
  rw [leadingPlace_apply]
  dsimp only
  split
  · rename_i h
    rw [add_sub_cancel_right]
    exact (reaches_iff num hden _).mp h
  split
  · rename_i h
    exact (reaches_iff num hden _).mp h
  split
  · rename_i h
    rw [sub_sub]
    exact (reaches_iff num hden _).mp h
  · -- nothing was tried here, but the binary sizes are enough
    refine le_trans (ten_zpow_le_two_zpow (fun _ => ?_) fun _ => ?_)
      (log2_sub_bounds hnum hden.ne').1.le
    all_goals
      rw [Int.fdiv_eq_ediv_of_nonneg _ (by decide)]
      omega

/-! ## Decimals that read back -/

namespace Scientific

/-- The value of a decimal. -/
def value (s : Scientific) : ℚ := s.digits * 10 ^ s.place

theorem ratio_pos (s : Scientific) : 0 < s.ratio.2 := scaled_pos (by decide) _ _

theorem ratio_div (s : Scientific) : (s.ratio.1 : ℚ) / s.ratio.2 = s.value := scaled_div _ _

theorem readsAs_iff (s : Scientific) :
    s.readsAs word = true ↔ nearestWord s.ratio.1 s.ratio.2 = word := decide_eq_true_iff

/-- Whether a decimal reads back depends on its value alone. -/
theorem readsAs_congr {s s' : Scientific} (h : s.value = s'.value) :
    s.readsAs word = s'.readsAs word := by
  rw [Bool.eq_iff_iff, readsAs_iff, readsAs_iff, nearestWord_congr s.ratio_pos s'.ratio_pos]
  rw [ratio_div, ratio_div, h]

theorem digits_ne_zero {s : Scientific} (hpos : word ≠ 0) (h : s.readsAs word = true) :
    s.digits ≠ 0 := by
  intro hzero
  have hvalue : s.value = (⟨0, 0⟩ : Scientific).value := by
    rw [value, value, hzero, Nat.cast_zero, zero_mul, zero_mul]
  rw [readsAs_congr hvalue, readsAs_iff] at h
  exact hpos h.symm

theorem value_trimmed (fuel : Nat) (s : Scientific) : (s.trimmed fuel).value = s.value := by
  induction fuel generalizing s with
  | zero => rfl
  | succ fuel ih =>
    rw [trimmed]
    split
    · rename_i h
      have hlast : s.digits % 10 = 0 := by simpa using (Bool.and_eq_true_iff.mp h).2
      have hdigits : ((s.digits / 10 : Nat) : ℚ) * 10 = s.digits := by
        exact_mod_cast Nat.div_mul_cancel (Nat.dvd_of_mod_eq_zero hlast)
      rw [ih, value, value, ← hdigits, zpow_add_one₀ (by norm_num)]
      ring
    · rfl

end Scientific

/-- The decimals next to a ratio, below and above. -/
theorem neighbours_apply (num den : Nat) (place : Int) :
    neighbours num den place =
      (⟨(ratioAt 10 num den place).1 / (ratioAt 10 num den place).2, place⟩,
        ⟨(ratioAt 10 num den place).1 / (ratioAt 10 num den place).2 + 1, place⟩,
        compare (2 * ((ratioAt 10 num den place).1 % (ratioAt 10 num den place).2))
          (ratioAt 10 num den place).2) := by
  cases place <;> rfl

theorem readsAs_of_closest {place : Int} {s : Scientific}
    (h : closest word num den place = some s) : s.readsAs word = true := by
  unfold closest at h
  dsimp only at h
  split at h
  · rename_i hlow hhigh
    split at h
    · rwa [← Option.some.inj h]
    · rwa [← Option.some.inj h]
    · rw [← Option.some.inj h]
      split <;> assumption
  · rwa [← Option.some.inj h]
  · rwa [← Option.some.inj h]
  · cases h

theorem closest_isSome_of_readsAs {place : Int}
    (h : (neighbours num den place).1.readsAs word = true ∨
      (neighbours num den place).2.1.readsAs word = true) :
    (closest word num den place).isSome = true := by
  unfold closest
  dsimp only
  rcases h with h | h
  · rw [h]
    split
    · split <;> rfl
    · rfl
    · simp_all
    · simp_all
  · rw [h]
    split
    · split <;> rfl
    · simp_all
    · rfl
    · simp_all

/-- One of the decimals next to a ratio is at most half a unit of the last place away. -/
theorem neighbours_near (num : Nat) (hden : 0 < den) (place : Int) :
    |(neighbours num den place).1.value - (num : ℚ) / den| ≤ 10 ^ place / 2 ∨
      |(neighbours num den place).2.1.value - (num : ℚ) / den| ≤ 10 ^ place / 2 := by
  have hpos := ratioAt_pos num (show 0 < 10 by decide) hden place
  have hdiv := ratioAt_div 10 num den place
  rw [show ((10 : Nat) : ℚ) = 10 from rfl] at hdiv
  have hten : (0 : ℚ) < 10 ^ place := zpow_pos (by norm_num) place
  rw [neighbours_apply]
  unfold Scientific.value
  dsimp only
  generalize (ratioAt 10 num den place).1 = a at *
  generalize (ratioAt 10 num den place).2 = b at *
  have hratio : (num : ℚ) / den = a / b * 10 ^ place := by
    rw [hdiv, div_mul_cancel₀ _ hten.ne']
  have hb : (0 : ℚ) < b := by exact_mod_cast hpos
  have hlow : ((a / b : Nat) : ℚ) ≤ a / b := Nat.cast_div_le
  have hhigh : (a : ℚ) / b < (a / b : Nat) + 1 := by
    rw [div_lt_iff₀ hb, mul_comm]
    exact_mod_cast Nat.lt_mul_div_succ a hpos
  have hscale (n : ℚ) : |n * 10 ^ place - num / den| = |n - a / b| * 10 ^ place := by
    rw [hratio, ← sub_mul, abs_mul, abs_of_pos hten]
  rw [hscale, hscale]
  rcases le_total (2 * ((a : ℚ) / b - (a / b : Nat))) 1 with h | h
  · refine .inl ?_
    rw [abs_of_nonpos (by linarith)]
    nlinarith
  · refine .inr ?_
    rw [Nat.cast_add, Nat.cast_one, abs_of_nonneg (by linarith)]
    nlinarith

/-! ## The ratio of a double -/

/-- The ratio that a finite double says is the value of its mantissa and its power of two. -/
theorem reading_finite {x : Float} {negative : Bool} (h : reading x = .finite negative num den) :
    x.toBits.toNat % signWord < infinityWord ∧ negative = decide (signWord ≤ x.toBits.toNat) ∧
      num = (scaled (mantissaOf (x.toBits.toNat % signWord)).1 2
        (mantissaOf (x.toBits.toNat % signWord)).2).1 ∧
      den = (scaled (mantissaOf (x.toBits.toNat % signWord)).1 2
        (mantissaOf (x.toBits.toNat % signWord)).2).2 := by
  unfold reading at h
  dsimp only at h
  split at h
  · rename_i hsize
    cases h
    exact ⟨hsize, rfl, rfl, rfl⟩
  split at h <;> cases h

theorem scaled_fst_eq_zero_iff {m : Nat} (e : Int) : (scaled m 2 e).1 = 0 ↔ m = 0 := by
  cases e with
  | ofNat n =>
    show m * 2 ^ n = 0 ↔ m = 0
    rw [Nat.mul_eq_zero, or_iff_left (Nat.two_pow_pos n).ne']
  | negSucc n => exact Iff.rfl

theorem mantissaOf_eq_zero_iff (hword : word < infinityWord) :
    (mantissaOf word).1 = 0 ↔ word = 0 := by
  constructor
  · intro h
    by_contra hpos
    have := (mantissaOf_spec hword hpos).1
    omega
  · rintro rfl
    rfl

/-! ## The search -/

/-- The parts of the ratio of a finite word have sizes that differ by those of the word. -/
theorem log2_sub_bounds_of_word (hword : word < infinityWord) (hpos : word ≠ 0)
    (hnum : num ≠ 0) (hden : 0 < den)
    (hvalue : (num : ℚ) / den = (mantissaOf word).1 * 2 ^ (mantissaOf word).2) :
    -10000 ≤ (num.log2 : Int) - den.log2 ∧ (num.log2 : Int) - den.log2 ≤ 10000 := by
  obtain ⟨hm₀, hm, hleast, hmost, -, -⟩ := mantissaOf_spec hword hpos
  obtain ⟨hlow, hhigh⟩ := log2_sub_bounds hnum hden.ne'
  rw [hvalue] at hlow hhigh
  generalize (mantissaOf word).1 = m at *
  generalize (mantissaOf word).2 = e at *
  have hunit : (0 : ℚ) < 2 ^ e := zpow_pos (by norm_num) e
  have hm₁ : (1 : ℚ) ≤ m := by exact_mod_cast hm₀
  have hm₂ : (m : ℚ) ≤ 2 ^ 53 := by exact_mod_cast hm.le
  constructor
  · have hle : (2 : ℚ) ^ e < 2 ^ ((num.log2 : Int) - den.log2 + 1) :=
      (le_mul_of_one_le_left hunit.le hm₁).trans_lt hhigh
    rw [zpow_lt_zpow_iff_right₀ (by norm_num)] at hle
    omega
  · have hle : (2 : ℚ) ^ ((num.log2 : Int) - den.log2 - 1) < 2 ^ 53 * 2 ^ e :=
      hlow.trans_le (mul_le_mul_of_nonneg_right hm₂ hunit.le)
    rw [two_zpow_mul, zpow_lt_zpow_iff_right₀ (by norm_num)] at hle
    push_cast at hle
    omega

/-- With seventeen digits one of the decimals next to a double reads back as it. -/
theorem closest_isSome (hword : word < infinityWord) (hpos : word ≠ 0) (hnum : num ≠ 0)
    (hden : 0 < den)
    (hvalue : (num : ℚ) / den = (mantissaOf word).1 * 2 ^ (mantissaOf word).2) :
    (closest word num den (leadingPlace num den - 17)).isSome = true := by
  obtain ⟨hsmall, hlarge⟩ := log2_sub_bounds_of_word hword hpos hnum hden hvalue
  have hlead := leadingPlace_spec hnum hden hsmall hlarge
  have hunit : (10 : ℚ) ^ (leadingPlace num den - 1) =
      10 ^ 16 * 10 ^ (leadingPlace num den - 17) := by
    rw [← zpow_natCast 10 16, ← zpow_add₀ (by norm_num)]
    congr 1
    push_cast
    omega
  have hreads {s : Scientific}
      (h : |s.value - (num : ℚ) / den| ≤ 10 ^ (leadingPlace num den - 17) / 2) :
      s.readsAs word = true := by
    refine s.readsAs_iff.mpr (nearestWord_of_close hword hpos s.ratio_pos ?_)
    rw [s.ratio_div, ← hvalue]
    rw [hunit] at hlead
    linarith
  refine closest_isSome_of_readsAs ?_
  exact (neighbours_near num hden _).imp hreads hreads

/-- The shortest decimal reads back as its double. -/
theorem shortest_readsAs (hword : word < infinityWord) (hpos : word ≠ 0) (hnum : num ≠ 0)
    (hden : 0 < den)
    (hvalue : (num : ℚ) / den = (mantissaOf word).1 * 2 ^ (mantissaOf word).2) :
    (shortest word num den).readsAs word = true := by
  have hlast := closest_isSome hword hpos hnum hden hvalue
  unfold shortest
  dsimp only
  cases htries : (List.range 17).findSome? fun (n : Nat) =>
      closest word num den (leadingPlace num den - ((n : Int) + 1)) with
  | none =>
    rw [List.findSome?_eq_none_iff] at htries
    have hnone := htries 16 (by decide)
    rw [show leadingPlace num den - ((16 : Nat) + 1 : Int) = leadingPlace num den - 17 from rfl]
      at hnone
    rw [hnone] at hlast
    cases hlast
  | some s =>
    obtain ⟨n, -, hs⟩ := List.exists_of_findSome?_eq_some htries
    rw [Option.getD_some, Scientific.readsAs_congr (Scientific.value_trimmed 17 s)]
    exact readsAs_of_closest hs

end Cartridge.Decimal
