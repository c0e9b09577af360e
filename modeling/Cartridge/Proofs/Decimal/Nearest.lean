import Cartridge.Proofs.Decimal.Word

/-!
# The double nearest to a ratio

The word of the nearest double depends on the ratio alone, not on the numbers that it is written
with. A ratio as close to a double as a decimal of seventeen digits can be has that double's word.

* `Binade`: the power of two that a nearest double has.
* `nearestWord_apply`: the word put together of the power of two and the rounded mantissa.
* `nearestWord_congr`: equal ratios have the same word.
* `nearestWord_of_close`: what is close enough to a double reads back as it.
-/

namespace Cartridge.Decimal

/-! ## Rounding -/

theorem roundDiv_mul_right (a b : Nat) {k : Nat} (hk : 0 < k) :
    roundDiv (a * k) (b * k) = roundDiv a b := by
  unfold roundDiv
  dsimp only
  rw [Nat.mul_div_mul_right a b hk, Nat.mul_mod_mul_right, ← Nat.mul_assoc]
  simp only [Nat.mul_lt_mul_right hk]

theorem roundDiv_congr {a b a' b' : Nat} (hb : 0 < b) (hb' : 0 < b') (h : a * b' = a' * b) :
    roundDiv a b = roundDiv a' b' := by
  rw [← roundDiv_mul_right a b hb', h, Nat.mul_comm b b', roundDiv_mul_right a' b' hb]

theorem le_roundDiv {a b n : Nat} (hb : 0 < b) (h : n * b ≤ a) : n ≤ roundDiv a b := by
  have hquotient : n ≤ a / b := (Nat.le_div_iff_mul_le hb).mpr h
  unfold roundDiv
  dsimp only
  split
  · exact hquotient
  · split
    · omega
    · split <;> omega

/-- A quotient less than a half from a number is rounded to it. -/
theorem roundDiv_eq {a b n : Nat} (hlow : 2 * (n * b) < 2 * a + b)
    (hhigh : 2 * a < 2 * (n * b) + b) : roundDiv a b = n := by
  have hsum : b * (a / b) + a % b = a := Nat.div_add_mod a b
  have hrest : a % b < b := Nat.mod_lt a (by omega)
  have hn : n = a / b ∨ n = a / b + 1 := by
    have hle : a / b ≤ n := by
      by_contra hlt
      have := Nat.mul_le_mul_left b (show n + 1 ≤ a / b by omega)
      rw [Nat.mul_add, Nat.mul_comm b n] at this
      omega
    have hge : n ≤ a / b + 1 := by
      by_contra hlt
      have := Nat.mul_le_mul_left b (show a / b + 2 ≤ n by omega)
      rw [Nat.mul_add, Nat.mul_comm b n] at this
      omega
    omega
  unfold roundDiv
  dsimp only
  rcases hn with rfl | rfl
  · rw [Nat.mul_comm b] at hsum
    rw [if_pos (by omega)]
  · rw [Nat.add_mul, Nat.mul_comm _ b] at hlow hhigh
    rw [if_neg (by omega), if_pos (by omega)]

/-! ## Powers -/

/-- The ratio `num / den` in units of `b ^ place`. -/
def ratioAt (b num den : Nat) (place : Int) : Nat × Nat :=
  match place with
  | .ofNat n => (num, den * Nat.pow b n)
  | .negSucc n => (num * Nat.pow b (n + 1), den)

variable {b num den : Nat}

theorem ratioAt_pos (num : Nat) (hb : 0 < b) (hden : 0 < den) (place : Int) :
    0 < (ratioAt b num den place).2 := by
  cases place with
  | ofNat n => exact Nat.mul_pos hden (Nat.pow_pos hb)
  | negSucc n => exact hden

theorem ratioAt_div (b num den : Nat) (place : Int) :
    ((ratioAt b num den place).1 : ℚ) / (ratioAt b num den place).2 =
      (num : ℚ) / den / (b : ℚ) ^ place := by
  cases place with
  | ofNat n =>
    show (num : ℚ) / ((den * b ^ n : Nat) : ℚ) = num / den / (b : ℚ) ^ (n : Int)
    rw [zpow_natCast]
    push_cast
    rw [div_div]
  | negSucc n =>
    show ((num * b ^ (n + 1) : Nat) : ℚ) / den = num / den / (b : ℚ) ^ Int.negSucc n
    rw [zpow_negSucc]
    push_cast
    rw [div_inv_eq_mul, div_mul_eq_mul_div]

theorem scaled_pos (hb : 0 < b) (m : Nat) (e : Int) : 0 < (scaled m b e).2 := by
  cases e with
  | ofNat n => exact Nat.one_pos
  | negSucc n => exact Nat.pow_pos hb

theorem scaled_div (m : Nat) (e : Int) :
    ((scaled m b e).1 : ℚ) / (scaled m b e).2 = m * (b : ℚ) ^ e := by
  cases e with
  | ofNat n =>
    show ((m * b ^ n : Nat) : ℚ) / ((1 : Nat) : ℚ) = m * (b : ℚ) ^ (n : Int)
    rw [zpow_natCast]
    push_cast
    rw [div_one]
  | negSucc n =>
    show (m : ℚ) / ((b ^ (n + 1) : Nat) : ℚ) = m * (b : ℚ) ^ Int.negSucc n
    rw [zpow_negSucc]
    push_cast
    rw [div_eq_mul_inv]

/-! ## The power of two of the nearest double -/

/-- The numbers `m · 2 ^ e` with `m ≤ 2 ^ 53` are the doubles next to a ratio. -/
structure Binade (q : ℚ) (e : Int) : Prop where
  least : -1074 ≤ e
  below : q < 2 ^ 53 * 2 ^ e
  atLeast : -1074 < e → 2 ^ 52 * 2 ^ e ≤ q

theorem two_zpow_mul (n : Nat) (e : Int) : (2 : ℚ) ^ n * 2 ^ e = 2 ^ (n + e) := by
  rw [zpow_add₀ (by norm_num), zpow_natCast]

theorem two_zpow_le {e e' : Int} (h : e ≤ e') : (2 : ℚ) ^ e ≤ 2 ^ e' :=
  zpow_le_zpow_right₀ (by norm_num) h

theorem Binade.le {q : ℚ} {e e' : Int} (h : Binade q e) (h' : Binade q e') : e' ≤ e := by
  by_contra hlt
  have hleast := h.least
  have hpow : (2 : ℚ) ^ 53 * 2 ^ e ≤ 2 ^ 52 * 2 ^ e' := by
    rw [two_zpow_mul, two_zpow_mul]
    exact two_zpow_le (by push_cast; omega)
  have := h.below
  have := h'.atLeast (by omega)
  linarith

theorem Binade.unique {q : ℚ} {e e' : Int} (h : Binade q e) (h' : Binade q e') : e = e' :=
  le_antisymm (h'.le h) (h.le h')

/-- The ratio in units of `2 ^ e`, rounded. -/
def roundAt (num den : Nat) (e : Int) : Nat :=
  roundDiv (ratioAt 2 num den e).1 (ratioAt 2 num den e).2

theorem log2_bounds {n : Nat} (hn : n ≠ 0) :
    (2 : ℚ) ^ (n.log2 : Int) ≤ n ∧ (n : ℚ) < 2 ^ ((n.log2 : Int) + 1) := by
  have hlow : 2 ^ n.log2 ≤ n := Nat.log2_self_le hn
  have hhigh : n < 2 ^ (n.log2 + 1) := Nat.lt_log2_self
  constructor
  · rw [zpow_natCast]
    exact_mod_cast hlow
  · rw [← Nat.cast_succ, zpow_natCast]
    exact_mod_cast hhigh

/-- A ratio lies within a factor of two of the power of two that its parts suggest. -/
theorem log2_sub_bounds (hnum : num ≠ 0) (hden : den ≠ 0) :
    (2 : ℚ) ^ ((num.log2 : Int) - den.log2 - 1) < (num : ℚ) / den ∧
      (num : ℚ) / den < 2 ^ ((num.log2 : Int) - den.log2 + 1) := by
  obtain ⟨hnum₁, hnum₂⟩ := log2_bounds hnum
  obtain ⟨hden₁, hden₂⟩ := log2_bounds hden
  have hpos : (0 : ℚ) < den := by exact_mod_cast Nat.pos_of_ne_zero hden
  have htwo : (0 : ℚ) < 2 := by norm_num
  constructor
  · rw [lt_div_iff₀ hpos]
    calc (2 : ℚ) ^ ((num.log2 : Int) - den.log2 - 1) * den
        < 2 ^ ((num.log2 : Int) - den.log2 - 1) * 2 ^ ((den.log2 : Int) + 1) :=
          mul_lt_mul_of_pos_left hden₂ (zpow_pos htwo _)
      _ = 2 ^ (num.log2 : Int) := by rw [← zpow_add₀ htwo.ne']; congr 1; omega
      _ ≤ num := hnum₁
  · rw [div_lt_iff₀ hpos]
    calc (num : ℚ) < 2 ^ ((num.log2 : Int) + 1) := hnum₂
      _ = 2 ^ ((num.log2 : Int) - den.log2 + 1) * 2 ^ (den.log2 : Int) := by
          rw [← zpow_add₀ htwo.ne']; congr 1; omega
      _ ≤ 2 ^ ((num.log2 : Int) - den.log2 + 1) * den :=
          mul_le_mul_of_nonneg_left hden₁ (zpow_pos htwo _).le

theorem nearestWord_zero (den : Nat) : nearestWord 0 den = 0 := rfl

theorem nearestWord_le (num den : Nat) : nearestWord num den ≤ infinityWord := by
  unfold nearestWord
  split
  · exact Nat.zero_le _
  · exact Nat.min_le_left _ _

/-- The word is put together of the power of two and the rounded ratio. -/
theorem nearestWord_apply (hnum : num ≠ 0) (hden : 0 < den) :
    ∃ e, Binade ((num : ℚ) / den) e ∧
      nearestWord num den = min infinityWord ((e + 1074).toNat * 2 ^ 52 + roundAt num den e) := by
  obtain ⟨hlow, hhigh⟩ := log2_sub_bounds hnum hden.ne'
  let guess : Int := (num.log2 : Int) - den.log2 - 53
  let e₀ := max guess (-1074)
  let first := ratioAt 2 num den e₀
  have hword : nearestWord num den =
      let e := if first.1 / first.2 < Nat.pow 2 53 then e₀ else e₀ + 1
      min infinityWord ((e + 1074).toNat * mantissaSpan + roundAt num den e) := by
    unfold nearestWord
    rw [if_neg hnum]
    rfl
  have hfirst : first.1 / first.2 < Nat.pow 2 53 ↔ (num : ℚ) / den < 2 ^ 53 * 2 ^ e₀ := by
    have hpos : 0 < first.2 := ratioAt_pos num Nat.two_pos hden e₀
    have hcast : first.1 < 2 ^ 53 * first.2 ↔ (first.1 : ℚ) < 2 ^ 53 * first.2 := by
      exact_mod_cast Iff.rfl
    rw [← div_lt_iff₀ (zpow_pos (by norm_num) e₀)]
    show first.1 / first.2 < 2 ^ 53 ↔ _ / ((2 : Nat) : ℚ) ^ e₀ < _
    rw [Nat.div_lt_iff_lt_mul hpos, hcast, ← ratioAt_div 2 num den e₀,
      div_lt_iff₀ (by exact_mod_cast hpos)]
  by_cases hsmall : first.1 / first.2 < Nat.pow 2 53
  · refine ⟨e₀, ⟨by omega, hfirst.mp hsmall, fun he => ?_⟩, ?_⟩
    · have hguess : e₀ = guess := by omega
      rw [two_zpow_mul, hguess]
      exact (two_zpow_le (by push_cast; omega)).trans hlow.le
    · rw [hword, if_pos hsmall]
      rfl
  · have hlarge := not_lt.mp (mt hfirst.mpr hsmall)
    refine ⟨e₀ + 1, ⟨by omega, ?_, fun _ => ?_⟩, ?_⟩
    · rw [two_zpow_mul]
      exact hhigh.trans_le (two_zpow_le (by push_cast; omega))
    · rw [two_zpow_mul] at hlarge ⊢
      exact (two_zpow_le (by push_cast; omega)).trans hlarge
    · rw [hword, if_neg hsmall]
      rfl

theorem roundAt_congr {num' den' : Nat} (hden : 0 < den) (hden' : 0 < den')
    (h : (num : ℚ) / den = num' / den') (e : Int) : roundAt num den e = roundAt num' den' e := by
  have hpos := ratioAt_pos num Nat.two_pos hden e
  have hpos' := ratioAt_pos num' Nat.two_pos hden' e
  refine roundDiv_congr hpos hpos' ?_
  have hratio : ((ratioAt 2 num den e).1 : ℚ) / (ratioAt 2 num den e).2 =
      (ratioAt 2 num' den' e).1 / (ratioAt 2 num' den' e).2 := by
    rw [ratioAt_div, ratioAt_div, h]
  rw [div_eq_div_iff (by exact_mod_cast hpos.ne') (by exact_mod_cast hpos'.ne')] at hratio
  exact_mod_cast hratio

/-- Equal ratios have the same nearest double. -/
theorem nearestWord_congr {num' den' : Nat} (hden : 0 < den) (hden' : 0 < den')
    (h : (num : ℚ) / den = num' / den') : nearestWord num den = nearestWord num' den' := by
  have hzero : num = 0 ↔ num' = 0 := by
    rw [div_eq_div_iff (by exact_mod_cast hden.ne') (by exact_mod_cast hden'.ne')] at h
    have hcross : num * den' = num' * den := by exact_mod_cast h
    constructor
    · rintro rfl
      rw [Nat.zero_mul] at hcross
      exact (Nat.mul_eq_zero.mp hcross.symm).resolve_right hden.ne'
    · rintro rfl
      rw [Nat.zero_mul] at hcross
      exact (Nat.mul_eq_zero.mp hcross).resolve_right hden'.ne'
  by_cases hnum : num = 0
  · rw [hnum, hzero.mp hnum, nearestWord_zero, nearestWord_zero]
  · obtain ⟨e, he, hword⟩ := nearestWord_apply hnum hden
    obtain ⟨e', he', hword'⟩ := nearestWord_apply (mt hzero.mpr hnum) hden'
    rw [← h] at he'
    rw [hword, hword', he.unique he', roundAt_congr hden hden' h]

/-! ## What a double reads back from -/

/-- The mantissa and the power of two of a finite word give the word back. -/
theorem mantissaOf_spec {word : Nat} (hword : word < infinityWord) (hpos : word ≠ 0) :
    0 < (mantissaOf word).1 ∧ (mantissaOf word).1 < 2 ^ 53 ∧ -1074 ≤ (mantissaOf word).2 ∧
      (mantissaOf word).2 ≤ 971 ∧ (-1074 < (mantissaOf word).2 → 2 ^ 52 ≤ (mantissaOf word).1) ∧
      ((mantissaOf word).2 + 1074).toNat * 2 ^ 52 + (mantissaOf word).1 = word := by
  have hspan : mantissaSpan = 2 ^ 52 := rfl
  have hinfinity : infinityWord = 2047 * 2 ^ 52 := rfl
  have hdiv := Nat.div_add_mod word mantissaSpan
  have hmod := Nat.mod_lt word (show 0 < mantissaSpan by decide)
  unfold mantissaOf
  dsimp only
  split
  · rename_i hfield
    rw [hfield] at hdiv
    dsimp only
    omega
  · rename_i hfield
    have hlast : word / mantissaSpan < 2047 := by
      rw [hspan, Nat.div_lt_iff_lt_mul (by decide)]
      omega
    rw [hspan] at *
    dsimp only
    omega

variable {word : Nat}

/-- A ratio near enough to a number of the format is rounded to it. -/
theorem roundAt_eq (hden : 0 < den) {e : Int} {n : Nat}
    (h : |(num : ℚ) / den / 2 ^ e - n| < 1 / 2) : roundAt num den e = n := by
  have hpos : (0 : ℚ) < (ratioAt 2 num den e).2 := by
    exact_mod_cast ratioAt_pos num Nat.two_pos hden e
  obtain ⟨hlow, hhigh⟩ := abs_lt.mp h
  have hratio := ratioAt_div 2 num den e
  rw [show ((2 : Nat) : ℚ) = 2 from rfl] at hratio
  rw [← hratio] at hlow hhigh
  have hlow' : (n - 1 / 2 : ℚ) < (ratioAt 2 num den e).1 / (ratioAt 2 num den e).2 := by linarith
  have hhigh' : ((ratioAt 2 num den e).1 : ℚ) / (ratioAt 2 num den e).2 < n + 1 / 2 := by linarith
  rw [lt_div_iff₀ hpos] at hlow'
  rw [div_lt_iff₀ hpos] at hhigh'
  refine roundDiv_eq ?_ ?_
  · have : (2 * (n * (ratioAt 2 num den e).2) : ℚ) <
        2 * (ratioAt 2 num den e).1 + (ratioAt 2 num den e).2 := by linarith
    exact_mod_cast this
  · have : (2 * (ratioAt 2 num den e).1 : ℚ) <
        2 * (n * (ratioAt 2 num den e).2) + (ratioAt 2 num den e).2 := by linarith
    exact_mod_cast this

/-- What lies closer to a double than half a unit in its seventeenth decimal digit reads back as
the double. -/
theorem nearestWord_of_close (hword : word < infinityWord) (hpos : word ≠ 0) (hden : 0 < den)
    (h : 2 * 10 ^ 16 * |(num : ℚ) / den - (mantissaOf word).1 * 2 ^ (mantissaOf word).2| ≤
      (mantissaOf word).1 * 2 ^ (mantissaOf word).2) : nearestWord num den = word := by
  obtain ⟨hm₀, hm, hleast, -, hnormal, hsum⟩ := mantissaOf_spec hword hpos
  generalize (mantissaOf word).1 = m at *
  generalize (mantissaOf word).2 = e at *
  have hunit : (0 : ℚ) < 2 ^ e := zpow_pos (by norm_num) e
  have hm' : (m : ℚ) ≤ 2 ^ 53 - 1 := by
    have : (m : ℚ) + 1 ≤ 2 ^ 53 := by exact_mod_cast hm
    linarith
  have hm₁ : (1 : ℚ) ≤ m := by exact_mod_cast hm₀
  -- the ratio in units of the double's last bit
  obtain ⟨t, ht⟩ : ∃ t : ℚ, (num : ℚ) / den = t * 2 ^ e := ⟨(num : ℚ) / den / 2 ^ e, by
    rw [div_mul_cancel₀ _ hunit.ne']⟩
  have hclose : 2 * 10 ^ 16 * |t - m| ≤ m := by
    rw [ht, ← sub_mul, abs_mul, abs_of_pos hunit, ← mul_assoc] at h
    exact le_of_mul_le_mul_right h hunit
  have hbound : |t - m| < 1 / 2 := by linarith
  obtain ⟨hlow, hhigh⟩ := abs_lt.mp hbound
  have hnum : num ≠ 0 := by
    rintro rfl
    rw [Nat.cast_zero, zero_div, eq_comm, mul_eq_zero, or_iff_left hunit.ne'] at ht
    linarith
  obtain ⟨e', he', hresult⟩ := nearestWord_apply hnum hden
  have hhere : num / den / 2 ^ e = t := by rw [ht, mul_div_cancel_right₀ _ hunit.ne']
  have hsame (he : Binade ((num : ℚ) / den) e) : nearestWord num den = word := by
    rw [hresult, he'.unique he, roundAt_eq hden (n := m) (by rwa [hhere]), hsum]
    exact min_eq_right hword.le
  have hbelow : (num : ℚ) / den < 2 ^ 53 * 2 ^ e := by
    rw [ht]
    exact mul_lt_mul_of_pos_right (by linarith) hunit
  by_cases hsmall : -1074 < e ∧ t < 2 ^ 52
  · -- below a power of two the doubles lie twice as close
    have hm₂ : m = 2 ^ 52 := by
      have hge := hnormal hsmall.1
      have : (m : ℚ) < 2 ^ 52 + 1 := by linarith
      have : m < 2 ^ 52 + 1 := by exact_mod_cast this
      omega
    have hmq : (m : ℚ) = 2 ^ 52 := by rw [hm₂, Nat.cast_pow, Nat.cast_ofNat]
    rw [hmq] at hclose hlow
    have hhalf : (2 : ℚ) ^ e = 2 * 2 ^ (e - 1) := by
      rw [← zpow_one_add₀ (by norm_num)]
      congr 1
      omega
    have hunit' : (0 : ℚ) < 2 ^ (e - 1) := zpow_pos (by norm_num) _
    have hthere : num / den / 2 ^ (e - 1) = 2 * t := by
      rw [ht, hhalf]
      field_simp
    have he : Binade ((num : ℚ) / den) (e - 1) := by
      refine ⟨by omega, ?_, fun _ => ?_⟩
      · rw [ht, hhalf, ← mul_assoc]
        exact mul_lt_mul_of_pos_right (by linarith) hunit'
      · rw [ht, hhalf, ← mul_assoc]
        exact mul_le_mul_of_nonneg_right (by linarith) hunit'.le
    have hround : roundAt num den (e - 1) = 2 ^ 53 := by
      refine roundAt_eq hden ?_
      rw [hthere, Nat.cast_pow, Nat.cast_ofNat, show 2 * t - 2 ^ 53 = 2 * (t - 2 ^ 52) by ring,
        abs_mul, abs_two]
      generalize |t - 2 ^ 52| = gap at hclose ⊢
      linarith only [hclose]
    rw [hresult, he'.unique he, hround]
    have hword' : (e - 1 + 1074).toNat * 2 ^ 52 + 2 ^ 53 = word := by
      have hnext : (e + 1074).toNat = (e - 1 + 1074).toNat + 1 := by omega
      rw [← hsum, hnext, hm₂]
      ring
    rw [hword']
    exact min_eq_right hword.le
  · refine hsame ⟨hleast, hbelow, fun he => ?_⟩
    have : 2 ^ 52 ≤ t := not_lt.mp fun hlt => hsmall ⟨he, hlt⟩
    rw [ht]
    exact mul_le_mul_of_nonneg_right this hunit.le

end Cartridge.Decimal
