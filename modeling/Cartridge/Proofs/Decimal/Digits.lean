import Cartridge.Decimal.Reader
import Cartridge.Proofs.Decimal.Overflow

/-!
# The double of some digits

A power of ten beyond all doubles is cut off before the nearest double is looked for. The cut
changes nothing.

* `ofDigits_eq_nearest`: digits and a power of ten stand for the double nearest to their value.
-/

namespace Cartridge.Decimal

variable {num den : Nat}

/-! ## Values beyond the format -/

theorem nearestWord_of_large (hden : 0 < den) (h : 2 ^ 1024 ≤ (num : ℚ) / den) :
    nearestWord num den = infinityWord := by
  refine (nearestWord_le num den).antisymm (not_lt.mp ?_)
  rw [nearestWord_lt_iff hden, not_lt]
  have hpow : (2 : ℚ) ^ 52 * 2 ^ (972 : Int) = 2 ^ 1024 := by
    rw [two_zpow_mul, ← zpow_natCast 2 1024]
    rfl
  exact (limit_lt (by norm_num) (hpow.trans_le h)).le

theorem nearestWord_of_small (hden : 0 < den) (h : (num : ℚ) / den < 2 ^ (-1075 : Int)) :
    nearestWord num den = 0 := by
  by_cases hnum : num = 0
  · rw [hnum, nearestWord_zero]
  obtain ⟨e, he, hword⟩ := nearestWord_apply hnum hden
  have hleast : e = -1074 := by
    by_contra hne
    have hlow := he.atLeast (by have := he.least; omega)
    rw [two_zpow_mul] at hlow
    have := hlow.trans_lt h
    rw [zpow_lt_zpow_iff_right₀ (by norm_num)] at this
    have := he.least
    omega
  have hround : roundAt num den e = 0 := by
    refine roundAt_eq hden ?_
    have hpos : (0 : ℚ) < 2 ^ e := zpow_pos (by norm_num) e
    have hnonneg : (0 : ℚ) ≤ num / den / 2 ^ e :=
      div_nonneg (div_nonneg (Nat.cast_nonneg num) (Nat.cast_nonneg den)) hpos.le
    rw [Nat.cast_zero, sub_zero, abs_of_nonneg hnonneg, div_lt_iff₀ hpos, hleast]
    refine h.trans_eq ?_
    rw [show (-1074 : Int) = -1075 + 1 by norm_num, zpow_add_one₀ (by norm_num)]
    ring
  rw [hword, hround, hleast]
  rfl

/-! ## Digits and a power of ten -/

theorem nearest_congr {num' den' : Nat} (negative : Bool)
    (h : nearestWord num den = nearestWord num' den') :
    nearest negative num den = nearest negative num' den' := by
  rw [nearest, nearest, h]

theorem two_pow_le_ten_pow {n m : Nat} (h : m ≤ 3 * n) : (2 : ℚ) ^ m ≤ 10 ^ n :=
  calc (2 : ℚ) ^ m ≤ 2 ^ (3 * n) := pow_le_pow_right₀ (by norm_num) h
    _ = (2 ^ 3) ^ n := pow_mul 2 3 n
    _ ≤ 10 ^ n := pow_le_pow_left₀ (by norm_num) (by norm_num) n

theorem scaled_ten_of_large {digits : Nat} {power : Int} (hdigits : digits ≠ 0)
    (hpower : 400 ≤ power) : (2 : ℚ) ^ 1024 ≤ digits * 10 ^ power := by
  have hone : (1 : ℚ) ≤ digits := by exact_mod_cast Nat.pos_of_ne_zero hdigits
  have hten : (10 : ℚ) ^ (400 : Int) ≤ 10 ^ power := zpow_le_zpow_right₀ (by norm_num) hpower
  calc (2 : ℚ) ^ 1024 ≤ 10 ^ 400 := two_pow_le_ten_pow (by norm_num)
    _ = 10 ^ (400 : Int) := (zpow_natCast 10 400).symm
    _ ≤ 10 ^ power := hten
    _ ≤ digits * 10 ^ power := le_mul_of_one_le_left (zpow_pos (by norm_num) _).le hone

theorem ten_pow_of_large (n : Nat) (hn : 400 ≤ n) :
    (2 : ℚ) ^ 1024 ≤ ((Nat.pow 10 n : Nat) : ℚ) / ((1 : Nat) : ℚ) := by
  rw [Nat.pow_eq, Nat.cast_pow, Nat.cast_one, div_one]
  exact two_pow_le_ten_pow (by omega)

theorem scaled_ten_of_small {digits : Nat} {power : Int} (hdigits : digits ≠ 0)
    (hpower : power < -(400 + (digits.log2 : Int))) :
    (digits : ℚ) * 10 ^ power < 2 ^ (-1075 : Int) := by
  obtain ⟨-, hlog⟩ := log2_bounds hdigits
  have hten : (10 : ℚ) ^ power ≤ 10 ^ (-(401 + digits.log2 : Int)) :=
    zpow_le_zpow_right₀ (by norm_num) (by omega)
  have hpow :
      (2 : ℚ) ^ ((1076 + digits.log2 : Nat) : Int) ≤ 10 ^ ((401 + digits.log2 : Nat) : Int) := by
    rw [zpow_natCast, zpow_natCast]
    exact two_pow_le_ten_pow (by omega)
  calc (digits : ℚ) * 10 ^ power ≤ digits * 10 ^ (-(401 + digits.log2 : Int)) :=
        mul_le_mul_of_nonneg_left hten (Nat.cast_nonneg digits)
    _ < 2 ^ ((digits.log2 : Int) + 1) * 10 ^ (-(401 + digits.log2 : Int)) :=
        mul_lt_mul_of_pos_right hlog (zpow_pos (by norm_num) _)
    _ ≤ 2 ^ ((digits.log2 : Int) + 1) * 2 ^ (-(1076 + digits.log2 : Int)) := by
        refine mul_le_mul_of_nonneg_left ?_ (zpow_pos (by norm_num) _).le
        rw [zpow_neg, zpow_neg]
        exact inv_anti₀ (zpow_pos (by norm_num) _) hpow
    _ = 2 ^ (-1075 : Int) := by
        rw [← zpow_add₀ (by norm_num)]
        congr 1
        omega

/-- Digits and a power of ten stand for the double nearest to their value. -/
theorem ofDigits_eq_nearest (negative : Bool) (digits : Nat) (power : Int) :
    ofDigits negative digits power =
      nearest negative (scaled digits 10 power).1 (scaled digits 10 power).2 := by
  have hpos := scaled_pos (show 0 < 10 by decide) digits power
  have hvalue : ((scaled digits 10 power).1 : ℚ) / (scaled digits 10 power).2 =
      digits * 10 ^ power := scaled_div digits power
  unfold ofDigits
  dsimp only
  split
  · rename_i hzero
    refine nearest_congr negative (nearestWord_congr Nat.one_pos hpos ?_)
    rw [hvalue, hzero, Nat.cast_zero, zero_div, zero_mul]
  rename_i hdigits
  split
  · rename_i hlarge
    refine nearest_congr negative (Eq.trans ?_ (nearestWord_of_large hpos ?_).symm)
    · generalize hcut : 400 = n
      exact nearestWord_of_large Nat.one_pos (ten_pow_of_large n hcut.le)
    · rw [hvalue]
      exact scaled_ten_of_large hdigits (by omega)
  split
  · rename_i hsmall
    refine nearest_congr negative ?_
    rw [nearestWord_of_small hpos (by rw [hvalue]; exact scaled_ten_of_small hdigits hsmall),
      nearestWord_zero]
  · rfl

end Cartridge.Decimal
