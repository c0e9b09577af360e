import Cartridge.Proofs.Decimal.Nearest
import Cartridge.Quantity

/-!
# Ratios that are too large

A ratio has a finite nearest double exactly if it is below the largest one by half a unit: what lies
half a unit above the largest double, or further, is taken for the infinity.

* `roundDiv_lt_iff`: what is rounded to less than an even number.
* `nearestWord_lt_iff`: what has a finite nearest double.
* `ofRatio?_eq_none_iff`: what is too large for the arithmetic of doubles.
-/

namespace Cartridge.Decimal

/-- A half goes up to an even number. -/
theorem roundDiv_lt_iff {a b n : Nat} (hb : 0 < b) :
    roundDiv a b < 2 * (n + 1) ↔ 2 * a < (4 * n + 3) * b := by
  have hsum : b * (a / b) + a % b = a := Nat.div_add_mod a b
  have hrest : a % b < b := Nat.mod_lt a hb
  have hbound : (4 * n + 3) * b = 2 * (b * (2 * n + 1)) + b := by ring
  rw [hbound]
  unfold roundDiv
  dsimp only
  rcases Nat.lt_trichotomy (a / b) (2 * n + 1) with hless | hsame | hmore
  · have hle : b * (a / b + 1) ≤ b * (2 * n + 1) := Nat.mul_le_mul_left b hless
    rw [Nat.mul_add, Nat.mul_one] at hle
    refine iff_of_true ?_ (by omega)
    split
    · omega
    · split
      · omega
      · split <;> omega
  · rw [hsame] at hsum ⊢
    have hodd : ¬ (2 * n + 1) % 2 = 0 := by omega
    rw [if_neg hodd]
    split
    · exact iff_of_true (by omega) (by omega)
    · split <;> exact iff_of_false (by omega) (by omega)
  · have hle : b * (2 * n + 1 + 1) ≤ b * (a / b) := Nat.mul_le_mul_left b hmore
    rw [Nat.mul_add, Nat.mul_one] at hle
    refine iff_of_false ?_ (by omega)
    split
    · omega
    · split
      · omega
      · split <;> omega

variable {num den : Nat}

theorem roundAt_lt_iff (hden : 0 < den) (e : Int) (n : Nat) :
    roundAt num den e < 2 * (n + 1) ↔ (num : ℚ) / den / 2 ^ e < (4 * n + 3) / 2 := by
  have hpos := ratioAt_pos num Nat.two_pos hden e
  have hratio := ratioAt_div 2 num den e
  rw [Nat.cast_ofNat] at hratio
  rw [roundAt, roundDiv_lt_iff hpos, ← hratio,
    div_lt_div_iff₀ (by exact_mod_cast hpos) (by norm_num), mul_comm]
  exact_mod_cast Iff.rfl

theorem le_roundAt (hden : 0 < den) {e : Int} {n : Nat} (h : (n : ℚ) * 2 ^ e ≤ (num : ℚ) / den) :
    n ≤ roundAt num den e := by
  have hpos := ratioAt_pos num Nat.two_pos hden e
  have hratio := ratioAt_div 2 num den e
  rw [Nat.cast_ofNat] at hratio
  refine le_roundDiv hpos ?_
  have hunit : (0 : ℚ) < 2 ^ e := zpow_pos (by norm_num) e
  rw [← le_div_iff₀ hunit, ← hratio, le_div_iff₀ (by exact_mod_cast hpos)] at h
  exact_mod_cast h

/-- The least ratio whose nearest double is not finite, `2 ^ 1024 - 2 ^ 970`: half a unit above the
largest double. -/
def limit : ℚ := (2 ^ 54 - 1) * 2 ^ (970 : Int)

theorem limit_eq : limit = (4 * (2 ^ 52 - 1 : ℕ) + 3) / 2 * 2 ^ (971 : Int) := by
  have hunit : (2 : ℚ) ^ (971 : Int) = 2 ^ (970 : Int) * 2 := zpow_add_one₀ (by norm_num) 970
  have hcount : (((2 ^ 52 - 1 : ℕ)) : ℚ) = 2 ^ 52 - 1 := by norm_num
  rw [limit, hunit, hcount]
  ring

theorem lt_limit {q : ℚ} {e : Int} (he : e < 971) (h : q < 2 ^ 53 * 2 ^ e) : q < limit := by
  have hunit : (0 : ℚ) < 2 ^ (970 : Int) := zpow_pos (by norm_num) _
  calc q < 2 ^ 53 * 2 ^ e := h
    _ ≤ 2 ^ 53 * 2 ^ (970 : Int) :=
        mul_le_mul_of_nonneg_left (two_zpow_le (by omega)) (by norm_num)
    _ < limit := mul_lt_mul_of_pos_right (by norm_num) hunit

theorem limit_lt {q : ℚ} {e : Int} (he : 971 < e) (h : 2 ^ 52 * 2 ^ e ≤ q) : limit < q := by
  have hunit : (0 : ℚ) < 2 ^ (970 : Int) := zpow_pos (by norm_num) _
  calc limit < 2 ^ 54 * 2 ^ (970 : Int) := mul_lt_mul_of_pos_right (by norm_num) hunit
    _ = 2 ^ 52 * 2 ^ (972 : Int) := by
        rw [two_zpow_mul, two_zpow_mul]
        norm_num
    _ ≤ 2 ^ 52 * 2 ^ e := mul_le_mul_of_nonneg_left (two_zpow_le (by omega)) (by norm_num)
    _ ≤ q := h

/-- The nearest double is finite exactly below the limit. -/
theorem nearestWord_lt_iff (hden : 0 < den) :
    nearestWord num den < infinityWord ↔ (num : ℚ) / den < limit := by
  have hinfinity : infinityWord = 2047 * 2 ^ 52 := rfl
  by_cases hnum : num = 0
  · subst hnum
    rw [nearestWord_zero, Nat.cast_zero, zero_div]
    have hunit : (0 : ℚ) < 2 ^ (970 : Int) := zpow_pos (by norm_num) _
    exact iff_of_true (by omega) (mul_pos (by norm_num) hunit)
  obtain ⟨e, he, hword⟩ := nearestWord_apply hnum hden
  have hleast := he.least
  have hunit : (0 : ℚ) < 2 ^ e := zpow_pos (by norm_num) e
  rw [hword, min_lt_iff, or_iff_right (lt_irrefl _)]
  rcases Int.lt_trichotomy e 971 with hless | rfl | hmore
  · have hround : roundAt num den e < 2 * (2 ^ 52 + 1) := by
      rw [roundAt_lt_iff hden, div_lt_iff₀ hunit]
      refine he.below.trans (mul_lt_mul_of_pos_right ?_ hunit)
      norm_num
    exact iff_of_true (by omega) (lt_limit hless he.below)
  · have hround : roundAt num den 971 < _ ↔ _ := roundAt_lt_iff hden 971 (2 ^ 52 - 1)
    rw [div_lt_iff₀ hunit, ← limit_eq] at hround
    rw [← hround]
    omega
  · have hround : 2 ^ 52 ≤ roundAt num den e :=
      le_roundAt hden (by exact_mod_cast he.atLeast (by omega))
    exact iff_of_false (by omega) (not_lt.mpr (limit_lt hmore (he.atLeast (by omega))).le)

/-! ## Doubles -/

theorem isFinite_nearest (negative : Bool) (num den : Nat) :
    isFinite (nearest negative num den) = decide (nearestWord num den < infinityWord) := by
  have hle := nearestWord_le num den
  have hless : infinityWord < signWord := by decide +kernel
  have hrest (sign : Bool) : (if sign then signWord + nearestWord num den
      else nearestWord num den) % signWord = nearestWord num den := by
    split
    · rw [Nat.add_mod_left, Nat.mod_eq_of_lt (hle.trans_lt hless)]
    · exact Nat.mod_eq_of_lt (hle.trans_lt hless)
  have hbound (sign : Bool) : (if sign then signWord + nearestWord num den
      else nearestWord num den) < 2 ^ 64 := by
    rw [show signWord = 2 ^ 63 from rfl] at hless ⊢
    split <;> omega
  rw [isFinite, nearest, toBits_ofBits (hbound _) ((hrest _).trans_le hle), hrest]

/-- The arithmetic of doubles fails at the limit and above. -/
theorem ofRatio?_eq_none_iff (num : Int) (hden : 0 < den) :
    (Quantity.ofRatio? num den : Option Float) = none ↔ limit ≤ (num.natAbs : ℚ) / den := by
  rw [← not_lt, ← nearestWord_lt_iff hden]
  show (if isFinite _ then some _ else none) = none ↔ _
  rw [isFinite_nearest]
  simp

end Cartridge.Decimal
