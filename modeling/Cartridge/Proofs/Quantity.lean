import Cartridge.Quantity
import Mathlib.Data.Int.Cast.Lemmas
import Mathlib.Data.Rat.Defs
import Mathlib.Algebra.Order.Field.Rat

/-!
# Exact quantities

What the operations on quantities are over the rational numbers, where none of them rounds.

* `ofRatio_eq`: a quotient is that quotient.
* `Number.isBelow_iff`, `Number.isZero_iff`: a number compares by its value.
-/

namespace Cartridge

theorem Quantity.ofRatio_eq (num : Int) (den : Nat) : (ofRatio num den : ℚ) = num / den := by
  show mkRat num den = num / den
  rw [Rat.mkRat_eq_div]

namespace Number

/-- The value of a number. -/
def value : Number ℚ → ℚ
  | .whole n => n
  | .real x => x

theorem isBelow_iff (limit : Number ℚ) (x : ℚ) : limit.isBelow x = true ↔ limit.value < x := by
  cases limit with
  | real y => exact decide_eq_true_iff
  | whole n =>
    have hnum : (if decide (x < 0) = true then -(x.num.natAbs : Int) else x.num.natAbs) =
        x.num := by
      have hsign : x < 0 ↔ x.num < 0 := Rat.num_neg.symm
      simp only [decide_eq_true_eq, hsign]
      split <;> omega
    show decide (n * x.den <
      if decide (x < 0) = true then -(x.num.natAbs : Int) else x.num.natAbs) = true ↔ (n : ℚ) < x
    rw [hnum, decide_eq_true_iff]
    have hden : (0 : ℚ) < x.den := Nat.cast_pos.mpr x.den_pos
    rw [← Rat.num_div_den x, lt_div_iff₀ hden, Rat.num_div_den]
    exact_mod_cast Iff.rfl

theorem isZero_iff (n : Number ℚ) : n.isZero = true ↔ n.value = 0 := by
  cases n with
  | whole n =>
    show decide (n = 0) = true ↔ (n : ℚ) = 0
    rw [decide_eq_true_iff, Int.cast_eq_zero]
  | real x =>
    show decide (x.num.natAbs = 0) = true ↔ x = 0
    rw [decide_eq_true_iff, Int.natAbs_eq_zero, Rat.num_eq_zero]

end Number

end Cartridge
