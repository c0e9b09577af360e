import Cartridge.Proofs.Decimal.Word
import Mathlib.Data.Prod.Lex

/-!
# Comparing doubles

Two doubles compare unless one of them is the value that is not a number. That value is neither
below nor above anything, so whatever is refused for being too large or too small lets it pass.

* `compare_swap`, `compare_isSome`: comparing the other way round, and what compares.
* `place`, `isLE_compare_iff`: where a number lies among the others.
* `lt_or_le`, `le_of_le_of_le`: two doubles that are numbers compare, and the order is transitive.
* `not_lt_notANumber` and its companions: nothing compares with the value that is not a number.
* `lt_infinity`, `not_infinity_lt`: the infinity is above every other number.
-/

namespace Cartridge.Decimal

open Float.Model Float.Model.UnpackedFloat

/-! ## Unpacked numbers -/

theorem compare_swap (a b : UnpackedFloat) :
    UnpackedFloat.compare b a = (UnpackedFloat.compare a b).map Ordering.swap := by
  have hexponent (e₁ e₂ : Int) : compare e₂ e₁ = (compare e₁ e₂).swap :=
    Std.OrientedCmp.eq_swap
  have hmantissa (m₁ m₂ : Nat) : compare m₂ m₁ = (compare m₁ m₂).swap :=
    Std.OrientedCmp.eq_swap
  cases a with
  | notANumber => cases b <;> simp [UnpackedFloat.compare]
  | infinity s => cases s <;> cases b with
    | infinity s' => cases s' <;> rfl
    | _ => rfl
  | zero s => cases b with
    | infinity s' => cases s' <;> rfl
    | finite s' m e hm => cases s' <;> rfl
    | _ => rfl
  | finite s m e hm => cases s <;> cases b with
    | infinity s' => cases s' <;> rfl
    | finite s' m' e' hm' =>
      cases s' <;>
        simp [UnpackedFloat.compare, hexponent e e', hmantissa m m', Ordering.swap_then]
    | _ => rfl

theorem compare_isSome {a b : UnpackedFloat} (ha : a ≠ .notANumber) (hb : b ≠ .notANumber) :
    (UnpackedFloat.compare a b).isSome := by
  cases a with
  | notANumber => exact absurd rfl ha
  | infinity s => cases s <;> cases b with
    | notANumber => exact absurd rfl hb
    | _ => rfl
  | zero s => cases b with
    | notANumber => exact absurd rfl hb
    | infinity s' => cases s' <;> rfl
    | finite s' m e hm => cases s' <;> rfl
    | zero s' => rfl
  | finite s m e hm => cases s <;> cases b with
    | notANumber => exact absurd rfl hb
    | infinity s' => cases s' <;> rfl
    | finite s' m' e' hm' => cases s' <;> rfl
    | zero s' => rfl

theorem compare_notANumber (a : UnpackedFloat) : UnpackedFloat.compare a .notANumber = none := by
  cases a <;> simp [UnpackedFloat.compare]

/-- Where a number lies: by its sign, then by its exponent, then by its mantissa. -/
def place : UnpackedFloat → Int ×ₗ Int ×ₗ Int
  | .infinity .positive => toLex (2, toLex (0, 0))
  | .finite .positive m e _ => toLex (1, toLex (e, m))
  | .zero _ | .notANumber => toLex (0, toLex (0, 0))
  | .finite .negative m e _ => toLex (-1, toLex (-e, -m))
  | .infinity .negative => toLex (-2, toLex (0, 0))

theorem isLE_compare_then (e e' : Int) (m m' : Nat) :
    ((compare e e').then (compare m m')).isLE = true ↔ e < e' ∨ e = e' ∧ m ≤ m' := by
  rw [Ordering.isLE_then_iff_or, compare_lt_iff_lt, compare_eq_iff_eq, Std.isLE_compare]

theorem isGE_compare_then (e e' : Int) (m m' : Nat) :
    ((compare e e').then (compare m m')).isGE = true ↔ e' < e ∨ e = e' ∧ m' ≤ m := by
  have hswap : (compare e e').then (compare m m') = ((compare e' e).then (compare m' m)).swap := by
    rw [Ordering.swap_then, ← Std.OrientedCmp.eq_swap, ← Std.OrientedCmp.eq_swap]
  rw [hswap, Ordering.isGE_swap, isLE_compare_then, eq_comm]

theorem isLE_compare_iff {a b : UnpackedFloat} (ha : a ≠ .notANumber) (hb : b ≠ .notANumber) :
    (UnpackedFloat.compare a b).any (·.isLE) = true ↔ place a ≤ place b := by
  cases a with
  | notANumber => exact absurd rfl ha
  | infinity s => cases s <;> cases b with
    | notANumber => exact absurd rfl hb
    | infinity s' => cases s' <;> decide
    | zero s' => simp [UnpackedFloat.compare, place, Prod.Lex.toLex_le_toLex]
    | finite s' m' e' hm' =>
      cases s' <;> simp [UnpackedFloat.compare, place, Prod.Lex.toLex_le_toLex]
  | zero s => cases b with
    | notANumber => exact absurd rfl hb
    | infinity s' => cases s' <;> simp [UnpackedFloat.compare, place, Prod.Lex.toLex_le_toLex]
    | zero s' => simp [UnpackedFloat.compare, place]
    | finite s' m' e' hm' =>
      cases s' <;> simp [UnpackedFloat.compare, place, Prod.Lex.toLex_le_toLex]
  | finite s m e hm => cases s <;> cases b with
    | notANumber => exact absurd rfl hb
    | infinity s' => cases s' <;> simp [UnpackedFloat.compare, place, Prod.Lex.toLex_le_toLex]
    | zero s' => simp [UnpackedFloat.compare, place, Prod.Lex.toLex_le_toLex]
    | finite s' m' e' hm' =>
      cases s' <;>
        simp [UnpackedFloat.compare, place, Prod.Lex.toLex_le_toLex, isLE_compare_then,
          isGE_compare_then]

/-! ## Doubles -/

variable {x y : Float}

/-- Only one double unpacks to what is not a number. -/
theorem unpack_ne_notANumber (h : x ≠ notANumber) : x.toModel.unpack ≠ .notANumber := by
  intro hunpack
  apply h
  obtain ⟨⟨bits, hvalid⟩⟩ := x
  replace hunpack : UnpackedFloat.unpack Format.binary64 bits.toBitVec = .notANumber := hunpack
  unfold UnpackedFloat.unpack at hunpack
  dsimp only at hunpack
  split at hunpack
  · rename_i hexponent
    split at hunpack
    · cases hunpack
    · rename_i hmantissa
      have hbits := hvalid.eq_packedNaN hexponent hmantissa
      refine (ofBits_of_word ?_).symm
      show bits.toBitVec.toNat = infinityWord + Nat.pow 2 51
      rw [hbits]
      rfl
  · split at hunpack
    · split at hunpack <;> cases hunpack
    · cases hunpack

theorem unpack_notANumber : notANumber.toModel.unpack = .notANumber := rfl

/-- Only one double unpacks to the infinity above every number. -/
theorem unpack_ne_infinity (h : x ≠ infinity false) : x.toModel.unpack ≠ .infinity .positive := by
  intro hunpack
  apply h
  obtain ⟨⟨bits, hvalid⟩⟩ := x
  replace hunpack : UnpackedFloat.unpack Format.binary64 bits.toBitVec = .infinity .positive :=
    hunpack
  unfold UnpackedFloat.unpack at hunpack
  dsimp only at hunpack
  split at hunpack
  · rename_i hexponent
    split at hunpack
    · rename_i hmantissa
      have hsign := UnpackedFloat.infinity.inj hunpack
      have hword : bits.toNat < 2 ^ 64 := bits.toNat_lt
      have hexponent := congrArg BitVec.toNat hexponent
      have hmantissa := congrArg BitVec.toNat hmantissa
      simp [unpackExponent, Nat.shiftRight_eq_div_pow] at hexponent
      simp [unpackMantissa] at hmantissa
      have hsign : (@unpackSign .binary64 bits.toBitVec).toNat ≠ 1 := by
        intro hone
        rw [BitVec.eq_of_toNat_eq (y := 1#1) hone] at hsign
        cases hsign
      simp [unpackSign, Nat.shiftRight_eq_div_pow] at hsign
      refine (ofBits_of_word ?_).symm
      show bits.toNat = infinityWord
      rw [show infinityWord = 2047 * 2 ^ 52 from rfl]
      omega
    · cases hunpack
  · split at hunpack
    · split at hunpack <;> cases hunpack
    · cases hunpack

theorem unpack_infinity : (infinity false).toModel.unpack = .infinity .positive := rfl

theorem lt_iff (x y : Float) :
    x < y ↔ UnpackedFloat.compare x.toModel.unpack y.toModel.unpack = some .lt := by
  show decide (x.toModel < y.toModel) = true ↔ _
  rw [decide_eq_true_iff]
  exact beq_iff_eq

theorem le_iff (x y : Float) :
    x ≤ y ↔ (UnpackedFloat.compare x.toModel.unpack y.toModel.unpack).any (·.isLE) = true := by
  show decide (x.toModel ≤ y.toModel) = true ↔ _
  rw [decide_eq_true_iff]
  rfl

/-- Two doubles that are numbers compare. -/
theorem lt_or_le (hx : x ≠ notANumber) (hy : y ≠ notANumber) : x < y ∨ y ≤ x := by
  have hsome := compare_isSome (unpack_ne_notANumber hx) (unpack_ne_notANumber hy)
  obtain ⟨order, horder⟩ := Option.isSome_iff_exists.mp hsome
  rw [lt_iff, le_iff, compare_swap x.toModel.unpack, horder]
  cases order <;> simp

theorem le_iff_place (hx : x ≠ notANumber) (hy : y ≠ notANumber) :
    x ≤ y ↔ place x.toModel.unpack ≤ place y.toModel.unpack := by
  rw [le_iff, isLE_compare_iff (unpack_ne_notANumber hx) (unpack_ne_notANumber hy)]

theorem not_lt_notANumber (x : Float) : ¬ x < notANumber := by
  rw [lt_iff, unpack_notANumber, compare_notANumber]
  simp

theorem not_le_notANumber (x : Float) : ¬ x ≤ notANumber := by
  rw [le_iff, unpack_notANumber, compare_notANumber]
  simp

theorem not_notANumber_lt (x : Float) : ¬ notANumber < x := by
  rw [lt_iff, unpack_notANumber, compare_swap, compare_notANumber]
  simp

theorem not_notANumber_le (x : Float) : ¬ notANumber ≤ x := by
  rw [le_iff, unpack_notANumber, compare_swap, compare_notANumber]
  simp

theorem le_of_lt (h : x < y) : x ≤ y := by
  rw [lt_iff] at h
  rw [le_iff, h]
  rfl

theorem le_self (h : x ≠ notANumber) : x ≤ x := by
  rcases lt_or_le h h with hlt | hle
  · exact le_of_lt hlt
  · exact hle

theorem le_of_le_of_le {z : Float} (hxy : x ≤ y) (hyz : y ≤ z) : x ≤ z := by
  have hx : x ≠ notANumber := by
    rintro rfl
    exact not_notANumber_le y hxy
  have hy : y ≠ notANumber := by
    rintro rfl
    exact not_le_notANumber x hxy
  have hz : z ≠ notANumber := by
    rintro rfl
    exact not_le_notANumber y hyz
  rw [le_iff_place hx hy] at hxy
  rw [le_iff_place hy hz] at hyz
  rw [le_iff_place hx hz]
  exact hxy.trans hyz

/-- Every number but the infinity is below it. -/
theorem lt_infinity (hnumber : x ≠ notANumber) (h : x ≠ infinity false) : x < infinity false := by
  have hn := unpack_ne_notANumber hnumber
  have hi := unpack_ne_infinity h
  rw [lt_iff, unpack_infinity]
  generalize x.toModel.unpack = u at hn hi
  cases u with
  | notANumber => exact absurd rfl hn
  | infinity s =>
    cases s with
    | positive => exact absurd rfl hi
    | negative => rfl
  | _ => rfl

/-- Nothing is above the infinity. -/
theorem not_infinity_lt (x : Float) : ¬ infinity false < x := by
  rw [lt_iff, unpack_infinity]
  generalize x.toModel.unpack = u
  cases u with
  | infinity s => cases s <;> simp [UnpackedFloat.compare]
  | _ => simp [UnpackedFloat.compare]

theorem le_infinity (h : x ≠ notANumber) : x ≤ infinity false :=
  (lt_or_le (by decide) h).resolve_left (not_infinity_lt x)

end Cartridge.Decimal
