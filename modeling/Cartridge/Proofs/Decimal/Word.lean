import Cartridge.Decimal.Binary
import Mathlib

/-!
# Words of doubles

A double is its word of 64 bits, and the words that are not numbers stand for one double only. So a
double is known from its word, and from what it says if that is no ratio.

* `toBits_ofBits`: the words that doubles have.
* `nearest_eq`: a double is the nearest one of a ratio with its word.
* `eq_infinity`, `eq_notANumber`: the doubles that are not finite.
-/

namespace Cartridge.Decimal

open Float.Model Float.Model.UnpackedFloat

/-- A double is known from its word. -/
theorem ofBits_of_word {x : Float} {word : Nat} (h : x.toBits.toNat = word) :
    Float.ofBits (UInt64.ofNat word) = x := by
  rw [← h, UInt64.ofNat_toNat, Float.ofBits_toBits]

/-- A double has the word that it is made of, unless that is a word of what is not a number. -/
theorem toBits_ofBits {word : Nat} (hword : word < 2 ^ 64)
    (hsize : word % signWord ≤ infinityWord) :
    (Float.ofBits (UInt64.ofNat word)).toBits.toNat = word := by
  have hnat : (UInt64.ofNat word).toNat = word := UInt64.toNat_ofNat_of_lt' hword
  have hvalid : Format.binary64.Valid (UInt64.ofNat word).toBitVec := by
    refine ⟨fun hexponent hmantissa => absurd (BitVec.toNat_inj.mp ?_) hmantissa⟩
    rw [show infinityWord = 2047 * 2 ^ 52 from rfl, show signWord = 2 ^ 63 from rfl] at hsize
    have hexponent := congrArg BitVec.toNat hexponent
    simp [unpackExponent, Nat.shiftRight_eq_div_pow] at hexponent
    simp [unpackMantissa]
    omega
  have hbits := Float.ofBits_toBits ⟨⟨UInt64.ofNat word, hvalid⟩⟩
  exact (congrArg (fun x => x.toBits.toNat) hbits).trans hnat

theorem word_eq (x : Float) :
    x.toBits.toNat = if signWord ≤ x.toBits.toNat then signWord + x.toBits.toNat % signWord
      else x.toBits.toNat % signWord := by
  have hword : x.toBits.toNat < 2 ^ 64 := x.toBits.toNat_lt
  rw [show signWord = 2 ^ 63 from rfl]
  split <;> omega

/-- The nearest double of a ratio is a double if the ratio has the double's word and sign. -/
theorem nearest_eq {x : Float} {num den : Nat}
    (h : nearestWord num den = x.toBits.toNat % signWord) :
    nearest (decide (signWord ≤ x.toBits.toNat)) num den = x := by
  rw [nearest, h]
  refine ofBits_of_word ((word_eq x).trans ?_)
  simp only [decide_eq_true_eq]

/-! ## Doubles that are not finite -/

theorem eq_infinity {x : Float} {negative : Bool} (h : reading x = .infinite negative) :
    infinity negative = x := by
  have hword := word_eq x
  unfold reading at h
  dsimp only at h
  split at h
  · cases h
  split at h
  · rename_i hsize
    have hsign := (Reading.infinite.inj h).symm
    rw [hsize] at hword
    refine ofBits_of_word (hword.trans ?_)
    rw [hsign]
    simp only [decide_eq_true_eq]
  · cases h

/-- Only one word stands for the value that is not a number. -/
theorem eq_notANumber {x : Float} (h : reading x = .undefined) : notANumber = x := by
  have hsize : infinityWord < x.toBits.toNat % signWord := by
    unfold reading at h
    dsimp only at h
    split at h
    · cases h
    split at h
    · cases h
    · omega
  rw [show infinityWord = 2047 * 2 ^ 52 from rfl, show signWord = 2 ^ 63 from rfl] at hsize
  obtain ⟨⟨bits, hvalid⟩⟩ := x
  have hword : 2047 * 2 ^ 52 < bits.toNat % 2 ^ 63 := hsize
  have hexponent : @unpackExponent .binary64 bits.toBitVec = -1#_ := by
    refine BitVec.toNat_inj.mp ?_
    simp [unpackExponent, Nat.shiftRight_eq_div_pow]
    omega
  have hmantissa : @unpackMantissa .binary64 bits.toBitVec ≠ 0#_ := by
    intro hzero
    have := congrArg BitVec.toNat hzero
    simp [unpackMantissa] at this
    omega
  have hbits := hvalid.eq_packedNaN hexponent hmantissa
  refine ofBits_of_word ?_
  show bits.toBitVec.toNat = infinityWord + Nat.pow 2 51
  rw [hbits]
  rfl

end Cartridge.Decimal
