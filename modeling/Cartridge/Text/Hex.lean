/-!
# Hexadecimal digits

* `hexDigits_four`: four digits are enough below 65536.
* `digitChar_inj`: different digits are written differently.
-/

namespace Cartridge.Text

/-- The hexadecimal digits of `n`, in lower case, with zeros in front up to a width. -/
def hexDigits (width n : Nat) : List Char :=
  let digits := Nat.toDigits 16 n
  List.replicate (width - digits.length) '0' ++ digits

theorem hexDigits_one {n : Nat} (hn : n < 16) : hexDigits 1 n = [n.digitChar] := by
  rw [hexDigits, Nat.toDigits_of_lt_base hn]
  rfl

theorem hexDigits_succ {width : Nat} (hwidth : 0 < width) (n : Nat) :
    hexDigits (width + 1) n = hexDigits width (n / 16) ++ [(n % 16).digitChar] := by
  unfold hexDigits
  dsimp only
  rw [Nat.toDigits_eq_if (by decide)]
  split
  · rename_i hn
    obtain ⟨k, rfl⟩ : ∃ k, width = k + 1 := ⟨width - 1, by omega⟩
    rw [Nat.div_eq_of_lt hn, Nat.mod_eq_of_lt hn, Nat.toDigits_zero]
    simp [List.replicate_succ']
  · simp

theorem hexDigits_four {n : Nat} (hn : n < 0x10000) :
    hexDigits 4 n = [(n / 16 / 16 / 16).digitChar, (n / 16 / 16 % 16).digitChar,
      (n / 16 % 16).digitChar, (n % 16).digitChar] := by
  rw [hexDigits_succ (by decide), hexDigits_succ (by decide), hexDigits_succ (by decide),
    hexDigits_one (by omega)]
  rfl

theorem digitChar_inj {n m : Nat} (hn : n < 16) (hm : m < 16) (h : n.digitChar = m.digitChar) :
    n = m := by
  have hall : ∀ n < 16, ∀ m < 16, n.digitChar = m.digitChar → n = m := by decide
  exact hall n hn m hm h

end Cartridge.Text
