import Cartridge.Json.Reader
import Cartridge.Proofs.Json.Escape

/-!
# Reading strings back

A written string is read again, whatever its characters are and whatever follows: each escape gives
its character back, and the next quote without a backslash ends the string.

* `stringBody_escaped`: one character is read from its escape.
* `stringBody_quoted`: a written string is read whole.
-/

namespace Cartridge.Json

open Text

/-! ## Units -/

theorem hexValue?_digitChar {n : Nat} (hn : n < 16) : hexValue? n.digitChar = some n := by
  have hall : ∀ n < 16, hexValue? n.digitChar = some n := by decide
  exact hall n hn

theorem unit?_digits {n : Nat} (hn : n < 0x10000) :
    unit? (n / 16 / 16 / 16).digitChar (n / 16 / 16 % 16).digitChar (n / 16 % 16).digitChar
      (n % 16).digitChar = some n := by
  have hsum : (n / 16 / 16 / 16 * 16 + n / 16 / 16 % 16) * 256 + n / 16 % 16 * 16 + n % 16 = n := by
    omega
  unfold unit?
  rw [hexValue?_digitChar (by omega), hexValue?_digitChar (by omega),
    hexValue?_digitChar (by omega), hexValue?_digitChar (by omega)]
  exact congrArg some hsum

theorem unitEscape_eq {n : Nat} (hn : n < 0x10000) : unitEscape n = ['\\', 'u',
    (n / 16 / 16 / 16).digitChar, (n / 16 / 16 % 16).digitChar, (n / 16 % 16).digitChar,
    (n % 16).digitChar] := by
  rw [unitEscape, Text.hexDigits_four hn]

theorem unitAhead?_unitEscape {n : Nat} (hn : n < 0x10000) (rest : List Char) :
    unitAhead? (unitEscape n ++ rest) = some n := by
  rw [unitEscape_eq hn]
  exact unit?_digits hn

/-! ## Escapes -/

theorem stringBody_skip (passed rest done : List Char) :
    stringBody (passed ++ rest) passed.length done = stringBody rest 0 done := by
  induction passed with
  | nil => rfl
  | cons c passed ih => exact ih

/-- An escape whose characters are known to the reader is read as its character. -/
theorem stringBody_escape {e : Char} (passed : List Char) {rest : List Char} (done : List Char)
    (h : escape? (passed ++ rest) = some (e, passed.length)) :
    stringBody ('\\' :: (passed ++ rest)) 0 done = stringBody rest 0 (e :: done) := by
  rw [stringBody, if_neg (by decide), if_pos rfl, h]
  exact stringBody_skip passed rest (e :: done)

theorem escape?_short {c l : Char} (h : (c, l) ∈ shortEscapes) (rest : List Char) :
    escape? (l :: rest) = some (c, 1) := by
  have hall : ∀ p ∈ shortEscapes, ofEscape? p.2 = some p.1 := by decide
  unfold escape?
  split
  · rename_i heq
    exact absurd (List.cons.inj heq).1 (ne_of_mem_shortEscapes h)
  · rename_i heq
    rw [← (List.cons.inj heq).1, hall _ h]
    rfl
  · rename_i heq
    cases heq

theorem escape?_unit (c : Char) (hc : c.toNat < 0x10000) (rest : List Char) :
    escape? ((unitEscape c.toNat).tail ++ rest) = some (c, 5) := by
  have hchar : ofUnit c.toNat = c := by
    have hsurrogate := (toNat_lt c).2
    rw [ofUnit, if_neg (by simp; omega), Char.ofNat_toNat]
  rw [unitEscape_eq hc]
  show escape? ('u' :: _ :: _ :: _ :: _ :: rest) = _
  rw [escape?, unit?_digits hc]
  cases unitAhead? rest with
  | none => exact congrArg (fun d => some (d, 5)) hchar
  | some low =>
    have hsurrogate := (toNat_lt c).2
    dsimp only
    rw [if_neg (by simp; omega), hchar]

theorem escape?_units (c : Char) (hc : 0x10000 ≤ c.toNat) (rest : List Char) :
    escape? ((unitEscape (highUnit c.toNat)).tail ++ (unitEscape (lowUnit c.toNat) ++ rest)) =
      some (c, 11) := by
  have hlimit := (toNat_lt c).1
  have hlow := lowUnit_lt c.toNat
  have hahead := unitAhead?_unitEscape hlow rest
  rw [unitEscape_eq (show highUnit c.toNat < 0x10000 by unfold highUnit; omega)]
  show escape? ('u' :: _ :: _ :: _ :: _ :: (unitEscape (lowUnit c.toNat) ++ rest)) = _
  rw [escape?, unit?_digits (by unfold highUnit; omega), hahead]
  dsimp only
  have hsum : 0x10000 + (highUnit c.toNat - 0xd800) * 0x400 + (lowUnit c.toNat - 0xdc00) =
      c.toNat := by
    unfold highUnit lowUnit
    omega
  rw [if_pos (by unfold highUnit lowUnit; simp; omega), hsum, Char.ofNat_toNat]

theorem stringBody_escaped (c : Char) (rest done : List Char) :
    stringBody (escaped c ++ rest) 0 done = stringBody rest 0 (c :: done) := by
  obtain ⟨P, hP, hc⟩ : ∃ P, escaped c = P ∧ Escape c P := ⟨_, rfl, escape_escaped c⟩
  rw [hP]
  cases hc with
  | plain hrange hbackslash hquote =>
    show stringBody (c :: rest) 0 done = _
    rw [stringBody, if_neg hquote, if_neg hbackslash, if_neg (by omega)]
  | short hmem => exact stringBody_escape [_] done (escape?_short hmem rest)
  | unit hlow =>
    have hread := escape?_unit c hlow rest
    rw [unitEscape_eq hlow] at hread ⊢
    exact stringBody_escape ['u', _, _, _, _] done hread
  | units hhigh hfirst hsecond =>
    subst hfirst hsecond
    have hread := escape?_units c hhigh rest
    have hlimit := (toNat_lt c).1
    rw [unitEscape_eq (show highUnit c.toNat < 0x10000 by unfold highUnit; omega),
      unitEscape_eq (lowUnit_lt c.toNat)] at hread ⊢
    exact stringBody_escape ['u', _, _, _, _, '\\', 'u', _, _, _, _] done hread

/-! ## Strings -/

theorem stringBody_flatMap (cs rest done : List Char) :
    stringBody (cs.flatMap escaped ++ '"' :: rest) 0 done =
      .ok (.ofList (done.reverse ++ cs), rest) := by
  induction cs generalizing done with
  | nil => rw [List.flatMap_nil, List.nil_append, stringBody, if_pos rfl, List.append_nil]
  | cons c cs ih =>
    rw [List.flatMap_cons, List.append_assoc, stringBody_escaped, ih, List.reverse_cons,
      List.append_assoc]
    rfl

/-- A written string is read from behind its opening quote. -/
theorem stringBody_quoted (s : String) (rest : List Char) :
    ∃ body, (quoted s).toList ++ rest = '"' :: body ∧ stringBody body 0 [] = .ok (s, rest) := by
  refine ⟨s.toList.flatMap escaped ++ '"' :: rest, ?_, ?_⟩
  · simp [quoted]
  · rw [stringBody_flatMap, List.reverse_nil, List.nil_append, String.ofList_toList]

end Cartridge.Json
