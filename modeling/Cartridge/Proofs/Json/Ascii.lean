import Cartridge.Proofs.Json.Page

/-!
# The characters of documents

A written document has no characters but line breaks and those that ASCII prints, whatever the value
holds.

* `ascii_block`: so it is for every value.
* `ne_return_of_mem_document`: no document has a carriage return.
-/

namespace Cartridge.Json

/-- A line break or a character that ASCII prints. -/
def IsAscii (c : Char) : Prop := c = '\n' ∨ (0x20 ≤ c.toNat ∧ c.toNat < 0x7f)

instance (c : Char) : Decidable (IsAscii c) := inferInstanceAs (Decidable (_ ∨ _))

def Ascii (cs : List Char) : Prop := ∀ c ∈ cs, IsAscii c

instance (cs : List Char) : Decidable (Ascii cs) := List.decidableBAll IsAscii cs

namespace Ascii

variable {cs ds : List Char}

theorem append (hcs : Ascii cs) (hds : Ascii ds) : Ascii (cs ++ ds) :=
  fun c hc => (List.mem_append.mp hc).elim (hcs c) (hds c)

theorem cons {c : Char} (hc : IsAscii c) (hcs : Ascii cs) : Ascii (c :: cs) :=
  fun d hd => (List.mem_cons.mp hd).elim (fun h => h ▸ hc) (hcs d)

theorem replicate (k : Nat) {c : Char} (hc : IsAscii c) : Ascii (List.replicate k c) :=
  fun _ hd => (List.eq_of_mem_replicate hd).symm ▸ hc

theorem of_digits (h : ∀ c ∈ cs, c.isDigit = true) : Ascii cs := by
  intro c hc
  have hdigit := Char.isDigit_iff_toNat.mp (h c hc)
  have : '0'.toNat = 48 ∧ '9'.toNat = 57 := ⟨rfl, rfl⟩
  exact .inr (by omega)

end Ascii

/-! ## Numbers -/

theorem ascii_toDigits (n : Nat) : Ascii (Nat.toDigits 10 n) :=
  .of_digits (isWhole_toDigits n).digits

theorem ascii_int (n : Int) : Ascii n.repr.toList := by
  cases n with
  | ofNat n =>
    rw [Int.repr, Nat.toList_repr]
    exact ascii_toDigits n
  | negSucc n =>
    rw [Int.repr, String.toList_append, Nat.toList_repr]
    exact .append (by decide) (ascii_toDigits _)

open Decimal in
theorem ascii_scientific (s : Scientific) : Ascii s.plain.toList := by
  have hdigits := ascii_toDigits s.digits
  unfold Scientific.plain
  dsimp only
  generalize Nat.toDigits 10 s.digits = ds at *
  have htake (k : Nat) : Ascii (ds.take k) := fun c hc => hdigits c (List.mem_of_mem_take hc)
  have hdrop (k : Nat) : Ascii (ds.drop k) := fun c hc => hdigits c (List.mem_of_mem_drop hc)
  have hzeros (k : Nat) : Ascii (List.replicate k '0') := .replicate k (by decide)
  split
  · split
    · simp only [String.toList_append, String.toList_ofList]
      exact .append (.append hdigits (hzeros _)) (by decide)
    split
    · simp only [String.toList_append, String.toList_ofList]
      exact .append (.append (htake _) (by decide)) (hdrop _)
    · simp only [String.toList_append, String.toList_ofList]
      exact .append (by decide) (.append (hzeros _) hdigits)
  · simp only [String.toList_append, String.toList_ofList]
    refine .append (.append (.append (.append (htake 1) ?_) (by decide)) ?_) ?_
    · split
      · exact fun c hc => by cases hc
      · rw [String.toList_append]
        exact .append (by decide) (by simpa using hdrop 1)
    · split <;> decide
    · exact .of_digits fun c hc => isDigit_of_mem_padded _ _ hc

open Decimal in
theorem ascii_float (x : Float) : Ascii (floatText x).toList := by
  unfold floatText
  split
  · rename_i negative num den hreading
    unfold Decimal.plain
    rw [hreading]
    dsimp only
    rw [String.toList_append]
    refine .append ?_ ?_
    · unfold signText
      split <;> decide
    · split
      · exact (by decide : Ascii "0.0".toList)
      · exact ascii_scientific _
  · split <;> decide
  · decide

/-! ## Strings -/

theorem ascii_unitEscape {n : Nat} (hn : n < 0x10000) : Ascii (unitEscape n) := by
  have hdigit : ∀ d < 16, IsAscii d.digitChar := by decide
  rw [unitEscape_eq hn]
  exact .cons (by decide) (.cons (by decide) (.cons (hdigit _ (by omega))
    (.cons (hdigit _ (by omega)) (.cons (hdigit _ (by omega)) (.cons (hdigit _ (by omega))
      fun c hc => by cases hc)))))

theorem ascii_escaped (c : Char) : Ascii (escaped c) := by
  have hlimit := (Text.toNat_lt c).1
  unfold escaped
  split
  iterate 7 decide
  dsimp only
  split
  · rename_i hrange
    simp only [Bool.and_eq_true, decide_eq_true_eq] at hrange
    exact .cons (.inr hrange) fun d hd => by cases hd
  · split
    · exact ascii_unitEscape (by assumption)
    · exact .append (ascii_unitEscape (by omega)) (ascii_unitEscape (by omega))

theorem ascii_quoted (s : String) : Ascii (quoted s).toList := by
  rw [quoted, String.toList_ofList]
  refine .append (.cons (by decide) fun c hc => ?_) (by decide)
  obtain ⟨d, -, hc⟩ := List.mem_flatMap.mp hc
  exact ascii_escaped d c hc

/-! ## Values -/

theorem ascii_breakText (level : Nat) : Ascii (breakText level) :=
  .cons (by decide) (.replicate _ (by decide))

theorem ascii_tailText {α : Type} {f : α → List Char} {items : List α}
    (h : ∀ a ∈ items, Ascii (f a)) (level : Nat) {close : Char} (hclose : IsAscii close) :
    Ascii (tailText f level close items) := by
  induction items with
  | nil => exact .append (ascii_breakText level) (.cons hclose fun c hc => by cases hc)
  | cons a rest ih =>
    exact .append (.append (.cons (by decide) (ascii_breakText _)) (h a List.mem_cons_self))
      (ih fun b hb => h b (List.mem_cons_of_mem a hb))

/-- A value is written in line breaks and characters that ASCII prints. -/
theorem ascii_block (v : Json) (level : Nat) : Ascii (block level v) := by
  match v with
  | .null =>
    rw [show block level .null = "null".toList by simp [block, page, line]]
    decide
  | .bool b =>
    rw [show block level (.bool b) = (if b then "true" else "false").toList by
      simp [block, page, line]]
    cases b <;> decide
  | .int n =>
    rw [show block level (.int n) = n.repr.toList by simp [block, page, line]]
    exact ascii_int n
  | .float x =>
    rw [show block level (.float x) = (floatText x).toList by simp [block, page, line]]
    exact ascii_float x
  | .str s =>
    rw [show block level (.str s) = (quoted s).toList by simp [block, page, line]]
    exact ascii_quoted s
  | .arr [] =>
    rw [block_arr_nil]
    decide
  | .obj [] =>
    rw [block_obj_nil]
    decide
  | .arr (item :: rest) =>
    have hitems (v : Json) (hv : v ∈ item :: rest) : Ascii (block (level + 1) v) :=
      ascii_block v (level + 1)
    rw [block_arr]
    exact .append (.cons (by decide) (ascii_breakText _))
      (.append (hitems item List.mem_cons_self)
        (ascii_tailText (fun v hv => hitems v (List.mem_cons_of_mem item hv)) level (by decide)))
  | .obj (entry :: rest) =>
    have hentries (e : String × Json) (he : e ∈ entry :: rest) :
        Ascii (entryBlock (level + 1) e) :=
      .append (ascii_quoted e.1)
        (.cons (by decide) (.cons (by decide) (ascii_block e.2 (level + 1))))
    rw [block_obj]
    exact .append (.cons (by decide) (ascii_breakText _))
      (.append (hentries entry List.mem_cons_self)
        (ascii_tailText (fun e he => hentries e (List.mem_cons_of_mem entry he)) level (by decide)))
termination_by sizeOf v
decreasing_by
  · have hlt := List.sizeOf_lt_of_mem hv
    rw [Json.arr.sizeOf_spec]
    omega
  · have hlt := List.sizeOf_lt_of_mem he
    obtain ⟨key, value⟩ := e
    rw [Prod.mk.sizeOf_spec] at hlt
    rw [Json.obj.sizeOf_spec]
    dsimp only
    omega

theorem ne_return_of_mem_document {v : Json} {c : Char} (hc : c ∈ v.document.toList) :
    c ≠ '\r' := by
  rintro rfl
  exact absurd (ascii_block v 0 _ hc) (by decide)

end Cartridge.Json
