import Cartridge.Proofs.Json.Page

/-!
# What the reader gives

Whatever the reader gives it takes again: the value of a document that was read can be written and
is read from there.

* `Given`: what a reader of a part gives is readable.
* `given`: so it is for values, items and entries, by induction on the bound.
* `readable_of_read`: so it is for documents.
* `read_nested`: a document whose lists lie too deep is refused.
-/

namespace Cartridge.Json

/-! ## Numbers and words -/

theorem digitsNumber_lt {ds : List Char} (hds : ∀ c ∈ ds, c.isDigit = true) :
    digitsNumber ds < 10 ^ ds.length := by
  induction ds with
  | nil => exact Nat.one_pos
  | cons c ds ih =>
    have hrest := ih fun d hd => hds d (List.mem_cons_of_mem c hd)
    have hc : c.toNat - '0'.toNat ≤ 9 := by
      have := hds c List.mem_cons_self
      rw [Char.isDigit_iff_toNat] at this
      have : '0'.toNat = 48 ∧ '9'.toNat = 57 := ⟨rfl, rfl⟩
      omega
    rw [digitsNumber_eq] at hrest ⊢
    rw [Nat.ofDigitChars_cons, Nat.mul_zero, Nat.zero_add, Nat.ofDigitChars_eq_ofDigitChars_zero,
      List.length_cons, Nat.pow_succ]
    have := Nat.mul_le_mul_left (10 ^ ds.length) hc
    omega

theorem digits_of_whole? {cs ds rest : List Char} (h : whole? cs = some (ds, rest)) :
    ds ≠ [] ∧ ∀ c ∈ ds, c.isDigit = true := by
  unfold whole? at h
  split at h
  · cases h
    exact ⟨isWhole_zero.nonempty, isWhole_zero.digits⟩
  · split at h
    · cases h
    · rename_i hne
      have hds : (digits cs).1 = ds := congrArg Prod.fst (Option.some.inj h)
      refine ⟨fun hnil => hne rest ?_, fun c hc => ?_⟩
      · rw [Option.some.inj h, hnil]
      · rw [← hds] at hc
        exact List.all_eq_true.mp List.all_takeWhile c hc

variable {room : Nat} {cs rest : List Char} {j : Json}

theorem readable_of_number {negative : Bool} (h : number negative cs = .ok (j, rest)) :
    Readable room j := by
  unfold number at h
  split at h
  · cases h
  rename_i ds rest' hwhole
  obtain ⟨hne, hds⟩ := digits_of_whole? hwhole
  cases hfraction : fraction? rest' with
  | some found =>
    rw [hfraction] at h
    dsimp only at h
    split at h
    · cases h
      exact .float _ _
    · cases h
      exact .float _ _
  | none =>
    rw [hfraction] at h
    dsimp only at h
    split at h
    · cases h
      exact .float _ _
    rw [if_neg Bool.false_ne_true] at h
    split at h
    · cases h
    rename_i hlimit
    cases h
    have hlength : (Nat.toDigits 10 (digitsNumber ds)).length ≤ ds.length :=
      (Nat.length_toDigits_le_iff (by decide) (List.length_pos_of_ne_nil hne)).mpr
        (digitsNumber_lt hds)
    have habs : (if negative = true then -(digitsNumber ds : Int) else digitsNumber ds).natAbs =
        digitsNumber ds := by
      split
      · rw [Int.natAbs_neg, Int.natAbs_natCast]
      · rw [Int.natAbs_natCast]
    refine .int ?_
    rw [Text.Short, habs]
    exact hlength.trans (not_lt.mp hlimit)

theorem readable_of_word? (h : word? cs = some (j, rest)) : Readable room j := by
  unfold word? at h
  obtain ⟨p, hp, hfound⟩ := List.exists_of_findSome?_eq_some h
  dsimp only at hfound
  split at hfound
  · have hj : p.2 = j := congrArg Prod.fst (Option.some.inj hfound)
    rw [← hj]
    simp only [List.mem_cons, List.not_mem_nil, or_false] at hp
    rcases hp with rfl | rfl | rfl | rfl | rfl | rfl
    · exact .null _
    · exact .bool _ _
    · exact .bool _ _
    · exact .float _ _
    · exact .float _ _
    · exact .float _ _
  · cases hfound

/-! ## Values of every kind -/

/-- Whatever the readers of parts give within a bound is readable. -/
structure Given (bound : Nat) : Prop where
  value : ∀ {room cs j rest}, value bound room cs = .ok (j, rest) → Readable room j
  items : ∀ {room cs done j rest}, (∀ v ∈ done, Readable room v) →
    items bound room cs done = .ok (j, rest) → Readable (room + 1) j
  entries : ∀ {room cs done j rest}, (Entries.names done).Nodup →
    (∀ e ∈ done, Readable room e.2) → entries bound room cs done = .ok (j, rest) →
    Readable (room + 1) j

variable {bound : Nat}

theorem Given.value_succ (h : Given bound)
    (hread : Json.value (bound + 1) room cs = .ok (j, rest)) : Readable room j := by
  unfold Json.value at hread
  split at hread
  · -- a string
    rename_i body
    cases hbody : stringBody body 0 [] with
    | error e =>
      rw [hbody] at hread
      cases hread
    | ok found =>
      rw [hbody] at hread
      cases hread
      exact .str _ _
  · cases hread
  · cases hread
  · split at hread
    · cases hread
      exact .arr fun v hv => by cases hv
    · exact h.items (fun v hv => by cases hv) hread
  · split at hread
    · cases hread
      exact .obj List.nodup_nil fun e he => by cases he
    · exact h.entries (show (Entries.names []).Nodup from List.nodup_nil)
        (fun e he => by cases he) hread
  · split at hread
    · rename_i found hword
      cases hread
      exact readable_of_word? hword
    · split at hread <;> exact readable_of_number hread

theorem Given.items_succ (h : Given bound) {done : List Json} (hdone : ∀ v ∈ done, Readable room v)
    (hread : Json.items (bound + 1) room cs done = .ok (j, rest)) : Readable (room + 1) j := by
  rw [Json.items] at hread
  cases hvalue : Json.value bound room cs with
  | error e =>
    rw [hvalue] at hread
    cases hread
  | ok found =>
    obtain ⟨item, rest'⟩ := found
    rw [hvalue] at hread
    have hmore : ∀ v ∈ item :: done, Readable room v := by
      intro v hv
      rcases List.mem_cons.mp hv with rfl | hv
      · exact h.value hvalue
      · exact hdone v hv
    dsimp only [bind, Except.bind] at hread
    split at hread
    · exact h.items hmore hread
    · cases hread
      exact .arr fun v hv => hmore v (List.mem_reverse.mp hv)
    · cases hread

theorem Given.entries_succ (h : Given bound) {done : Entries Json} (hkeys : done.names.Nodup)
    (hdone : ∀ e ∈ done, Readable room e.2)
    (hread : Json.entries (bound + 1) room cs done = .ok (j, rest)) : Readable (room + 1) j := by
  unfold Json.entries at hread
  split at hread
  · rename_i body
    cases hbody : stringBody body 0 [] with
    | error e =>
      rw [hbody] at hread
      cases hread
    | ok found =>
      rw [hbody] at hread
      dsimp only [bind, Except.bind] at hread
      split at hread
      · rename_i more hcolon
        cases hvalue : Json.value bound room (skipBlanks more) with
        | error e =>
          rw [hvalue] at hread
          cases hread
        | ok found' =>
          rw [hvalue] at hread
          have hmore := Entries.forall_put (P := Readable room) hdone found.1 (h.value hvalue)
          dsimp only at hread
          split at hread
          · exact h.entries (Entries.nodup_put hkeys _ _) hmore hread
          · cases hread
            exact .obj (Entries.nodup_put hkeys _ _) hmore
          · cases hread
      · cases hread
  · cases hread

/-- What the readers of parts give is readable, however large the bound is. -/
theorem given (bound : Nat) : Given bound := by
  induction bound with
  | zero => exact ⟨fun h => (by cases h), fun _ h => (by cases h), fun _ _ h => (by cases h)⟩
  | succ bound ih => exact ⟨ih.value_succ, ih.items_succ, ih.entries_succ⟩

/-- What the reader gives for a document it takes again. -/
theorem readable_of_read {text : String} {room : Nat} (h : read text room = .ok j) :
    Readable room j := by
  unfold read at h
  dsimp only at h
  cases hvalue : value (2 * text.toList.length + 2) room (skipBlanks text.toList) with
  | error e =>
    rw [hvalue] at h
    cases h
  | ok found =>
    rw [hvalue] at h
    dsimp only [bind, Except.bind] at h
    split at h
    · cases h
      exact (given _).value hvalue
    · cases h

/-! ## What the reader refuses -/

/-- Lists that lie deeper than there is room for are refused, whatever follows. -/
theorem value_of_nested (room bound : Nat) (hbound : 2 * room < bound) (cs : List Char) :
    value bound room (List.replicate (room + 1) '[' ++ cs) = .error .tooDeep := by
  induction room generalizing bound with
  | zero =>
    obtain ⟨bound, rfl⟩ : ∃ b, bound = b + 1 := ⟨bound - 1, by omega⟩
    rfl
  | succ room ih =>
    obtain ⟨bound, rfl⟩ : ∃ b, bound = b + 2 := ⟨bound - 2, by omega⟩
    have hinner := ih bound (by omega)
    rw [List.replicate_succ, List.cons_append] at hinner
    rw [List.replicate_succ, List.cons_append, List.replicate_succ, List.cons_append, value,
      skipBlanks_cons (by simp)]
    show items (bound + 1) room ('[' :: (List.replicate room '[' ++ cs)) [] = _
    rw [items, hinner]
    rfl

theorem read_nested (room : Nat) (cs : List Char) :
    read (.ofList (List.replicate (room + 1) '[' ++ cs)) room = .error .tooDeep := by
  have hvalue := value_of_nested room
    (2 * (List.replicate (room + 1) '[' ++ cs).length + 2) (by simp; omega) cs
  rw [read, String.toList_ofList]
  dsimp only
  rw [List.replicate_succ, List.cons_append] at hvalue ⊢
  rw [skipBlanks_cons (by simp), hvalue]
  rfl

end Cartridge.Json
