import Cartridge.Proofs.Entries
import Cartridge.Proofs.Json.Number
import Cartridge.Proofs.Json.Spelling

/-!
# Reading documents back

A document that was written over several lines is read as the value that it was written from, if the
reader takes such values at all.

* `Readable`: the values that the reader takes.
* `value_block`: a written value is read from the beginning of a text.
* `read_document`: a written document is read as its value.
-/

namespace Cartridge.Json

/-- The values that the reader takes where so many lists and objects may lie within one another:
whole numbers have not too many digits, and no two entries of an object have the same key. -/
inductive Readable : Nat → Json → Prop
  | null (room : Nat) : Readable room .null
  | bool (room : Nat) (b : Bool) : Readable room (.bool b)
  | int {room : Nat} {n : Int} (h : Text.Short n) :
    Readable room (.int n)
  | float (room : Nat) (x : Float) : Readable room (.float x)
  | str (room : Nat) (s : String) : Readable room (.str s)
  | arr {room : Nat} {items : List Json} (hitems : ∀ v ∈ items, Readable room v) :
    Readable (room + 1) (.arr items)
  | obj {room : Nat} {entries : Entries Json} (hkeys : entries.names.Nodup)
    (hentries : ∀ e ∈ entries, Readable room e.2) : Readable (room + 1) (.obj entries)

/-! ## Written values as characters -/

/-- The value over several lines, as characters. -/
def block (level : Nat) (v : Json) : List Char := (page level v).toList

/-- A line break and the indentation of a level, as characters. -/
def breakText (level : Nat) : List Char := '\n' :: List.replicate (2 * level) ' '

/-- What is written behind an item of a list or object: the other items, and the closing mark. -/
def tailText {α : Type} (f : α → List Char) (level : Nat) (close : Char) : List α → List Char
  | [] => breakText level ++ [close]
  | a :: rest => ',' :: breakText (level + 1) ++ f a ++ tailText f level close rest

/-- A written entry of an object. -/
def entryBlock (level : Nat) (e : String × Json) : List Char :=
  (quoted e.1).toList ++ ':' :: ' ' :: block level e.2

theorem toList_lineBreak (level : Nat) : (lineBreak level).toList = breakText level := by
  simp [lineBreak, breakText]

/-- Items in a row and the closing mark, from the first item on. -/
theorem intercalate_tailText {α : Type} (f : α → List Char) (level : Nat) (close : Char) (a : α)
    (rest : List α) :
    (',' :: breakText (level + 1)).intercalate ((a :: rest).map f) ++ breakText level ++ [close] =
      f a ++ tailText f level close rest := by
  induction rest generalizing a with
  | nil => simp [tailText]
  | cons b rest ih =>
    rw [List.map_cons, List.map_cons, List.intercalate_cons_cons, ← List.map_cons (f := f),
      List.append_assoc, List.append_assoc, List.append_assoc, ← List.append_assoc _ _ [close],
      ih b]
    simp [tailText]

theorem block_arr_nil (level : Nat) : block level (.arr []) = ['[', ']'] := by
  rw [block, page]
  rfl

theorem block_obj_nil (level : Nat) : block level (.obj []) = ['\x7b', '\x7d'] := by
  rw [block, page]
  rfl

theorem block_arr (level : Nat) (item : Json) (rest : List Json) :
    block level (.arr (item :: rest)) = '[' :: breakText (level + 1) ++
      (block (level + 1) item ++ tailText (block (level + 1)) level ']' rest) := by
  have hitems : ∀ l, pageItems (level + 1) l = l.map (page (level + 1)) := by
    intro l
    induction l with
    | nil => rw [pageItems, List.map_nil]
    | cons v l ih => rw [pageItems, ih, List.map_cons]
  rw [← intercalate_tailText, block, page, hitems]
  simp only [String.toList_append, String.toList_intercalate, List.map_map, toList_lineBreak]
  rw [show block (level + 1) = String.toList ∘ page (level + 1) from rfl]
  simp

theorem block_obj (level : Nat) (entry : String × Json) (rest : List (String × Json)) :
    block level (.obj (entry :: rest)) = '\x7b' :: breakText (level + 1) ++
      (entryBlock (level + 1) entry ++ tailText (entryBlock (level + 1)) level '\x7d' rest) := by
  have hentries : ∀ l, pageEntries (level + 1) l =
      l.map fun e => quoted e.1 ++ ": " ++ page (level + 1) e.2 := by
    intro l
    induction l with
    | nil => rw [pageEntries, List.map_nil]
    | cons e l ih => rw [pageEntries, ih, List.map_cons]
  have hentry : entryBlock (level + 1) =
      String.toList ∘ fun e : String × Json => quoted e.1 ++ ": " ++ page (level + 1) e.2 := by
    funext e
    simp [entryBlock, block]
  rw [← intercalate_tailText, block, page, hentries]
  simp only [String.toList_append, String.toList_intercalate, List.map_map, toList_lineBreak]
  rw [hentry]
  simp

/-! ## Blanks -/

theorem skipBlanks_cons {c : Char} (hc : c ∉ [' ', '\t', '\n', '\r']) (rest : List Char) :
    skipBlanks (c :: rest) = c :: rest := by
  rw [skipBlanks, List.dropWhile_cons_of_neg]
  simpa [and_assoc] using hc

theorem skipBlanks_breakText (level : Nat) {c : Char} (hc : c ∉ [' ', '\t', '\n', '\r'])
    (rest : List Char) : skipBlanks (breakText level ++ c :: rest) = c :: rest := by
  have hspaces : ∀ k, skipBlanks (List.replicate k ' ' ++ c :: rest) = c :: rest := by
    intro k
    induction k with
    | zero => exact skipBlanks_cons hc rest
    | succ k ih => exact ih
  exact hspaces (2 * level)

/-- A value begins with neither a blank nor a closing mark. -/
theorem head_of_value {bound room : Nat} {cs : List Char} {found : Json × List Char}
    (h : value bound room cs = .ok found) :
    ∃ c more, cs = c :: more ∧ c ∉ [' ', '\t', '\n', '\r', ']', '\x7d'] := by
  cases bound with
  | zero => cases h
  | succ bound =>
    cases cs with
    | nil => cases h
    | cons c more =>
      refine ⟨c, more, rfl, fun hc => ?_⟩
      have hopen : ∀ d ∈ ['"', '[', '\x7b'], (c :: more).head? ≠ some d := by
        intro d hd heq
        have hall : ∀ c ∈ [' ', '\t', '\n', '\r', ']', '\x7d'],
            ∀ d ∈ ['"', '[', '\x7b'], c ≠ d := by simp
        exact hall c hc d hd (Option.some.inj heq)
      have hword : word? (c :: more) = none := by
        refine word?_none fun w hw hprefix => ?_
        have hall : ∀ w ∈ words, ∀ c ∈ [' ', '\t', '\n', '\r', ']', '\x7d'],
            w.toList ≠ [] ∧ w.toList.head? ≠ some c := by simp [words]
        obtain ⟨hne, hhead⟩ := hall w hw c hc
        obtain ⟨a, l, hw'⟩ := List.exists_cons_of_ne_nil hne
        rw [hw'] at hprefix hhead
        exact hhead (congrArg some (List.cons_prefix_cons.mp hprefix).1)
      have hdigit : ∀ c ∈ [' ', '\t', '\n', '\r', ']', '\x7d'], c ≠ '-' ∧ c.isDigit = false := by
        simp
      obtain ⟨hminus, hnone⟩ := hdigit c hc
      rw [value_apply bound room (c :: more) hopen, hword] at h
      dsimp only at h
      split at h
      · rename_i heq
        exact hminus (List.cons.inj heq).1
      · obtain ⟨d, l, heq, hd⟩ := digit_of_number h
        rw [← (List.cons.inj heq).1, hnone] at hd
        cases hd

/-! ## Reading -/

/-- The value is read where it is written, however far it is indented. -/
def Reads (room : Nat) (v : Json) : Prop :=
  ∀ level bound rest, EndsNumber rest → (block level v).length ≤ bound →
    value bound room (block level v ++ rest) = .ok (v, rest)

theorem endsNumber_tailText {α : Type} (f : α → List Char) (level : Nat) (close : Char)
    (items : List α) (after : List Char) :
    EndsNumber (tailText f level close items ++ after) := by
  intro c hc
  cases items with
  | nil =>
    cases hc
    decide
  | cons a rest =>
    cases hc
    decide

theorem length_tailText_pos {α : Type} (f : α → List Char) (level : Nat) (close : Char)
    (items : List α) : 0 < (tailText f level close items).length := by
  cases items <;> simp [tailText]

theorem skipBlanks_tailText_nil {α : Type} (f : α → List Char) (level : Nat) {close : Char}
    (hclose : close ∉ [' ', '\t', '\n', '\r']) (after : List Char) :
    skipBlanks (tailText f level close [] ++ after) = close :: after := by
  rw [tailText, List.append_assoc]
  exact skipBlanks_breakText level hclose after

theorem skipBlanks_tailText_cons {α : Type} (f : α → List Char) (level : Nat) (close : Char)
    (a : α) (rest : List α) (after : List Char) :
    skipBlanks (tailText f level close (a :: rest) ++ after) =
      ',' :: (breakText (level + 1) ++ (f a ++ (tailText f level close rest ++ after))) := by
  rw [tailText, List.append_assoc, List.append_assoc]
  exact skipBlanks_cons (by decide) _

variable {room level : Nat}

theorem Reads.head {v : Json} (h : Reads room v) (level : Nat) (rest : List Char) :
    ∃ c more, block level v ++ rest = c :: more ∧ c ∉ [' ', '\t', '\n', '\r', ']', '\x7d'] := by
  obtain ⟨c, more, hcs, hc⟩ := head_of_value (h level _ [] (by rintro c ⟨⟩) le_rfl)
  rw [List.append_nil] at hcs
  exact ⟨c, more ++ rest, by rw [hcs]; rfl, hc⟩

section Steps

variable {bound : Nat} {cs rest more after : List Char} {item : Json}

theorem items_last (hvalue : value bound room cs = .ok (item, rest))
    (hrest : skipBlanks rest = ']' :: after) (done : List Json) :
    items (bound + 1) room cs done = .ok (.arr (item :: done).reverse, after) := by
  rw [items, hvalue]
  dsimp only [bind, Except.bind]
  rw [hrest]
  rfl

theorem items_next (hvalue : value bound room cs = .ok (item, rest))
    (hrest : skipBlanks rest = ',' :: more) (done : List Json) :
    items (bound + 1) room cs done = items bound room (skipBlanks more) (item :: done) := by
  rw [items, hvalue]
  dsimp only [bind, Except.bind]
  rw [hrest]
  rfl

variable {body afterKey entry : List Char} {key : String}

theorem entries_last (hkey : stringBody body 0 [] = .ok (key, afterKey))
    (hcolon : skipBlanks afterKey = ':' :: entry)
    (hvalue : value bound room (skipBlanks entry) = .ok (item, rest))
    (hrest : skipBlanks rest = '\x7d' :: after) (done : Entries Json) :
    entries (bound + 1) room ('"' :: body) done = .ok (.obj (done.put key item), after) := by
  rw [entries]
  simp only [bind, Except.bind, hkey, hcolon, hvalue, hrest]
  rfl

theorem entries_next (hkey : stringBody body 0 [] = .ok (key, afterKey))
    (hcolon : skipBlanks afterKey = ':' :: entry)
    (hvalue : value bound room (skipBlanks entry) = .ok (item, rest))
    (hrest : skipBlanks rest = ',' :: more) (done : Entries Json) :
    entries (bound + 1) room ('"' :: body) done =
      entries bound room (skipBlanks more) (done.put key item) := by
  rw [entries]
  simp only [bind, Except.bind, hkey, hcolon, hvalue, hrest]

end Steps

/-- Items are read from the first one up to the closing bracket. -/
theorem items_block {item : Json} {rest : List Json} (h : ∀ v ∈ item :: rest, Reads room v)
    {bound : Nat} (hbound : (block (level + 1) item).length +
      (tailText (block (level + 1)) level ']' rest).length ≤ bound + 1)
    (done : List Json) (after : List Char) :
    items (bound + 1) room (block (level + 1) item ++
        (tailText (block (level + 1)) level ']' rest ++ after)) done =
      .ok (.arr (done.reverse ++ item :: rest), after) := by
  have htail := length_tailText_pos (block (level + 1)) level ']' rest
  have hread := h item List.mem_cons_self (level + 1) bound _
    (endsNumber_tailText (block (level + 1)) level ']' rest after) (by omega)
  induction rest generalizing item bound done with
  | nil =>
    rw [items_last hread (skipBlanks_tailText_nil _ _ (by decide) after)]
    simp
  | cons next rest ih =>
    obtain ⟨c, more, hcs, hc⟩ := (h next (by simp)).head (level + 1)
      (tailText (block (level + 1)) level ']' rest ++ after)
    have htail' := length_tailText_pos (block (level + 1)) level ']' rest
    simp only [tailText, List.length_append, List.length_cons] at hbound
    obtain ⟨bound, rfl⟩ : ∃ b, bound = b + 1 := ⟨bound - 1, by omega⟩
    rw [items_next hread (skipBlanks_tailText_cons _ _ _ _ _ after), hcs,
      skipBlanks_breakText _ (fun hmem => hc (List.mem_append_left [']', '\x7d'] hmem)), ← hcs,
      ih (fun v hv => h v (List.mem_cons_of_mem _ hv)) (by omega) _ htail'
        (h next (by simp) (level + 1) bound _
          (endsNumber_tailText (block (level + 1)) level ']' rest after) (by omega))]
    simp

/-- An entry is read from its key up to its value. -/
theorem entryBlock_head (level : Nat) (entry : String × Json) (rest : List Char) :
    ∃ body, entryBlock level entry ++ rest = '"' :: body ∧
      stringBody body 0 [] = .ok (entry.1, ':' :: ' ' :: (block level entry.2 ++ rest)) := by
  obtain ⟨body, hbody, hread⟩ :=
    stringBody_quoted entry.1 (':' :: ' ' :: (block level entry.2 ++ rest))
  refine ⟨body, ?_, hread⟩
  rw [← hbody, entryBlock, List.append_assoc]
  rfl

/-- The value of an entry is read after the blank that stands before it. -/
theorem Reads.after_blank {v : Json} (h : Reads room v) (level bound : Nat) {rest : List Char}
    (hrest : EndsNumber rest) (hbound : (block level v).length ≤ bound) :
    value bound room (skipBlanks (' ' :: (block level v ++ rest))) = .ok (v, rest) := by
  obtain ⟨c, more, hcs, hc⟩ := h.head level rest
  have hskip : skipBlanks (' ' :: (block level v ++ rest)) = block level v ++ rest := by
    rw [hcs]
    exact skipBlanks_cons (fun hmem => hc (List.mem_append_left [']', '\x7d'] hmem)) more
  rw [hskip]
  exact h level bound rest hrest hbound

theorem length_block_lt (level : Nat) (entry : String × Json) :
    (block level entry.2).length < (entryBlock level entry).length := by
  simp only [entryBlock, List.length_append, List.length_cons]
  omega

/-- Entries are read from the first one up to the closing brace. -/
theorem entries_block {entry : String × Json} {rest : Entries Json}
    (h : ∀ e ∈ entry :: rest, Reads room e.2) {bound : Nat}
    (hbound : (entryBlock (level + 1) entry).length +
      (tailText (entryBlock (level + 1)) level '\x7d' rest).length ≤ bound + 1)
    {done : Entries Json} (hkeys : (Entries.names (done ++ entry :: rest)).Nodup)
    (after : List Char) :
    entries (bound + 1) room (entryBlock (level + 1) entry ++
        (tailText (entryBlock (level + 1)) level '\x7d' rest ++ after)) done =
      .ok (.obj (done ++ entry :: rest), after) := by
  induction rest generalizing entry bound done with
  | nil =>
    obtain ⟨body, hbody, hkey⟩ := entryBlock_head (level + 1) entry
      (tailText (entryBlock (level + 1)) level '\x7d' [] ++ after)
    have hlength := length_block_lt (level + 1) entry
    have hvalue := (h entry List.mem_cons_self).after_blank (level + 1) bound
      (endsNumber_tailText (entryBlock (level + 1)) level '\x7d' [] after) (by omega)
    rw [hbody, entries_last hkey (skipBlanks_cons (by decide) _) hvalue
      (skipBlanks_tailText_nil _ _ (by decide) after), Entries.put_of_not_mem]
    rw [Entries.names, List.map_append] at hkeys
    exact fun hmem => (List.nodup_append.mp hkeys).2.2 _ hmem _ (by simp) rfl
  | cons next rest ih =>
    obtain ⟨body, hbody, hkey⟩ := entryBlock_head (level + 1) entry
      (tailText (entryBlock (level + 1)) level '\x7d' (next :: rest) ++ after)
    have hlength := length_block_lt (level + 1) entry
    simp only [tailText, List.length_append, List.length_cons] at hbound
    obtain ⟨bound, rfl⟩ : ∃ b, bound = b + 1 := ⟨bound - 1, by omega⟩
    have hvalue := (h entry List.mem_cons_self).after_blank (level + 1) (bound + 1)
      (endsNumber_tailText (entryBlock (level + 1)) level '\x7d' (next :: rest) after) (by omega)
    obtain ⟨body', hbody', -⟩ := entryBlock_head (level + 1) next
      (tailText (entryBlock (level + 1)) level '\x7d' rest ++ after)
    have hfresh : entry.1 ∉ done.names := by
      intro hmem
      rw [Entries.names, List.map_append] at hkeys
      exact (List.nodup_append.mp hkeys).2.2 _ hmem _ (by simp) rfl
    rw [hbody, entries_next hkey (skipBlanks_cons (by decide) _) hvalue
      (skipBlanks_tailText_cons _ _ _ _ _ after), hbody', skipBlanks_breakText _ (by decide),
      ← hbody', Entries.put_of_not_mem hfresh,
      ih (fun e he => h e (List.mem_cons_of_mem _ he)) (by omega) (by rwa [List.append_assoc])]
    simp

theorem value_items {bound : Nat} {cs inside : List Char} (hskip : skipBlanks cs = inside)
    (hclose : inside.head? ≠ some ']') :
    value (bound + 1) (room + 1) ('[' :: cs) = items bound room inside [] := by
  rw [value, hskip]
  split
  · exact absurd rfl hclose
  · rfl

theorem value_entries {bound : Nat} {cs inside : List Char} (hskip : skipBlanks cs = inside)
    (hclose : inside.head? ≠ some '\x7d') :
    value (bound + 1) (room + 1) ('\x7b' :: cs) = entries bound room inside [] := by
  rw [value, hskip]
  split
  · exact absurd rfl hclose
  · rfl

theorem value_quoted (bound room : Nat) (s : String) (rest : List Char) :
    value (bound + 1) room ((quoted s).toList ++ rest) = .ok (.str s, rest) := by
  obtain ⟨body, hbody, hread⟩ := stringBody_quoted s rest
  rw [hbody, value, hread]
  rfl

theorem value_int (bound room : Nat) {n : Int} {rest : List Char}
    (hn : Text.Short n) (hrest : EndsNumber rest) :
    value (bound + 1) room (n.repr.toList ++ rest) = .ok (.int n, rest) := by
  have hread := value_signed bound room
    (number_whole (decide (n < 0)) (isWhole_toDigits n.natAbs) hn hrest)
  rw [digitsNumber_toDigits] at hread
  cases n with
  | ofNat n =>
    rw [Int.repr, Nat.toList_repr]
    exact hread
  | negSucc n =>
    rw [decide_eq_true (Int.negSucc_lt_zero n)] at hread
    rw [Int.repr, String.toList_append, Nat.toList_repr, List.append_assoc]
    exact hread

/-- A value without inner structure is read where it is written if its text is. -/
theorem reads_of_text {v : Json} (text : List Char) (htext : ∀ level, block level v = text)
    (hread : ∀ bound rest, EndsNumber rest →
      value (bound + 1) room (text ++ rest) = .ok (v, rest)) : Reads room v := by
  intro level bound rest hrest hbound
  rw [htext] at hbound ⊢
  cases bound with
  | zero =>
    obtain ⟨c, more, hcs, -⟩ := head_of_value (hread 0 [] (by rintro c ⟨⟩))
    rw [List.append_nil] at hcs
    rw [hcs] at hbound
    cases hbound
  | succ bound => exact hread bound rest hrest

/-- A value that the reader takes is read where it is written. -/
theorem value_block {v : Json} (hv : Readable room v) : Reads room v := by
  induction hv with
  | null room =>
    exact reads_of_text "null".toList (fun _ => by simp [block, page, line]) fun _ _ _ => rfl
  | bool room b =>
    refine reads_of_text (if b then "true" else "false").toList
      (fun _ => by simp [block, page, line]) fun _ _ _ => ?_
    cases b <;> rfl
  | @int room n h =>
    exact reads_of_text n.repr.toList (fun _ => by simp [block, page, line]) fun _ _ =>
      value_int _ _ h
  | float room x =>
    exact reads_of_text (floatText x).toList (fun _ => by simp [block, page, line]) fun _ _ =>
      value_floatText _ _ x
  | str room s =>
    exact reads_of_text (quoted s).toList (fun _ => by simp [block, page, line]) fun _ _ _ =>
      value_quoted _ _ s _
  | @arr room items hitems ih =>
    cases items with
    | nil => exact reads_of_text _ block_arr_nil fun _ _ _ => rfl
    | cons item rest =>
      intro level bound after hafter hbound
      obtain ⟨c, more, hcs, hc⟩ := (ih item List.mem_cons_self).head (level + 1)
        (tailText (block (level + 1)) level ']' rest ++ after)
      have htail := length_tailText_pos (block (level + 1)) level ']' rest
      rw [block_arr] at hbound ⊢
      simp only [List.length_append, List.length_cons] at hbound
      obtain ⟨bound, rfl⟩ : ∃ b, bound = b + 1 + 1 := ⟨bound - 2, by omega⟩
      have hskip : skipBlanks (breakText (level + 1) ++ (block (level + 1) item ++
          (tailText (block (level + 1)) level ']' rest ++ after))) = c :: more := by
        rw [hcs]
        exact skipBlanks_breakText _ (fun hmem => hc (List.mem_append_left [']', '\x7d'] hmem)) more
      rw [List.cons_append, List.cons_append, List.append_assoc, List.append_assoc,
        value_items hskip ?_, ← hcs, items_block ih (by omega)]
      · rfl
      · exact fun h => hc (by simp [Option.some.inj h])
  | @obj room entries hkeys hentries ih =>
    cases entries with
    | nil => exact reads_of_text _ block_obj_nil fun _ _ _ => rfl
    | cons entry rest =>
      intro level bound after hafter hbound
      obtain ⟨body, hbody, -⟩ := entryBlock_head (level + 1) entry
        (tailText (entryBlock (level + 1)) level '\x7d' rest ++ after)
      have htail := length_tailText_pos (entryBlock (level + 1)) level '\x7d' rest
      rw [block_obj] at hbound ⊢
      simp only [List.length_append, List.length_cons] at hbound
      obtain ⟨bound, rfl⟩ : ∃ b, bound = b + 1 + 1 := ⟨bound - 2, by omega⟩
      have hskip : skipBlanks (breakText (level + 1) ++ (entryBlock (level + 1) entry ++
          (tailText (entryBlock (level + 1)) level '\x7d' rest ++ after))) = '"' :: body := by
        rw [hbody]
        exact skipBlanks_breakText _ (by decide) body
      rw [List.cons_append, List.cons_append, List.append_assoc, List.append_assoc,
        value_entries hskip ?_, ← hbody, entries_block ih (by omega) hkeys]
      · rfl
      · simp

/-- A written document is read as the value that it was written from. -/
theorem read_document {v : Json} {room : Nat} (hv : Readable room v) :
    read v.document room = .ok v := by
  obtain ⟨c, more, hcs, hc⟩ := (value_block hv).head 0 []
  have hread := value_block hv 0 (2 * (block 0 v).length + 2) [] (by rintro c ⟨⟩) (by omega)
  rw [List.append_nil] at hcs hread
  have hskip : skipBlanks (block 0 v) = block 0 v := by
    rw [hcs]
    exact skipBlanks_cons (fun hmem => hc (List.mem_append_left [']', '\x7d'] hmem)) more
  unfold read
  show (value (2 * (block 0 v).length + 2) room (skipBlanks (block 0 v)) >>= fun _ => _) = _
  rw [hskip, hread]
  rfl

end Cartridge.Json
