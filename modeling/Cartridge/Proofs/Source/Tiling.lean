import Cartridge.Source.Chunk

/-!
# Pieces tile the lines of a file

Both ways of cutting go through the lines one by one. A line that is not empty joins a buffer, and
now and then the buffer becomes a piece. Neither way loses or repeats a line.

* `Cutting.take_step`, `takeBlockLine_step`: what one line does to the pieces and the buffer, with
  the sizes that decide it.
* `Tiled`: pieces that hold exactly the lines before a number that are not empty, each within its
  own range.
* `cutByBodies_tiled`, `cutByBlocks_tiled`, `cutFile_tiled`: the pieces of a file tile its lines.
-/

namespace Cartridge.Source

/-! ## One line at a time -/

/-- What becomes of the pieces `done` and of a buffer `b` once line number `i` was offered to it:
the buffer stays, or it becomes a piece that ends with that line. -/
inductive Step (i : Nat) (kept cut : Prop) (done : List Piece) (b : Buffer) :
    List Piece → Buffer → Prop
  | stay (h : kept) : Step i kept cut done b done b
  | cut (kind : ChunkKind) (h : cut) : Step i kept cut done b (b.piece i kind :: done) {}

theorem Step.mono {i : Nat} {kept kept' cut cut' : Prop} {done done' : List Piece} {b b' : Buffer}
    (h : Step i kept cut done b done' b') (hkept : kept → kept') (hcut : cut → cut') :
    Step i kept' cut' done b done' b' := by
  cases h with
  | stay h => exact .stay (hkept h)
  | cut kind h => exact .cut kind (hcut h)

namespace Cutting

theorem cutIfLarge_step (limit : Int) (i : Nat) (s : Cutting) :
    Step i (s.buffer.size ≤ limit) (limit < s.buffer.size) s.done s.buffer
      (cutIfLarge limit i s).done (cutIfLarge limit i s).buffer := by
  unfold cutIfLarge
  by_cases h : limit < s.buffer.size
  · rw [if_pos h]
    exact .cut .other h
  · rw [if_neg h]
    exact .stay (by omega)

/-- A line that is not empty joins the buffer. The buffer stays if it is within the limit, and it is
cut off if it has outgrown the limit or, at the end of a body, the size of a small one. -/
theorem take_step (limit : Int) (s : Cutting) (i : Nat) {line : String} (h : line ≠ "") :
    let b := s.buffer.push i line
    Step i (b.size ≤ limit) (limit < b.size ∨ smallBody < b.size) s.done b
      (s.take limit i line).done (s.take limit i line).buffer := by
  intro b
  have hempty : line.isEmpty = false := by simpa using h
  have large (braces : Int) (inBody : Bool) :=
    (cutIfLarge_step limit i ⟨s.done, b, braces, inBody⟩).mono id
      (Or.inl (b := smallBody < b.size))
  simp only [take, hempty, Bool.false_eq_true, if_false]
  split
  · split
    · rename_i hsize
      exact .cut _ (.inr hsize)
    · exact large 0 false
  · exact large _ _

end Cutting

/-- A line that is not empty joins the buffer. A buffer that stays is empty or below the limit. -/
theorem takeBlockLine_step (limit : Int) (s : List Piece × Buffer) (i : Nat) (line next : String) :
    let b := if line.isEmpty then s.2 else s.2.push i line
    Step i (b.lines = [] ∨ b.size < limit) (b.lines ≠ []) s.1 b
      (takeBlockLine limit s i line next).1 (takeBlockLine limit s i line next).2 := by
  intro b
  have htake : takeBlockLine limit s i line next =
      if !b.lines.isEmpty && (limit ≤ b.size || (next ≠ "" && isBoundary line next)) then
        (b.piece i .other :: s.1, {})
      else (s.1, b) := rfl
  rw [htake]
  split
  · rename_i h
    exact .cut .other (by simp_all)
  · rename_i h
    refine .stay ?_
    by_cases hb : b.lines = []
    · exact .inl hb
    · have hlimit : ¬ limit ≤ b.size := fun hle => h (by simp [hb, hle])
      exact .inr (by omega)

/-! ## Lines between two numbers -/

/-- The lines from number `a` on and before number `b` that are not empty. -/
def filled (lines : List String) (a b : Nat) : List String :=
  ((lines.take b).drop a).filter (· ≠ "")

theorem filled_self (lines : List String) (a : Nat) : filled lines a a = [] := by
  simp [filled]

theorem filled_append (lines : List String) {a b c : Nat} (hab : a ≤ b) (hbc : b ≤ c) :
    filled lines a b ++ filled lines b c = filled lines a c := by
  have htake : (lines.take c).take b = lines.take b := by
    rw [List.take_take, Nat.min_eq_left hbc]
  have hrest : ((lines.take c).drop b).drop (a - (lines.take b).length) =
      (lines.take c).drop b := by
    by_cases h : a ≤ (lines.take b).length
    · rw [Nat.sub_eq_zero_of_le h, List.drop_zero]
    · rw [List.length_take] at h
      rw [List.drop_eq_nil_of_le (by simp; omega : (lines.take c).length ≤ b), List.drop_nil]
  have hdrop : (lines.take b).drop a ++ (lines.take c).drop b = (lines.take c).drop a := by
    calc (lines.take b).drop a ++ (lines.take c).drop b
        = ((lines.take c).take b ++ (lines.take c).drop b).drop a := by
          rw [htake, List.drop_append, hrest]
      _ = (lines.take c).drop a := by rw [List.take_append_drop]
  rw [filled, filled, filled, ← List.filter_append, hdrop]

theorem filled_succ {lines : List String} {i : Nat} {line : String} (h : lines[i]? = some line) :
    filled lines i (i + 1) = if line = "" then [] else [line] := by
  obtain ⟨hi, hline⟩ := List.getElem?_eq_some_iff.mp h
  have htake : (lines.take (i + 1)).drop i = [line] := by
    rw [List.take_add_one, h, List.drop_append_of_le_length (by rw [List.length_take]; omega),
      List.drop_eq_nil_of_le (List.length_take_le i lines)]
    rfl
  rw [filled, htake]
  by_cases hempty : line = "" <;> simp [hempty]

theorem mem_filled {lines : List String} {i a b : Nat} {line : String} (h : lines[i]? = some line)
    (hline : line ≠ "") (ha : a ≤ i) (hb : i < b) : line ∈ filled lines a b := by
  rw [← filled_append lines ha (Nat.le_of_lt hb), ← filled_append lines (Nat.le_succ i) hb,
    filled_succ h]
  simp [hline]

/-! ## Tilings -/

/-- Pieces, the latest first, that hold exactly the lines before number `n` that are not empty, each
the ones within its range. -/
inductive Tiled (lines : List String) : List Piece → Nat → Prop
  | none {n : Nat} (rest : filled lines 0 n = []) : Tiled lines [] n
  | piece {p : Piece} {done : List Piece} {n : Nat} (before : Tiled lines done p.first)
      (ordered : p.first ≤ p.last) (inside : p.last < n)
      (held : p.lines = filled lines p.first (p.last + 1))
      (rest : filled lines (p.last + 1) n = []) : Tiled lines (p :: done) n

namespace Tiled

variable {lines : List String} {done : List Piece} {n : Nat}

theorem extend {m : Nat} (h : Tiled lines done m) (hm : m ≤ n) (hrest : filled lines m n = []) :
    Tiled lines done n := by
  cases h with
  | none rest => exact .none (by rw [← filled_append lines (Nat.zero_le m) hm, rest, hrest]; rfl)
  | piece before ordered inside held rest =>
    refine .piece before ordered (by omega) held ?_
    rw [← filled_append lines inside hm, rest, hrest]
    rfl

theorem range {p : Piece} (h : Tiled lines done n) (hp : p ∈ done) :
    p.first ≤ p.last ∧ p.last < n ∧ p.lines = filled lines p.first (p.last + 1) := by
  induction h with
  | none => simp at hp
  | piece before ordered inside held rest ih =>
    rcases List.mem_cons.mp hp with rfl | hp
    · exact ⟨ordered, inside, held⟩
    · obtain ⟨h1, h2, h3⟩ := ih hp
      exact ⟨h1, by omega, h3⟩

theorem decreasing (h : Tiled lines done n) : done.Pairwise fun p q => q.last < p.first := by
  induction h with
  | none => exact .nil
  | piece before ordered inside held rest ih => exact .cons (fun q hq => (before.range hq).2.1) ih

theorem covers {i : Nat} {line : String} (h : Tiled lines done n) (hi : i < n)
    (hline : lines[i]? = some line) (hne : line ≠ "") : ∃ p ∈ done, p.first ≤ i ∧ i ≤ p.last := by
  induction h with
  | none rest =>
    have hmem := mem_filled hline hne (Nat.zero_le i) hi
    rw [rest] at hmem
    cases hmem
  | @piece p done n before ordered inside held rest ih =>
    by_cases hfirst : i < p.first
    · obtain ⟨q, hq, hrange⟩ := ih hfirst
      exact ⟨q, List.mem_cons_of_mem p hq, hrange⟩
    · by_cases hlast : i ≤ p.last
      · exact ⟨p, List.mem_cons_self, by omega, hlast⟩
      · have hmem := mem_filled hline hne (by omega : p.last + 1 ≤ i) hi
        rw [rest] at hmem
        cases hmem

theorem flatMap_lines (h : Tiled lines done n) :
    done.reverse.flatMap (·.lines) = filled lines 0 n := by
  induction h with
  | none rest => exact rest.symm
  | @piece p done n before ordered inside held rest ih =>
    rw [List.reverse_cons, List.flatMap_append, ih, List.flatMap_singleton, held,
      filled_append lines (Nat.zero_le _) (by omega), ← filled_append lines (Nat.zero_le _) inside,
      rest, List.append_nil]

end Tiled

/-! ## The buffer -/

/-- Every line before number `n` that is not empty is in the pieces or, behind them, in the
buffer. -/
def Collected (lines : List String) (done : List Piece) (b : Buffer) (n : Nat) : Prop :=
  (b.lines = [] ∧ Tiled lines done n) ∨
    (b.lines ≠ [] ∧ Tiled lines done b.start ∧ b.start < n ∧
      b.lines.reverse = filled lines b.start n)

namespace Collected

variable {lines : List String} {done : List Piece} {b : Buffer} {n : Nat}

theorem skip (h : Collected lines done b n) (hline : lines[n]? = some "") :
    Collected lines done b (n + 1) := by
  have hempty : filled lines n (n + 1) = [] := by rw [filled_succ hline, if_pos rfl]
  rcases h with ⟨hb, ht⟩ | ⟨hb, ht, hstart, hheld⟩
  · exact .inl ⟨hb, ht.extend (by omega) hempty⟩
  · refine .inr ⟨hb, ht, by omega, ?_⟩
    rw [← filled_append lines (Nat.le_of_lt hstart) (Nat.le_succ n), hempty, List.append_nil, hheld]

theorem push {line : String} (h : Collected lines done b n) (hline : lines[n]? = some line)
    (hne : line ≠ "") : Collected lines done (b.push n line) (n + 1) := by
  have hone : filled lines n (n + 1) = [line] := by rw [filled_succ hline, if_neg hne]
  refine .inr ⟨by simp [Buffer.push], ?_⟩
  rcases h with ⟨hb, ht⟩ | ⟨hb, ht, hstart, hheld⟩
  · have hpush : b.push n line = ⟨[line], n⟩ := by simp [Buffer.push, hb]
    rw [hpush]
    exact ⟨ht, Nat.lt_succ_self n, hone.symm⟩
  · have hpush : b.push n line = ⟨line :: b.lines, b.start⟩ := by simp [Buffer.push, hb]
    rw [hpush]
    refine ⟨ht, by simp only; omega, ?_⟩
    rw [← filled_append lines (Nat.le_of_lt hstart) (Nat.le_succ n), hone, ← hheld,
      List.reverse_cons]

theorem cut (h : Collected lines done b (n + 1)) (hb : b.lines ≠ []) (kind : ChunkKind) :
    Tiled lines (b.piece n kind :: done) (n + 1) := by
  rcases h with ⟨hb', -⟩ | ⟨-, ht, hstart, hheld⟩
  · exact absurd hb' hb
  · exact .piece ht (Nat.le_of_lt_succ hstart) (Nat.lt_succ_self n) hheld
      (filled_self lines (n + 1))

theorem step {kept cut : Prop} {done' : List Piece} {b' : Buffer}
    (h : Collected lines done b (n + 1)) (hs : Step n kept cut done b done' b')
    (hcut : cut → b.lines ≠ []) : Collected lines done' b' (n + 1) := by
  cases hs with
  | stay => exact h
  | cut kind hc => exact .inl ⟨rfl, h.cut (hcut hc) kind⟩

/-- What is left in the buffer after the last line becomes the last piece. -/
theorem finish (h : Collected lines done b lines.length) :
    Tiled lines (if b.lines.isEmpty then done else b.piece (lines.length - 1) .other :: done)
      lines.length := by
  by_cases hb : b.lines = []
  · rcases h with ⟨-, ht⟩ | ⟨hb', -⟩
    · simpa [hb] using ht
    · exact absurd hb hb'
  · rw [if_neg (by simpa using hb)]
    obtain ⟨n, hn⟩ : ∃ n, lines.length = n + 1 := by
      rcases h with ⟨hb', -⟩ | ⟨-, -, hstart, -⟩
      · exact absurd hb' hb
      · exact ⟨lines.length - 1, by omega⟩
    rw [hn] at h ⊢
    exact h.cut hb .other

end Collected

/-! ## Both ways of cutting -/

theorem Cutting.take_collected {lines : List String} {s : Cutting} {i : Nat} {line : String}
    (limit : Int) (h : Collected lines s.done s.buffer i) (hline : lines[i]? = some line) :
    Collected lines (s.take limit i line).done (s.take limit i line).buffer (i + 1) := by
  by_cases hne : line = ""
  · subst hne
    exact h.skip hline
  · exact (h.push hline hne).step (Cutting.take_step limit s i hne) fun _ => by simp [Buffer.push]

theorem takeBlockLine_collected {lines : List String} {s : List Piece × Buffer} {i : Nat}
    {line : String} (limit : Int) (next : String) (h : Collected lines s.1 s.2 i)
    (hline : lines[i]? = some line) :
    Collected lines (takeBlockLine limit s i line next).1 (takeBlockLine limit s i line next).2
      (i + 1) := by
  have hb : Collected lines s.1 (if line.isEmpty then s.2 else s.2.push i line) (i + 1) := by
    by_cases hne : line = ""
    · subst hne
      exact h.skip hline
    · rw [if_neg (by simpa using hne)]
      exact h.push hline hne
  exact hb.step (takeBlockLine_step limit s i line next) id

theorem foldl_take_collected {lines : List String} (limit : Int) (rest : List String) :
    ∀ (before : List String) (s : Cutting), lines = before ++ rest →
      Collected lines s.done s.buffer before.length →
      let t := (rest.zipIdx before.length).foldl
        (fun (s : Cutting) (line, i) => s.take limit i line) s
      Collected lines t.done t.buffer lines.length := by
  induction rest with
  | nil =>
    intro before s hlines h
    simpa [hlines] using h
  | cons line rest ih =>
    intro before s hlines h
    have hline : lines[before.length]? = some line := by simp [hlines]
    have hnext := ih (before ++ [line]) (s.take limit before.length line) (by simp [hlines])
    rw [List.length_append, List.length_singleton] at hnext
    exact hnext (Cutting.take_collected limit h hline)

theorem cutByBodies_tiled (limit : Int) (lines : List String) :
    ∃ done, cutByBodies limit lines = done.reverse ∧ Tiled lines done lines.length := by
  have h := foldl_take_collected limit lines [] {} rfl (.inl ⟨rfl, .none (filled_self lines 0)⟩)
  exact ⟨_, rfl, h.finish⟩

theorem cutAtBoundaries_tiled {lines : List String} (limit : Int) (rest : List String) :
    ∀ (before : List String) (s : List Piece × Buffer), lines = before ++ rest →
      Collected lines s.1 s.2 before.length →
      ∃ done, cutAtBoundaries limit before.length rest s = done.reverse ∧
        Tiled lines done lines.length := by
  induction rest with
  | nil =>
    rintro before ⟨done, b⟩ hlines h
    rw [List.append_nil] at hlines
    subst hlines
    exact ⟨_, rfl, h.finish⟩
  | cons line rest ih =>
    intro before s hlines h
    have hline : lines[before.length]? = some line := by simp [hlines]
    have hnext := ih (before ++ [line])
      (takeBlockLine limit s before.length line (rest.head?.getD "")) (by simp [hlines])
    rw [List.length_append, List.length_singleton] at hnext
    exact hnext (takeBlockLine_collected limit _ h hline)

theorem cutByBlocks_tiled (limit : Int) (lines : List String) :
    ∃ done, cutByBlocks limit lines = done.reverse ∧ Tiled lines done lines.length :=
  cutAtBoundaries_tiled limit lines [] ([], {}) rfl (.inl ⟨rfl, .none (filled_self lines 0)⟩)

theorem cutFile_tiled (limit : Int) (lines : List String) :
    ∃ done, cutFile limit lines = done.reverse ∧ Tiled lines done lines.length := by
  unfold cutFile
  dsimp only
  split
  · exact cutByBodies_tiled limit lines
  · exact cutByBlocks_tiled limit lines

end Cartridge.Source
