import Cartridge.Proofs.Project.Parts

/-!
# The sizes of pieces

A buffer that stays is within the limit, whichever way a file is cut. So a piece has outgrown the
limit, if at all, by its last line and the newline before it. When a file is cut after bodies, a
piece is cut off for its size only, and only what is left over at the end of the file may be small.

* `length_joinLines_concat`, `Buffer.size_eq`: how long lines are once they are joined.
* `Sized`, `Sized.step`: what one line keeps of the sizes of the pieces and of the buffer.
* `chunk_sizes`: the sizes of the chunks of a file.
-/

namespace Cartridge.Source

/-! ## The length of joined lines -/

theorem length_joinLines_singleton (line : String) :
    (joinLines [line]).length = line.length := by
  rw [joinLines, Text.joined, String.intercalate_singleton]

theorem length_joinLines_append {front back : List String} (hfront : front ≠ [])
    (hback : back ≠ []) :
    (joinLines (front ++ back)).length =
      (joinLines front).length + 1 + (joinLines back).length := by
  rw [joinLines, Text.joined, String.intercalate_append_of_ne_nil hfront hback,
    String.length_append, String.length_append]
  rfl

theorem length_joinLines_concat {front : List String} (h : front ≠ []) (last : String) :
    (joinLines (front ++ [last])).length = (joinLines front).length + 1 + last.length := by
  rw [length_joinLines_append h (List.cons_ne_nil last []), length_joinLines_singleton]

theorem length_joinLines_le_append (front back : List String) :
    (joinLines front).length ≤ (joinLines (front ++ back)).length ∧
      (joinLines back).length ≤ (joinLines (front ++ back)).length := by
  by_cases hfront : front = []
  · subst hfront
    exact ⟨Nat.zero_le _, Nat.le_refl _⟩
  · by_cases hback : back = []
    · rw [hback, List.append_nil]
      exact ⟨Nat.le_refl _, Nat.zero_le _⟩
    · rw [length_joinLines_append hfront hback]
      omega

theorem length_joinLines_le_flatten {blocks : List (List String)} {block : List String}
    (h : block ∈ blocks) : (joinLines block).length ≤ (joinLines blocks.flatten).length := by
  obtain ⟨before, after, rfl⟩ := List.append_of_mem h
  rw [List.flatten_append, List.flatten_cons]
  exact Nat.le_trans (length_joinLines_le_append block after.flatten).1
    (length_joinLines_le_append before.flatten (block ++ after.flatten)).2

theorem Buffer.lines_push (b : Buffer) (i : Nat) (line : String) :
    (b.push i line).lines.reverse = b.lines.reverse ++ [line] := List.reverse_cons

theorem Buffer.size_eq (b : Buffer) : b.size = b.content.length := by
  obtain ⟨lines, start⟩ := b
  induction lines with
  | nil => rfl
  | cons line rest ih =>
    have hsize : (Buffer.mk (line :: rest) start).size =
        line.length + (rest.map String.length).foldr (· + ·) 0 + rest.length := rfl
    by_cases hrest : rest = []
    · subst hrest
      exact hsize.trans (length_joinLines_singleton line).symm
    · have hpos : 0 < rest.length := List.length_pos_iff.mpr hrest
      have hcontent : (Buffer.mk (line :: rest) start).content.length =
          (joinLines rest.reverse).length + 1 + line.length := by
        rw [Buffer.content, List.reverse_cons, length_joinLines_concat (by simpa using hrest)]
      have hrestSize : (rest.map String.length).foldr (· + ·) 0 + (rest.length - 1) =
          (joinLines rest.reverse).length := ih
      omega

/-! ## All lines but the last -/

/-- Lines that have at most `limit` characters, joined, without the last of them. -/
def Within (limit : Nat) (lines : List String) : Prop := (joinLines lines.dropLast).length ≤ limit

theorem within_concat {limit : Nat} {front : List String} {last : String} :
    Within limit (front ++ [last]) ↔ (joinLines front).length ≤ limit := by
  rw [Within, List.dropLast_concat]

/-- A buffer that was within the limit and has just taken a line is within the limit without that
line. -/
theorem Buffer.push_within {limit : Nat} {b : Buffer} (h : b.size ≤ limit) (i : Nat)
    (line : String) : Within limit (b.push i line).lines.reverse := by
  rw [lines_push, within_concat]
  rwa [Buffer.size_eq] at h

theorem Buffer.within_of_size_le {limit : Nat} {b : Buffer} (h : b.size ≤ limit) :
    Within limit b.lines.reverse := by
  rw [Buffer.size_eq, Buffer.content] at h
  rcases List.eq_nil_or_concat' b.lines.reverse with hnil | ⟨front, last, hlines⟩
  · rw [hnil]
    exact Nat.zero_le limit
  · rw [hlines] at h ⊢
    exact within_concat.mpr (Nat.le_trans (length_joinLines_le_append front [last]).1 h)

/-! ## Both ways of cutting -/

/-- Pieces that are cut off when they have at least `least` characters, and a buffer, all of them
within the limit as far as that is possible. -/
structure Sized (limit least : Nat) (done : List Piece) (b : Buffer) : Prop where
  buffer : b.size ≤ limit
  within : ∀ p ∈ done, Within limit p.lines
  large : ∀ p ∈ done, least ≤ (joinLines p.lines).length

namespace Sized

variable {limit least : Nat} {done done' : List Piece} {b b' : Buffer}

theorem empty : Sized limit least [] {} := by
  refine ⟨Nat.zero_le limit, ?_, ?_⟩
  · intro p hp
    cases hp
  · intro p hp
    cases hp

theorem step {i : Nat} {kept cut : Prop} {b₀ : Buffer} (h : Sized limit least done b₀)
    (hs : Step i kept cut done b done' b') (hwithin : Within limit b.lines.reverse)
    (hkept : kept → b.size ≤ limit) (hcut : cut → least ≤ b.size) :
    Sized limit least done' b' := by
  cases hs with
  | stay hk => exact ⟨hkept hk, h.within, h.large⟩
  | cut kind hc =>
    have hlarge : least ≤ b.content.length := by
      rw [← Buffer.size_eq]
      exact hcut hc
    exact ⟨Nat.zero_le limit, List.forall_mem_cons.mpr ⟨hwithin, h.within⟩,
      List.forall_mem_cons.mpr ⟨hlarge, h.large⟩⟩

/-- What is left in the buffer becomes the last piece, of whatever size. -/
theorem finish (h : Sized limit least done b) {last : Nat} {kind : ChunkKind} {pieces : List Piece}
    (hpieces : pieces = (if b.lines.isEmpty then done else b.piece last kind :: done).reverse) :
    (∀ p ∈ pieces, Within limit p.lines) ∧
      ∀ p ∈ pieces.dropLast, least ≤ (joinLines p.lines).length := by
  subst hpieces
  split
  · constructor
    · intro p hp
      exact h.within p (List.mem_reverse.mp hp)
    · intro p hp
      exact h.large p (List.mem_reverse.mp ((List.dropLast_sublist _).subset hp))
  · rw [List.reverse_cons, List.dropLast_concat]
    constructor
    · intro p hp
      rcases List.mem_append.mp hp with hp | hp
      · exact h.within p (List.mem_reverse.mp hp)
      · rw [List.mem_singleton] at hp
        subst hp
        exact Buffer.within_of_size_le h.buffer
    · intro p hp
      exact h.large p (List.mem_reverse.mp hp)

end Sized

namespace Cutting

/-- Takes lines with their numbers, one after another. -/
def takeAll (limit : Int) (s : Cutting) (entries : List (String × Nat)) : Cutting :=
  entries.foldl (fun s entry => s.take limit entry.2 entry.1) s

theorem take_sized {limit : Nat} {s : Cutting}
    (h : Sized limit (min smallBody limit + 1) s.done s.buffer) (i : Nat) (line : String) :
    Sized limit (min smallBody limit + 1) (s.take limit i line).done
      (s.take limit i line).buffer := by
  by_cases hne : line = ""
  · subst hne
    exact h
  · apply h.step (take_step limit s i hne) (Buffer.push_within h.buffer i line)
    · intro hkept
      omega
    · intro hcut
      omega

theorem takeAll_sized {limit : Nat} (entries : List (String × Nat)) :
    ∀ {s : Cutting}, Sized limit (min smallBody limit + 1) s.done s.buffer →
      Sized limit (min smallBody limit + 1) (s.takeAll limit entries).done
        (s.takeAll limit entries).buffer := by
  induction entries with
  | nil =>
    intro s h
    exact h
  | cons entry entries ih =>
    intro s h
    exact ih (take_sized h entry.2 entry.1)

end Cutting

theorem cutByBodies_eq (limit : Int) (lines : List String) :
    cutByBodies limit lines = (Cutting.takeAll limit {} lines.zipIdx).finish lines.length := rfl

theorem cutByBodies_sized (limit : Nat) (lines : List String) :
    (∀ p ∈ cutByBodies limit lines, Within limit p.lines) ∧
      ∀ p ∈ (cutByBodies limit lines).dropLast,
        min smallBody limit < (joinLines p.lines).length := by
  rw [cutByBodies_eq]
  exact (Cutting.takeAll_sized lines.zipIdx Sized.empty).finish rfl

/-- A buffer that reaches the limit is cut off, and so is a smaller one at a boundary. -/
theorem takeBlockLine_sized {limit : Nat} {s : List Piece × Buffer} (h : Sized limit 0 s.1 s.2)
    (i : Nat) (line next : String) :
    Sized limit 0 (takeBlockLine limit s i line next).1 (takeBlockLine limit s i line next).2 := by
  apply h.step (takeBlockLine_step limit s i line next)
  · split
    · exact Buffer.within_of_size_le h.buffer
    · exact Buffer.push_within h.buffer i line
  · rintro (hempty | hsize)
    · rw [Buffer.size, hempty]
      exact Nat.zero_le limit
    · omega
  · intro _
    exact Nat.zero_le _

theorem cutAtBoundaries_within {limit : Nat} (lines : List String) :
    ∀ (i : Nat) (s : List Piece × Buffer), Sized limit 0 s.1 s.2 →
      ∀ p ∈ cutAtBoundaries limit i lines s, Within limit p.lines := by
  induction lines with
  | nil =>
    intro i s h
    exact (h.finish rfl).1
  | cons line rest ih =>
    intro i s h
    exact ih (i + 1) _ (takeBlockLine_sized h i line _)

/-! ## The chunks of a file -/

theorem exists_lines_of_within {limit : Nat} {lines : List String}
    (hlines : ∀ line ∈ lines, '\n' ∉ line.toList) (h : Within limit lines) :
    ∃ front last, Text.lines (joinLines lines) = front ++ [last] ∧
      (joinLines front).length ≤ limit ∧ (joinLines lines).length ≤ limit + 1 + last.length := by
  rcases List.eq_nil_or_concat' lines with rfl | ⟨front, last, rfl⟩
  · exact ⟨[], "", rfl, Nat.zero_le limit, Nat.zero_le _⟩
  · rw [within_concat] at h
    refine ⟨front, last, Text.lines_joined (by simp) hlines, h, ?_⟩
    by_cases hfront : front = []
    · subst hfront
      rw [List.nil_append, length_joinLines_singleton]
      omega
    · rw [length_joinLines_concat hfront]
      omega

theorem exists_lines_of_mem_chunksOf {limit : Nat} {path content : String}
    {pieces done : List Piece} (hpieces : pieces = done.reverse)
    (htiled : Tiled (Text.lines content) done (Text.lines content).length)
    (h : ∀ p ∈ pieces, Within limit p.lines) {chunk : Chunk}
    (hchunk : chunk ∈ chunksOf path pieces) :
    ∃ front last, Text.lines chunk.content = front ++ [last] ∧
      (joinLines front).length ≤ limit ∧ chunk.content.length ≤ limit + 1 + last.length := by
  obtain ⟨p, hp, -, -, hcontent⟩ := exists_of_mem_chunksOf hchunk
  rw [hcontent]
  apply exists_lines_of_within _ (h p hp)
  intro line hline
  rw [hpieces, List.mem_reverse] at hp
  rw [(htiled.range hp).2.2] at hline
  exact Text.newline_not_mem_of_mem_lines (filled_of_mem hline).1

/-- Without its last line and the newline before that, a chunk is within the limit, whichever way
the file was cut. Chunks that end with bodies have more than 100 characters or else more than the
limit, the last one excepted. -/
theorem chunk_sizes (path content : String) (limit : Nat) :
    (∀ chunk ∈ chunksOf path (cutByBodies limit (Text.lines content)) ++
        chunksOf path (cutByBlocks limit (Text.lines content)),
      ∃ front last, Text.lines chunk.content = front ++ [last] ∧
        (joinLines front).length ≤ limit ∧ chunk.content.length ≤ limit + 1 + last.length) ∧
    ∀ chunk ∈ (chunksOf path (cutByBodies limit (Text.lines content))).dropLast,
      min 100 limit < chunk.content.length := by
  have hbodies := cutByBodies_sized limit (Text.lines content)
  constructor
  · intro chunk hchunk
    rcases List.mem_append.mp hchunk with hchunk | hchunk
    · obtain ⟨done, hdone, htiled⟩ := cutByBodies_tiled limit (Text.lines content)
      exact exists_lines_of_mem_chunksOf hdone htiled hbodies.1 hchunk
    · obtain ⟨done, hdone, htiled⟩ := cutByBlocks_tiled limit (Text.lines content)
      exact exists_lines_of_mem_chunksOf hdone htiled
        (cutAtBoundaries_within (Text.lines content) 0 ([], {}) Sized.empty) hchunk
  · intro chunk hchunk
    have hcontent : chunk.content ∈
        (cutByBodies limit (Text.lines content)).dropLast.map fun p => joinLines p.lines := by
      rw [List.map_dropLast, ← map_content_chunksOf path, ← List.map_dropLast]
      exact List.mem_map_of_mem hchunk
    obtain ⟨p, hp, hp'⟩ := List.mem_map.mp hcontent
    rw [← hp']
    exact hbodies.2 p hp

/-- A chunk that its second line made larger than the limit. -/
theorem chunk_sizes_of_function :
    let content := "function f() \x7b\n  return 1;\n\x7d\nconst g = 2;\n\nlet answer = f() + g;"
    let bodies := chunksOf "a.ts" (cutByBodies (18 : Nat) (Text.lines content))
    let chunk : Chunk :=
      ⟨"a.ts:0", "function f() \x7b\n  return 1;", .other, 1, 2, ["f", "return"]⟩
    chunk ∈ bodies.dropLast ∧
      (∃ front last, Text.lines chunk.content = front ++ [last] ∧
        (joinLines front).length ≤ 18 ∧ chunk.content.length ≤ 18 + 1 + last.length) ∧
      min 100 18 < chunk.content.length := by
  intro content bodies chunk
  have hchunk : chunk ∈ bodies.dropLast := by decide
  have hsizes := chunk_sizes "a.ts" content 18
  have hmem : chunk ∈ bodies := (List.dropLast_sublist bodies).subset hchunk
  exact ⟨hchunk, hsizes.1 chunk (List.mem_append_left _ hmem), hsizes.2 chunk hchunk⟩

end Cartridge.Source
