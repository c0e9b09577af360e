import Cartridge.Proofs.Source.Sizes
import Mathlib.Data.List.Infix

/-!
# Bodies stay whole

In a file that is made of blocks, each of them one body from its first line to the brace that closes
it, cutting after bodies never cuts a block. What is carried over to the next block is small: it has
at most `smallBody` characters. A block that leaves as much room below the limit is therefore never
cut for its size.

* `IsBlock`: the lines of one body.
* `Carried`: what the cutting holds after the first lines of a block.
* `Carried.take`, `Carried.takeLast`: a line within a block, and the last line of a block.
* `bodies_whole`: the chunks of a file of blocks consist of whole blocks.
-/

namespace Cartridge.Source

/-! ## Blocks -/

/-- The braces that are open after some lines. -/
def openBraces (lines : List String) : Int :=
  lines.foldl (fun (braces : Int) line =>
    braces + (Text.count line '\x7b' : Int) - Text.count line '\x7d') 0

theorem openBraces_concat (front : List String) (line : String) :
    openBraces (front ++ [line]) =
      openBraces front + (Text.count line '\x7b' : Int) - Text.count line '\x7d' := by
  rw [openBraces, List.foldl_append, List.foldl_cons, List.foldl_nil, ← openBraces]

/-- The lines of one body: it begins in the first of them, and the brace that closes it stands in
the last. -/
structure IsBlock (block : List String) : Prop where
  filled : ∀ line ∈ block, line ≠ ""
  begins : ∃ first ∈ block.head?, blockStart.occursIn first = true
  opened : ∀ front, front ≠ [] → front <+: block → front ≠ block → 0 < openBraces front
  closed : openBraces block = 0
  ends : ∃ last ∈ block.getLast?, Text.contains last "\x7d" = true

theorem IsBlock.ne_nil {block : List String} (h : IsBlock block) : block ≠ [] := by
  obtain ⟨first, hfirst, -⟩ := h.begins
  rintro rfl
  cases hfirst

theorem isBlock_iff {block : List String} : IsBlock block ↔
    (∀ line ∈ block, line ≠ "") ∧ (∃ first ∈ block.head?, blockStart.occursIn first = true) ∧
      (∀ front ∈ block.inits, front ≠ [] → front ≠ block → 0 < openBraces front) ∧
      openBraces block = 0 ∧ ∃ last ∈ block.getLast?, Text.contains last "\x7d" = true := by
  constructor
  · intro h
    refine ⟨h.filled, h.begins, ?_, h.closed, h.ends⟩
    intro front hfront hne
    exact h.opened front hne ((List.mem_inits front block).mp hfront)
  · rintro ⟨filled, begins, opened, closed, ends⟩
    refine ⟨filled, begins, ?_, closed, ends⟩
    intro front hne hprefix
    exact opened front ((List.mem_inits front block).mpr hprefix) hne

instance (block : List String) : Decidable (IsBlock block) := decidable_of_iff _ isBlock_iff.symm

/-! ## A line of a body -/

namespace Cutting

variable {limit : Int} {s : Cutting} {i : Nat} {line : String}

/-- A line within a body joins the buffer. -/
theorem take_open (hne : line ≠ "") (hbody : (s.inBody || blockStart.occursIn line) = true)
    (hopen : 0 < s.braces + (Text.count line '\x7b' : Int) - Text.count line '\x7d')
    (hsize : (s.buffer.push i line).size ≤ limit) :
    s.take limit i line =
      { s with
        buffer := s.buffer.push i line
        braces := s.braces + (Text.count line '\x7b' : Int) - Text.count line '\x7d'
        inBody := true } := by
  have hempty : ¬ line.isEmpty = true := by simpa using hne
  have hbraces : decide (s.braces + (Text.count line '\x7b' : Int) - Text.count line '\x7d' ≤ 0) =
      false := decide_eq_false (by omega)
  rw [take, if_neg hempty]
  simp only [hbody, hbraces, Bool.and_false, Bool.false_and, Bool.false_eq_true, if_false]
  exact if_neg (Int.not_lt.mpr hsize)

/-- The line that closes a body joins the buffer, which is cut off if it is not small. -/
theorem take_close (hne : line ≠ "") (hbody : (s.inBody || blockStart.occursIn line) = true)
    (hclosed : s.braces + (Text.count line '\x7b' : Int) - Text.count line '\x7d' = 0)
    (hbrace : Text.contains line "\x7d" = true) (hsize : (s.buffer.push i line).size ≤ limit) :
    s.take limit i line =
      if smallBody < (s.buffer.push i line).size then
        { done := (s.buffer.push i line).piece i (kindOf (s.buffer.push i line).content) :: s.done }
      else { done := s.done, buffer := s.buffer.push i line } := by
  have hempty : ¬ line.isEmpty = true := by simpa using hne
  rw [take, if_neg hempty]
  simp only [hbody, hclosed, hbrace, Int.le_refl, decide_true, Bool.and_true, if_true]
  split
  · rfl
  · exact if_neg (Int.not_lt.mpr hsize)

end Cutting

/-! ## What is carried over -/

/-- Blocks that may make up a chunk: the last of them may be large. -/
def IsGroup (group : List (List String)) : Prop :=
  group ≠ [] ∧ ∀ block ∈ group.dropLast, (joinLines block).length ≤ smallBody

/-- Blocks that are small even together. -/
theorem isGroup_of_small {group : List (List String)} (hne : group ≠ [])
    (hsmall : (joinLines group.flatten).length ≤ smallBody) : IsGroup group := by
  refine ⟨hne, ?_⟩
  intro block hblock
  exact Nat.le_trans
    (length_joinLines_le_flatten ((List.dropLast_sublist group).subset hblock)) hsmall

/-- Small blocks and one more. -/
theorem isGroup_concat {held : List (List String)} (block : List String)
    (hsmall : (joinLines held.flatten).length ≤ smallBody) : IsGroup (held ++ [block]) := by
  refine ⟨by simp, ?_⟩
  intro small hmem
  rw [List.dropLast_concat] at hmem
  exact Nat.le_trans (length_joinLines_le_flatten hmem) hsmall

/-- What the cutting holds after some blocks and the first lines `front` of another. The pieces are
made of the blocks of `groups`. The buffer has the small blocks `held` and the first lines. -/
structure Carried (s : Cutting) (groups : List (List (List String))) (held : List (List String))
    (front : List String) : Prop where
  pieces : s.done.reverse.map (·.lines) = groups.map List.flatten
  grouped : ∀ group ∈ groups, IsGroup group
  lines : s.buffer.lines.reverse = held.flatten ++ front
  small : (joinLines held.flatten).length ≤ smallBody
  braces : s.braces = openBraces front
  inBody : s.inBody = !front.isEmpty

namespace Carried

variable {limit : Int} {s : Cutting} {groups : List (List (List String))}
  {held : List (List String)} {front rest : List String} {line : String}

theorem start : Carried {} [] [] [] where
  pieces := rfl
  grouped := by
    intro group hgroup
    cases hgroup
  lines := rfl
  small := Nat.zero_le _
  braces := rfl
  inBody := rfl

theorem push_lines (h : Carried s groups held front) (i : Nat) (line : String) :
    (s.buffer.push i line).lines.reverse = held.flatten ++ (front ++ [line]) := by
  rw [Buffer.lines_push, h.lines, List.append_assoc]

/-- The blocks carried over leave room for one more block. -/
theorem push_size (h : Carried s groups held front)
    (hsize : ((joinLines (front ++ line :: rest)).length : Int) ≤ limit - (smallBody + 1))
    (i : Nat) : (s.buffer.push i line).size ≤ limit := by
  have hprefix := length_joinLines_le_append (front ++ [line]) rest |>.1
  rw [List.append_assoc, List.singleton_append] at hprefix
  have hsmall := h.small
  rw [Buffer.size_eq, Buffer.content, h.push_lines]
  by_cases hheld : held.flatten = []
  · rw [hheld, List.nil_append]
    omega
  · rw [length_joinLines_append hheld (by simp)]
    omega

/-- The line belongs to a body, if only because that begins in it. -/
theorem inBody_or_begins (h : Carried s groups held front)
    (hblock : IsBlock (front ++ line :: rest)) :
    (s.inBody || blockStart.occursIn line) = true := by
  rw [h.inBody]
  cases front with
  | nil =>
    obtain ⟨first, hfirst, hbegins⟩ := hblock.begins
    obtain rfl : line = first := Option.some.inj hfirst
    exact hbegins
  | cons first front => rfl

/-- A line of a block that is not its last. -/
theorem take (h : Carried s groups held front) (hblock : IsBlock (front ++ line :: rest))
    (hrest : rest ≠ [])
    (hsize : ((joinLines (front ++ line :: rest)).length : Int) ≤ limit - (smallBody + 1))
    (i : Nat) : Carried (s.take limit i line) groups held (front ++ [line]) := by
  have hne : line ≠ "" := hblock.filled line (by simp)
  have hopen : 0 < openBraces (front ++ [line]) := by
    refine hblock.opened (front ++ [line]) (by simp) ⟨rest, by simp⟩ ?_
    simpa using hrest.symm
  rw [openBraces_concat, ← h.braces] at hopen
  rw [Cutting.take_open hne (h.inBody_or_begins hblock) hopen (h.push_size hsize i)]
  refine ⟨h.pieces, h.grouped, h.push_lines i line, h.small, ?_, ?_⟩
  · rw [openBraces_concat, ← h.braces]
  · simp

/-- The last line of a block. -/
theorem takeLast (h : Carried s groups held front) (hblock : IsBlock (front ++ [line]))
    (hsize : ((joinLines (front ++ [line])).length : Int) ≤ limit - (smallBody + 1)) (i : Nat) :
    ∃ groups' held', groups'.flatten ++ held' = groups.flatten ++ held ++ [front ++ [line]] ∧
      Carried (s.take limit i line) groups' held' [] := by
  have hne : line ≠ "" := hblock.filled line (by simp)
  have hclosed := hblock.closed
  rw [openBraces_concat, ← h.braces] at hclosed
  have hbrace : Text.contains line "\x7d" = true := by
    obtain ⟨last, hlast, hbrace⟩ := hblock.ends
    rw [List.getLast?_concat] at hlast
    obtain rfl : line = last := Option.some.inj hlast
    exact hbrace
  have hheld : (held ++ [front ++ [line]]).flatten = (s.buffer.push i line).lines.reverse := by
    rw [h.push_lines, List.flatten_append, List.flatten_singleton]
  rw [Cutting.take_close hne (h.inBody_or_begins hblock) hclosed hbrace (h.push_size hsize i)]
  split
  · refine ⟨groups ++ [held ++ [front ++ [line]]], [], by simp, ?_⟩
    refine ⟨?_, ?_, rfl, Nat.zero_le _, rfl, rfl⟩
    · rw [List.reverse_cons, List.map_append, h.pieces, List.map_append, List.map_singleton,
        List.map_singleton, hheld]
      rfl
    · exact List.forall_mem_append.mpr
        ⟨h.grouped, List.forall_mem_singleton.mpr (isGroup_concat _ h.small)⟩
  · rename_i hsmall
    rw [Buffer.size_eq, Buffer.content, ← hheld, Nat.not_lt] at hsmall
    refine ⟨groups, held ++ [front ++ [line]], by simp, ?_⟩
    exact ⟨h.pieces, h.grouped, by rw [← hheld, List.append_nil], hsmall, rfl, rfl⟩

/-- The lines of a block from some line on, with their numbers. -/
theorem takeBlock (entries : List (String × Nat)) :
    ∀ {s : Cutting} {front : List String}, entries ≠ [] → Carried s groups held front →
      IsBlock (front ++ entries.map (·.1)) →
      ((joinLines (front ++ entries.map (·.1))).length : Int) ≤ limit - (smallBody + 1) →
      ∃ groups' held',
        groups'.flatten ++ held' = groups.flatten ++ held ++ [front ++ entries.map (·.1)] ∧
        Carried (s.takeAll limit entries) groups' held' [] := by
  induction entries with
  | nil =>
    intro s front hne
    exact absurd rfl hne
  | cons entry entries ih =>
    intro s front _ h hblock hsize
    by_cases hlast : entries = []
    · subst hlast
      exact h.takeLast hblock hsize entry.2
    · have hstep := h.take hblock (by simpa using hlast) hsize entry.2
      have hlines : front ++ (entry :: entries).map (·.1) =
          front ++ [entry.1] ++ entries.map (·.1) := by simp
      rw [hlines] at hblock hsize ⊢
      exact ih hlast hstep hblock hsize

/-- The lines of some blocks, with their numbers. -/
theorem takeBlocks (blocks : List (List String)) :
    ∀ {s : Cutting} {groups : List (List (List String))} {held : List (List String)}
      {entries : List (String × Nat)}, Carried s groups held [] →
      entries.map (·.1) = blocks.flatten →
      (∀ block ∈ blocks, IsBlock block ∧
        ((joinLines block).length : Int) ≤ limit - (smallBody + 1)) →
      ∃ groups' held', groups'.flatten ++ held' = groups.flatten ++ held ++ blocks ∧
        Carried (s.takeAll limit entries) groups' held' [] := by
  induction blocks with
  | nil =>
    intro s groups held entries h hentries _
    obtain rfl : entries = [] := List.map_eq_nil_iff.mp hentries
    exact ⟨groups, held, by rw [List.append_nil], h⟩
  | cons block blocks ih =>
    intro s groups held entries h hentries hblocks
    obtain ⟨hblock, hrest⟩ := List.forall_mem_cons.mp hblocks
    rw [List.flatten_cons, List.map_eq_append_iff] at hentries
    obtain ⟨first, rest, rfl, rfl, hlines⟩ := hentries
    have hne : first ≠ [] := by simpa using hblock.1.ne_nil
    obtain ⟨groups₁, held₁, hall₁, h₁⟩ := takeBlock first hne h hblock.1 hblock.2
    obtain ⟨groups₂, held₂, hall₂, h₂⟩ := ih h₁ hlines hrest
    refine ⟨groups₂, held₂, ?_, by rwa [Cutting.takeAll, List.foldl_append]⟩
    rw [hall₂, hall₁, List.nil_append, List.append_assoc, List.singleton_append]

/-- What is carried over at the end becomes a piece as well. -/
theorem finish (h : Carried s groups held []) (hheld : ∀ block ∈ held, block ≠ []) (count : Nat) :
    ∃ groups' : List (List (List String)), groups'.flatten = groups.flatten ++ held ∧
      (s.finish count).map (·.lines) = groups'.map List.flatten ∧
      ∀ group ∈ groups', IsGroup group := by
  have hlines := h.lines
  rw [List.append_nil] at hlines
  by_cases hempty : s.buffer.lines = []
  · have hnone : held = [] := by
      rw [hempty, List.reverse_nil, eq_comm, List.flatten_eq_nil_iff] at hlines
      apply List.eq_nil_iff_forall_not_mem.mpr
      intro block hmem
      exact hheld block hmem (hlines block hmem)
    refine ⟨groups, by rw [hnone, List.append_nil], ?_, h.grouped⟩
    rw [Cutting.finish, if_pos (by simpa using hempty), h.pieces]
  · have hne : held ≠ [] := by
      intro hnone
      rw [hnone, List.flatten_nil, List.reverse_eq_nil_iff] at hlines
      exact hempty hlines
    refine ⟨groups ++ [held], by simp, ?_, ?_⟩
    · rw [Cutting.finish, if_neg (by simpa using hempty), List.reverse_cons, List.map_append,
        h.pieces, List.map_append, List.map_singleton, List.map_singleton, ← hlines]
      rfl
    · exact List.forall_mem_append.mpr
        ⟨h.grouped, List.forall_mem_singleton.mpr (isGroup_of_small hne h.small)⟩

end Carried

/-! ## Files of blocks -/

/-- Lines that are empty are passed over. -/
theorem takeAll_filled (limit : Int) (entries : List (String × Nat)) (s : Cutting) :
    s.takeAll limit entries = s.takeAll limit (entries.filter (·.1 ≠ "")) := by
  rw [Cutting.takeAll, Cutting.takeAll, List.foldl_filter]
  congr
  funext s entry
  split
  · rfl
  · rename_i hempty
    have hline : entry.1 = "" := by simpa using hempty
    rw [Cutting.take, hline]
    rfl

theorem map_fst_filled (lines : List String) :
    (lines.zipIdx.filter (·.1 ≠ "")).map (·.1) = lines.filter (· ≠ "") := by
  calc (lines.zipIdx.filter (·.1 ≠ "")).map (·.1)
      = (lines.zipIdx.map (·.1)).filter (· ≠ "") := by
        rw [List.filter_map]
        rfl
    _ = lines.filter (· ≠ "") := by rw [List.zipIdx_map_fst]

/-- In a file that consists of blocks and empty lines, and whose blocks all have at least 101
characters fewer than the limit, no block is cut: a chunk is made of consecutive blocks, and only
the last of them may have more than 100 characters. -/
theorem bodies_whole (path content : String) (limit : Int) (blocks : List (List String))
    (hblocks : ∀ block ∈ blocks,
      IsBlock block ∧ ((joinLines block).length : Int) ≤ limit - 101)
    (hfile : filledLines content = blocks.flatten) :
    ∃ groups : List (List (List String)), groups.flatten = blocks ∧
      (chunksOf path (cutByBodies limit (Text.lines content))).map (·.content) =
        groups.map (fun group => joinLines group.flatten) ∧
      ∀ group ∈ groups,
        group ≠ [] ∧ ∀ block ∈ group.dropLast, (joinLines block).length ≤ 100 := by
  have hentries : ((Text.lines content).zipIdx.filter (·.1 ≠ "")).map (·.1) = blocks.flatten := by
    rw [map_fst_filled]
    exact hfile
  obtain ⟨groups, held, hall, hcarried⟩ := Carried.start.takeBlocks blocks hentries hblocks
  rw [← takeAll_filled] at hcarried
  have hheld : ∀ block ∈ held, block ≠ [] := by
    intro block hmem
    have hblock : block ∈ [].flatten ++ [] ++ blocks := by
      rw [← hall]
      exact List.mem_append_right groups.flatten hmem
    exact (hblocks block hblock).1.ne_nil
  obtain ⟨groups', hall', hpieces, hgroups⟩ := hcarried.finish hheld (Text.lines content).length
  refine ⟨groups', by rw [hall', hall]; rfl, ?_, hgroups⟩
  rw [map_content_chunksOf]
  calc (cutByBodies limit (Text.lines content)).map (fun p => joinLines p.lines)
      = ((cutByBodies limit (Text.lines content)).map (·.lines)).map joinLines := by
        rw [List.map_map]
        rfl
    _ = (groups'.map List.flatten).map joinLines := congrArg (List.map joinLines) hpieces
    _ = groups'.map (fun group => joinLines group.flatten) := by
        rw [List.map_map]
        rfl

/-- A small class is carried over into the chunk of a large function, and another one follows. -/
theorem bodies_whole_of_classes :
    let small := ["class A \x7b", "x", "\x7d"]
    let large := ["function drawAll(points) \x7b",
      "  for (const p of points) \x7b putSprite(p.x, p.y, SPRITE_OF_THE_POINT, PALETTE); \x7d",
      "\x7d"]
    let content := "\n" ++ joinLines small ++ "\n\n" ++ joinLines large ++ "\n\n\n" ++
      joinLines small ++ "\n"
    (∀ block ∈ [small, large, small],
      IsBlock block ∧ ((joinLines block).length : Int) ≤ 210 - 101) ∧
    filledLines content = [small, large, small].flatten ∧
    ∃ groups : List (List (List String)), groups.flatten = [small, large, small] ∧
      (chunksOf "a.ts" (cutByBodies 210 (Text.lines content))).map (·.content) =
        groups.map (fun group => joinLines group.flatten) ∧
      ∀ group ∈ groups,
        group ≠ [] ∧ ∀ block ∈ group.dropLast, (joinLines block).length ≤ 100 := by
  intro small large content
  have hblocks : ∀ block ∈ [small, large, small],
      IsBlock block ∧ ((joinLines block).length : Int) ≤ 210 - 101 := by decide +kernel
  have hfile : filledLines content = [small, large, small].flatten := by decide +kernel
  exact ⟨hblocks, hfile, bodies_whole "a.ts" content 210 [small, large, small] hblocks hfile⟩

end Cartridge.Source
