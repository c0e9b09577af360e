import Cartridge.Project.Conversion
import Cartridge.Project.Scan
import Cartridge.Proofs.Source.Tiling
import Mathlib.Data.List.Basic

/-!
# The chunks of a file partition its lines

A file is handed over for conversion chunk by chunk. The chunks hold every line that is not empty
once and in order, whichever way the file was cut and whether it was cut at all.

* `Partitions`: chunks whose ranges of lines are in order and apart, take in every line that is not
  empty, and say what the chunks hold.
* `chunks_partition`: the chunks of a file partition its lines, and so do the pieces of either way
  of cutting; what is handed over for conversion is the file less its empty lines.
-/

namespace Cartridge.Source

/-- The lines of a text that are not empty. -/
def filledLines (text : String) : List String := (Text.lines text).filter (· ≠ "")

theorem filledLines_joinLines {lines : List String} (h : ∀ line ∈ lines, '\n' ∉ line.toList)
    (hfilled : ∀ line ∈ lines, line ≠ "") : filledLines (joinLines lines) = lines := by
  by_cases hne : lines = []
  · subst hne
    rfl
  · rw [filledLines, joinLines, Text.lines_joined hne h]
    exact List.filter_eq_self.mpr (by simpa using hfilled)

theorem filled_all (text : String) :
    filled (Text.lines text) 0 (Text.lines text).length = filledLines text := by
  rw [filled, List.take_length, List.drop_zero, filledLines]

theorem filled_of_mem {lines : List String} {a b : Nat} {line : String}
    (h : line ∈ filled lines a b) : line ∈ lines ∧ line ≠ "" := by
  obtain ⟨hmem, hne⟩ := List.mem_filter.mp h
  exact ⟨List.mem_of_mem_take (List.mem_of_mem_drop hmem), by simpa using hne⟩

/-! ## Chunks that partition the lines of a file -/

/-- Chunks of the file at a path that partition its lines. Lines are counted from one. -/
structure Partitions (path : String) (lines : List String) (chunks : List Chunk) : Prop where
  /-- A chunk is known by the path and by its number. -/
  id_eq : ∀ (k : Nat) (chunk : Chunk), chunks[k]? = some chunk →
    chunk.id = path ++ ":" ++ toString k
  /-- The ranges lie within the file. -/
  range : ∀ chunk ∈ chunks,
    1 ≤ chunk.firstLine ∧ chunk.firstLine ≤ chunk.lastLine ∧ chunk.lastLine ≤ lines.length
  increasing : chunks.Pairwise fun (chunk later : Chunk) => chunk.lastLine < later.firstLine
  /-- Every line that is not empty lies in the range of one chunk. -/
  covers : ∀ (n : Nat) (line : String), lines[n]? = some line → line ≠ "" →
    ∃! k : Nat, ∃ chunk : Chunk, chunks[k]? = some chunk ∧
      chunk.firstLine ≤ n + 1 ∧ n + 1 ≤ chunk.lastLine
  /-- A chunk holds the lines of its range that are not empty. -/
  content_eq : ∀ chunk ∈ chunks,
    chunk.content = joinLines (filled lines (chunk.firstLine - 1) chunk.lastLine)

theorem getElem?_chunksOf (path : String) (pieces : List Piece) (k : Nat) :
    (chunksOf path pieces)[k]? = pieces[k]?.map fun p =>
      { id := path ++ ":" ++ toString k, content := joinLines p.lines, kind := p.kind
        firstLine := p.first + 1, lastLine := p.last + 1
        references := references (joinLines p.lines) } := by
  simp [chunksOf, List.getElem?_zipIdx, Function.comp_def]

theorem exists_of_mem_chunksOf {path : String} {pieces : List Piece} {chunk : Chunk}
    (h : chunk ∈ chunksOf path pieces) :
    ∃ p ∈ pieces, chunk.firstLine = p.first + 1 ∧ chunk.lastLine = p.last + 1 ∧
      chunk.content = joinLines p.lines := by
  obtain ⟨k, hk⟩ := List.mem_iff_getElem?.mp h
  rw [getElem?_chunksOf] at hk
  obtain ⟨p, hp, rfl⟩ := Option.map_eq_some_iff.mp hk
  exact ⟨p, List.mem_of_getElem? hp, rfl, rfl, rfl⟩

theorem increasing_chunksOf (path : String) {pieces : List Piece}
    (h : pieces.Pairwise fun p q => p.last < q.first) :
    (chunksOf path pieces).Pairwise fun chunk later => chunk.lastLine < later.firstLine := by
  rw [List.pairwise_iff_getElem] at h ⊢
  intro i j hi hj hij
  have hlength : (chunksOf path pieces).length = pieces.length := by simp [chunksOf]
  have hlt := h i j (hlength ▸ hi) (hlength ▸ hj) hij
  simp only [chunksOf, List.getElem_map, List.getElem_zipIdx]
  omega

theorem map_content_chunksOf (path : String) (pieces : List Piece) :
    (chunksOf path pieces).map (·.content) = pieces.map fun p => joinLines p.lines := by
  refine List.ext_getElem? fun k => ?_
  rw [List.getElem?_map, List.getElem?_map, getElem?_chunksOf, Option.map_map]
  rfl

theorem eq_of_both_cover {chunks : List Chunk}
    (h : chunks.Pairwise fun chunk later => chunk.lastLine < later.firstLine) {j k n : Nat}
    {c d : Chunk} (hj : chunks[j]? = some c) (hk : chunks[k]? = some d)
    (hc : c.firstLine ≤ n ∧ n ≤ c.lastLine) (hd : d.firstLine ≤ n ∧ n ≤ d.lastLine) : j = k := by
  obtain ⟨hj', rfl⟩ := List.getElem?_eq_some_iff.mp hj
  obtain ⟨hk', rfl⟩ := List.getElem?_eq_some_iff.mp hk
  rw [List.pairwise_iff_getElem] at h
  rcases Nat.lt_trichotomy j k with hlt | heq | hlt
  · have := h j k hj' hk' hlt
    omega
  · exact heq
  · have := h k j hk' hj' hlt
    omega

/-- Pieces that tile the lines of a file make chunks that partition them. -/
theorem Tiled.partitions {lines : List String} {done : List Piece}
    (h : Tiled lines done lines.length) (path : String) :
    Partitions path lines (chunksOf path done.reverse) := by
  have hincreasing := increasing_chunksOf path (List.pairwise_reverse.mpr h.decreasing)
  refine ⟨?_, ?_, hincreasing, ?_, ?_⟩
  · intro k chunk hk
    rw [getElem?_chunksOf] at hk
    obtain ⟨p, -, rfl⟩ := Option.map_eq_some_iff.mp hk
    rfl
  · intro chunk hchunk
    obtain ⟨p, hp, hfirst, hlast, -⟩ := exists_of_mem_chunksOf hchunk
    obtain ⟨hrange, hinside, -⟩ := h.range (List.mem_reverse.mp hp)
    omega
  · intro n line hline hne
    obtain ⟨hn, -⟩ := List.getElem?_eq_some_iff.mp hline
    obtain ⟨p, hp, hfirst, hlast⟩ := h.covers hn hline hne
    obtain ⟨k, hk⟩ := List.mem_iff_getElem?.mp (List.mem_reverse.mpr hp)
    have hchunk := getElem?_chunksOf path done.reverse k
    rw [hk, Option.map_some] at hchunk
    have hrange : p.first + 1 ≤ n + 1 ∧ n + 1 ≤ p.last + 1 := by omega
    refine ⟨k, ⟨_, hchunk, hrange⟩, ?_⟩
    rintro j ⟨other, hother, hcovers⟩
    exact eq_of_both_cover hincreasing hother hchunk hcovers hrange
  · intro chunk hchunk
    obtain ⟨p, hp, hfirst, hlast, hcontent⟩ := exists_of_mem_chunksOf hchunk
    obtain ⟨-, -, hheld⟩ := h.range (List.mem_reverse.mp hp)
    rw [hcontent, hheld, hfirst, hlast, Nat.add_sub_cancel]

/-- The chunks of a tiling hold, one after another, the lines of the file that are not empty. -/
theorem Tiled.flatMap_content {text : String} {done : List Piece}
    (h : Tiled (Text.lines text) done (Text.lines text).length) (path : String) :
    ((chunksOf path done.reverse).map (·.content)).flatMap filledLines = filledLines text := by
  have hlines : ∀ p ∈ done.reverse, filledLines (joinLines p.lines) = p.lines := by
    intro p hp
    obtain ⟨-, -, hheld⟩ := h.range (List.mem_reverse.mp hp)
    refine filledLines_joinLines ?_ ?_
    · intro line hline
      rw [hheld] at hline
      exact Text.newline_not_mem_of_mem_lines (filled_of_mem hline).1
    · intro line hline
      rw [hheld] at hline
      exact (filled_of_mem hline).2
  rw [map_content_chunksOf, List.flatMap_map, List.flatMap_congr hlines, h.flatMap_lines,
    filled_all]

end Cartridge.Source

namespace Cartridge.Project

open Source

/-- The sources that are handed over for conversion when a file is converted, in order. -/
def handedOver (s : Schema) (o : Settings) (f : SourceFile) : List String :=
  (parts f).map fun chunk => (requestFor s o f chunk).source

theorem handedOver_eq (s : Schema) (o : Settings) (f : SourceFile) :
    handedOver s o f = (parts f).map (·.content) := rfl

/-- What is handed over for a file holds its lines that are not empty. -/
theorem flatMap_handedOver (rules : Config.ProjectRules) (location path content : String)
    (s : Schema) (o : Settings) :
    (handedOver s o (analyzed rules location path content)).flatMap filledLines =
      filledLines content := by
  have hwhole : ([wholeFile (analyzed rules location path content)].map (·.content)).flatMap
      filledLines = filledLines content := List.flatMap_singleton filledLines content
  obtain ⟨done, hcut, htiled⟩ := cutFile_tiled rules.chunkSize (Text.lines content)
  rw [handedOver_eq]
  unfold parts
  split
  · rename_i chunk rest hchunks
    have hall : Source.chunks rules.chunkSize path content = chunk :: rest := by
      simp only [analyzed] at hchunks
      split at hchunks
      · exact Option.some.inj hchunks
      · cases hchunks
    rw [← hall, Source.chunks, hcut, htiled.flatMap_content]
  · exact hwhole

/-- The chunks of a file, and those made by either way of cutting alone, partition its lines.
Whatever the limits, what is handed over for conversion has every line that is not empty once and in
order. -/
theorem chunks_partition (rules : Config.ProjectRules) (limit : Int)
    (location path content : String) (s : Schema) (o : Settings) :
    Partitions path (Text.lines content) (Source.chunks limit path content) ∧
      Partitions path (Text.lines content)
        (chunksOf path (cutByBodies limit (Text.lines content))) ∧
      Partitions path (Text.lines content)
        (chunksOf path (cutByBlocks limit (Text.lines content))) ∧
      (handedOver s o (analyzed rules location path content)).flatMap filledLines =
        filledLines content := by
  obtain ⟨file, hfile, hfiletiled⟩ := cutFile_tiled limit (Text.lines content)
  obtain ⟨bodies, hbodies, hbodiestiled⟩ := cutByBodies_tiled limit (Text.lines content)
  obtain ⟨blocks, hblocks, hblockstiled⟩ := cutByBlocks_tiled limit (Text.lines content)
  refine ⟨?_, ?_, ?_, flatMap_handedOver rules location path content s o⟩
  · rw [Source.chunks, hfile]
    exact hfiletiled.partitions path
  · rw [hbodies]
    exact hbodiestiled.partitions path
  · rw [hblocks]
    exact hblockstiled.partitions path

end Cartridge.Project
