import Cartridge.Code.Estimate
import Cartridge.Code.Includes
import Cartridge.Json.Basic
import Cartridge.Project.Basic
import Cartridge.Quantity

/-!
# Assembly

How the C code of chunks becomes the code of a file, the code of files the code of a project, and
what is said of the project as a whole.
-/

namespace Cartridge

/-- What became of a chunk. -/
structure ChunkResult (R : Type) where
  id : String
  code : String
  cost : R
  duration : R
  quality : R

/-- What became of a file. -/
structure FileResult (R : Type) where
  path : String
  chunks : List (ChunkResult R)
  code : String
  cost : R
  duration : R
  quality : R

/-- Figures and remarks on a whole project. -/
structure ProjectNotes where
  fileCount : Nat
  chunkCount : Nat
  sourceSize : Nat
  codeSize : Nat
  romSize : Int
  ramUsage : Int
  dependencies : List String
  optimizations : List String
  warnings : List String
  deriving DecidableEq, Repr

/-- What became of a project. -/
structure ProjectResult (R : Type) where
  files : List (FileResult R)
  code : String
  cost : R
  duration : R
  quality : R
  notes : ProjectNotes

namespace Project

/-- The lines that open the code of a file. -/
def fileHeader (path : String) : String :=
  "// Generated from " ++ path ++ "\n#include <gb/gb.h>\n#include <stdio.h>\n\n"

/-- The lines that open the code of a project. -/
def projectHeader : String :=
  "// GameBoy Project - Generated by GBTS AI\n#include <gb/gb.h>\n#include <stdio.h>\n\n"

/-- The code of a file, put together from that of its chunks. -/
def combineChunks (path : String) (codes : List String) : String :=
  fileHeader path ++
    Text.joined "\n\n" (codes.map fun code => Text.stripped (Code.withoutStandardIncludes code))

/-- A comment for each exported name. -/
def forwardDeclarations (files : List SourceFile) : String :=
  let names := (files.flatMap (·.exports)).filter fun n => n ≠ "" && n ≠ "default"
  if names.isEmpty then ""
  else Text.joined "\n" (names.map ("// Forward declaration for " ++ ·)) ++ "\n"

/-- The code of a project, put together from the paths and the code of its files. -/
def combineFiles (sources : List SourceFile) (codes : List (String × String)) : String :=
  let parts := codes.map fun (path, code) => "// === " ++ path ++ " ===\n" ++ code
  projectHeader ++ forwardDeclarations sources ++ "\n" ++
    Code.withoutStandardIncludes (Text.joined "\n\n" parts)

/-- A size with a factor of so many tenths, rounded up. -/
def scaledSize (size : Nat) (tenths : Int) : Int :=
  Quantity.ceiling (Quantity.ofNat size * Quantity.ofRatio tenths 10 : Float)

/-- Figures and remarks on a project whose files have the given codes and numbers of chunks. -/
def notes (p : Project) (codes : List String) (chunkCount : Nat) : ProjectNotes :=
  let codeSize := (codes.map String.length).foldr (· + ·) 0
  let rom := scaledSize codeSize 12
  let ram := scaledSize codeSize 1
  { fileCount := codes.length
    chunkCount
    sourceSize := (p.files.map (·.size)).foldr (· + ·) 0
    codeSize
    romSize := rom
    ramUsage := ram
    dependencies := (p.dependencies.flatMap (·.2)).eraseDups
    optimizations :=
      ["Multi-file project structure", "Intelligent code chunking"] ++
        if codes.length < chunkCount then
          ["Code chunked into " ++ toString chunkCount ++ " manageable pieces"]
        else []
    warnings :=
      (if (Code.consoleRom : Int) < rom then ["Estimated ROM size exceeds GameBoy limit (32KB)"]
        else []) ++
      (if (Code.consoleRam : Int) < ram then ["Estimated RAM usage exceeds GameBoy limit (8KB)"]
        else []) }

end Project

/-- Figures and remarks on a project as a data document. -/
def ProjectNotes.toJson (n : ProjectNotes) : Json :=
  let strings (items : List String) : Json := .arr (items.map .str)
  .obj
    [("total_files", .int n.fileCount), ("total_chunks", .int n.chunkCount),
     ("total_original_size", .int n.sourceSize), ("total_transpiled_size", .int n.codeSize),
     ("estimated_rom_size", .int n.romSize), ("estimated_ram_usage", .int n.ramUsage),
     ("dependencies", strings n.dependencies), ("optimizations", strings n.optimizations),
     ("warnings", strings n.warnings)]

end Cartridge
