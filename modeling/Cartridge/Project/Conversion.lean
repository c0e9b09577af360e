import Cartridge.Project.Assembly
import Cartridge.Project.Order
import Cartridge.Project.Schema
import Cartridge.Studio

/-!
# Conversion of projects

Turns a project into C: file by file, each after those that it needs, and chunk by chunk within a
file. Each chunk is told what it has to know of the project and given to a transpiler. The first
chunk that fails ends the run.

* `parts_ne_nil`: every file has at least one part.
-/

namespace Cartridge.Project

variable {R : Type} [Quantity R] [Inhabited R]

/-- The chunk of a file that is handled at once. -/
def wholeFile (f : SourceFile) : Source.Chunk where
  id := f.path ++ ":0"
  content := f.content
  kind := .other
  firstLine := 1
  lastLine := (Text.lines f.content).length
  references := []

/-- The chunks of a file; a file that was not cut is one chunk. -/
def parts (f : SourceFile) : List Source.Chunk :=
  match f.chunks with
  | some (c :: rest) => c :: rest
  | _ => [wholeFile f]

theorem parts_ne_nil (f : SourceFile) : parts f ≠ [] := by
  unfold parts
  split <;> simp

/-- How every chunk of a project is to be handled. -/
structure Settings where
  target : Target := {}
  useCache : Bool := true
  attempts : Int := 3

def requestFor (s : Schema) (o : Settings) (f : SourceFile) (chunk : Source.Chunk) : Request where
  source := chunk.content
  target := s.chunkTarget chunk f o.target
  useCache := o.useCache
  attempts := o.attempts

/-- The result of a chunk that was converted. -/
def chunkResult (chunk : Source.Chunk) (r : Conversion R) : ChunkResult R where
  id := chunk.id
  code := r.code
  cost := r.cost
  duration := r.duration
  quality := r.quality

/-- The result of a file, put together from those of its chunks. -/
def fileResult (f : SourceFile) (chunks : List (ChunkResult R)) : FileResult R where
  path := f.path
  chunks
  code := combineChunks f.path (chunks.map (·.code))
  cost := Quantity.total (chunks.map (·.cost))
  duration := Quantity.total (chunks.map (·.duration))
  quality := Quantity.total (chunks.map (·.quality)) / Quantity.ofNat chunks.length

/-- The name of the file with the code of a source file. -/
def codeName (path : String) : String := (Path.ofString path).stem ++ ".c"

/-- Says how many types and functions a schema has. -/
def schemaMessage (s : Schema) : String :=
  "Global schema created with " ++ toString s.types.length ++ " types, " ++
    toString s.functions.length ++ " functions"

/-- Says how many chunks there are. -/
def chunkMessage (count : Nat) (limit : Int) : String :=
  "Files chunked: " ++ toString count ++ " total chunks (max " ++ toString limit ++
    " chars per chunk)"

/-- The result of a project whose files took some time. -/
def resultOf (p : Project) (files : List (FileResult R)) (duration : R) : ProjectResult R where
  files
  code := combineFiles p.files (files.map fun f => (f.path, f.code))
  cost := Quantity.total (files.map (·.cost))
  duration
  quality := Quantity.total (files.map (·.quality)) / Quantity.ofNat files.length
  notes := p.notes (files.map (·.code)) ((files.map (·.chunks.length)).foldr (· + ·) 0)

/-- Says what became of a project. -/
def resultMessage (r : ProjectResult R) : String :=
  "Files: " ++ toString r.files.length ++ " | Chunks: " ++ toString r.notes.chunkCount ++
    " | Cost: $" ++ Quantity.fixed 4 r.cost ++ " | Quality: " ++
    Quantity.fixed 1 (r.quality * Quantity.ofNat 100) ++ "%"

section Run

variable (transpile : Request → Workbench.Task R (Conversion R))

def convertChunk (s : Schema) (o : Settings) (f : SourceFile) (chunk : Source.Chunk) :
    Studio.Task R (ChunkResult R) := do
  match ← Run.attempt (Studio.work (transpile (requestFor s o f chunk))) with
  | .error e =>
    Studio.say (·.error ("Failed to transpile chunk " ++ chunk.id))
    Run.stop e
  | .ok r =>
    if 1 < (parts f).length then
      Studio.say (·.info ("  Chunk " ++ chunk.id ++ " completed (" ++ toString r.code.length ++
        " chars)"))
    return chunkResult chunk r

/-- Converts a file, the one with the given number of so many. -/
def convertFile (s : Schema) (o : Settings) (count : Nat) (file : SourceFile × Nat) :
    Studio.Task R (FileResult R) := do
  let (f, number) := file
  Studio.say (·.info ("Processing " ++ f.path ++ " (" ++ toString number ++ "/" ++
    toString count ++ ")"))
  let chunks ← Run.each (convertChunk transpile s o f) (parts f)
  Studio.say (·.success (f.path ++ " → " ++ codeName f.path))
  return fileResult f chunks

def convertFiles (p : Project) (o : Settings) : Studio.Task R (ProjectResult R) := do
  Studio.say (·.start "Building global project schema")
  let s := Schema.ofProject p
  Studio.say (·.success (schemaMessage s))
  let chunkCount := (p.files.map fun f => (parts f).length).foldr (· + ·) 0
  let limit := (← Run.get).config.project.chunkSize
  if p.files.length < chunkCount then Studio.say (·.info (chunkMessage chunkCount limit))
  Studio.say (·.start "Starting AI-powered project transpilation with global context")
  let start := (← Run.get).session.clock
  Studio.say (·.warnAll (p.cycles.map cycleWarning))
  let files := p.ordered
  let results ← Run.each (convertFile transpile s o files.length) (files.zipIdx 1)
  let result := p.resultOf results ((← Run.get).session.clock - start)
  Studio.say (·.success "Project transpilation completed!")
  Studio.say (·.info (resultMessage result))
  return result

/-- Converts the project that was found at a path, if one was found. -/
def convert (path : String) (found : Except Fault Project) (o : Settings) :
    Studio.Task R (ProjectResult R) := do
  Studio.say (·.start "Analyzing project structure")
  let p ← Run.ofExcept (found.mapError .broken)
  if p.files.isEmpty then
    Studio.say (·.stop)
    Run.stop (.failed (.noSources path))
  else
    Studio.say (·.success ("Found " ++ toString p.files.length ++ " TypeScript files"))
    convertFiles transpile p o

end Run

end Cartridge.Project
