import Cartridge.Project.Output

/-!
# Building

The steps from a source to a cartridge image: `game.ts` gives `game.c`, that gives `game.rel`, that
gives `game.ihx`, and that gives `game.gb`. A path of a folder stands for everything of the kind
that it holds. Every step but the conversion calls a tool in the folder of the source.
-/

namespace Cartridge.Build

variable {R : Type} [Quantity R] [Inhabited R]

open Workshop (Task)

/-! ## Places and names -/

def library (c : Config R) : Path := Path.ofString c.tools.libraryPath

def script (w : Workshop R) (name : String) : String :=
  let suffix := if w.onWindows then ".bat" else ".sh"
  (((library w.studio.config).child "bin").child (name ++ suffix)).toString

/-- The folder in which the artifacts of a source are. -/
def folderOf (source : Path) (d : Disk) : Except Fault Path := do
  return if ← d.hasFolder source then source else source.parent

/-- The artifacts with a suffix of a source that are there: all of a folder, or the one that is
named after a file. -/
def artifacts (source : Path) (suffix : String) (d : Disk) : Except Fault (List Path) := do
  if ← d.hasFolder source then return d.endingWith source suffix
  else
    let own := source.withSuffix suffix
    return if ← d.has own then [own] else []

/-- The name of the image of a source, without a suffix. -/
def imageName (source : Path) (d : Disk) : Except Fault String := do
  return if ← d.hasFolder source then (d.current.resolve source).name else source.stem

def refuse {α : Type} (why : BuildFailure) : Task R α := Run.stop (.failed (.build why))

/-! ## From a source to C -/

/-- Converts a source with the translator that is no language model. -/
def translate (source : Path) : Task R Unit := do
  Workshop.say (·.start "Transpiling TypeScript → C with ts2c")
  let command := (← Run.get).studio.config.tools.ts2cCommand
  match ← Run.attempt (Workshop.run command [source.name] source.parent) with
  | .ok () => Workshop.say (·.success "Transpiled TypeScript → C")
  | .error (.failed (.build why)) => Run.stop (.failed (.translator why))
  | .error e => Run.stop e

/-- Says what became of a source. -/
def report (r : Conversion R) (output : Path) (c : Console) : Console :=
  let c := c.success "🎉 AI transpilation completed!"
  let c := c.info ("Provider: " ++ r.provider ++ if r.fromCache then " (cached)" else "")
  let c := c.info ("Cost: $" ++ Quantity.fixed 4 r.cost ++ " | Quality: " ++
    Quantity.fixed 1 (r.quality * Quantity.ofNat 100) ++ "%")
  let c := c.info ("Estimated ROM: ~" ++ toString r.notes.romSize ++ " bytes")
  (c.warnAll r.notes.warnings).info ("Written " ++ output.toString)

/-- Converts a source by asking a provider. -/
def convertFile (source : Path) : Task R Unit := do
  Workshop.say (·.start "🤖 Starting AI-powered transpilation TypeScript → GameBoy C")
  let _ ← Workshop.inStudio Studio.ready
  let text ← Workshop.look (·.readText source)
  let target := (← Run.get).studio.config.target
  let r ← Workshop.inStudio (Studio.work (Workbench.transpile { source := text, target }))
  let output := source.withSuffix ".c"
  Workshop.change (Disk.writeText output r.code)
  Workshop.say (report r output)

/-- Converts the project in a folder by asking a provider. -/
def convertFolder (folder : Path) : Task R Unit := do
  let c := (← Run.get).studio.config
  if c.tools.translator ≠ "ai" then Run.stop (.failed .directoryNeedsModel)
  else
    let _ ← Workshop.inStudio Studio.ready
    let r ← Project.convertAt folder.toString { target := c.target }
    let _ ← Project.writeResult r folder
    Workshop.say (·.warnAll r.notes.warnings)

def transpile (path : String) : Task R Unit := do
  let source := Path.ofString path
  if ← Workshop.look (·.hasFolder source) then convertFolder source
  else if !(← Workshop.look (·.has source)) then Run.stop (.failed (.sourceMissing path))
  else if (← Run.get).studio.config.tools.translator = "ts2c" then translate source
  else convertFile source

/-! ## From C to an image -/

/-- Builds the toolchain itself. -/
def makeLibrary : Task R Unit := do
  let library := library (← Run.get).studio.config
  if ← Workshop.look (·.hasFolder library) then
    Workshop.say (·.start "Building GBDK")
    Workshop.run "make" [] library
    Workshop.say (·.success "GBDK ready")
  else refuse .noToolchain

/-- Compiles each C file of a source. -/
def compile (path : String) : Task R Unit := do
  let source := Path.ofString path
  let w ← Run.get
  let files ← Workshop.look (artifacts source ".c")
  if files.isEmpty then refuse (.nothingToCompile path)
  else
    let folder ← Workshop.look (folderOf source)
    Workshop.say (·.start "Compiling C → object files")
    let _ ← Run.each (fun file : Path =>
      Workshop.run (script w "gbdk-n-compile") [file.name] folder) files
    Workshop.say (·.success ("Compiled " ++ toString files.length ++ " file(s)"))

/-- Links the object files of a source. -/
def link (path : String) : Task R Unit := do
  let source := Path.ofString path
  let w ← Run.get
  let files ← Workshop.look (artifacts source ".rel")
  if files.isEmpty then refuse (.nothingToLink path)
  else
    let folder ← Workshop.look (folderOf source)
    let linked := (← Workshop.look (imageName source)) ++ ".ihx"
    Workshop.say (·.start "Linking object files")
    Workshop.run (script w "gbdk-n-link") (files.map Path.name ++ ["-o", linked]) folder
    Workshop.say (·.success ("Linked " ++ linked))

/-- Makes the cartridge image of a source. -/
def makeImage (path : String) : Task R Unit := do
  let source := Path.ofString path
  let w ← Run.get
  let folder ← Workshop.look (folderOf source)
  let name ← Workshop.look (imageName source)
  let linked := folder.child (name ++ ".ihx")
  if ← Workshop.look (·.has linked) then
    Workshop.say (·.start "Making ROM")
    Workshop.run (script w "gbdk-n-make-rom") [name ++ ".ihx", name ++ ".gb"] folder
    Workshop.say (·.success ("ROM " ++ name ++ ".gb"))
  else refuse (.missing linked.toString)

/-! ## Chains -/

/-- Every step from C to an image. -/
def compileAll (path : String) : Task R Unit := do
  makeLibrary
  compile path
  link path
  makeImage path

/-- Every step from a source to an image. -/
def all (path : String) : Task R Unit := do
  transpile path
  compileAll path

end Cartridge.Build
