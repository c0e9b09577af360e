import Cartridge.FileTree.Disk
import Cartridge.Studio

/-!
# Workshops

Where a game is built: a studio, a disk, and the tools that are run as programs of their own. What
a tool does is laid down beforehand for every list of calls, so a run has one outcome. A tool may do
anything with what is on the disk.
-/

namespace Cartridge

/-- A call of a tool: the command and the directory that it is run in. -/
structure ToolCall where
  command : List String
  directory : String
  deriving DecidableEq, Repr

/-- A change that a tool makes. -/
inductive Change where
  /-- A file is written, by a path from the directory of the call. -/
  | write (name : String) (bytes : ByteArray)
  /-- Something new stands in a place, whatever stood there. -/
  | put (place : List String) (new : FileTree)
  /-- Nothing stands in a place any more. -/
  | erase (place : List String)

/-- What becomes of a call of a tool. -/
inductive ToolOutcome where
  /-- It could not be started. -/
  | cannotStart (reason : String)
  /-- It made changes, and ended with a code and a text; or there is a fault, for what it said is no
  text, or the system takes no such command. -/
  | worked (changes : List Change) (result : Except Fault (Int × String))

/-- A tool wrote files, by paths from the directory of the call, and ended with a code and a
text. -/
def ToolOutcome.ended (code : Int) (complaint : String) (files : List (String × ByteArray)) :
    ToolOutcome :=
  .worked (files.map fun (name, bytes) => .write name bytes) (.ok (code, complaint))

/-- Where a game is built. -/
structure Workshop (R : Type) where
  studio : Studio R
  disk : Disk
  /-- Whether scripts have the form for Windows. -/
  onWindows : Bool := false
  /-- What a tool does, given the calls so far, latest first. -/
  tools : List ToolCall → ToolOutcome
  /-- The calls so far, latest first. -/
  toolCalls : List ToolCall := []

namespace Change

/-- The name of the file that a change writes, if it writes one. -/
def written? : Change → Option String
  | .write name _ => some name
  | .put .. | .erase _ => none

/-- Makes a change of a tool. A file that cannot be written counts as a tool that cannot be run. -/
def make (directory : Path) (tool : String) : Change → Run Disk BuildFailure Unit
  | .write name bytes =>
    let path := directory.child name
    (Disk.write path bytes).mapError fun e => .cannotRun tool (e.about path.toString)
  | .put place new => Run.update (·.putAt place new)
  | .erase place => Run.update fun d => { d with root := d.root.erase place }

/-- Makes changes one after another. -/
def makeAll (directory : Path) (tool : String) : List Change → Run Disk BuildFailure Unit
  | [] => Run.done ()
  | change :: rest => Run.andThen (change.make directory tool) fun _ => makeAll directory tool rest

end Change

namespace Workshop

variable {R α : Type} [Quantity R] [Inhabited R]

abbrev Task (R α : Type) := Run (Workshop R) (Stop R) α

def inStudio (task : Studio.Task R α) : Task R α :=
  Run.on (·.studio) (fun studio w => { w with studio }) task

def say (write : Console → Console) : Task R Unit := inStudio (Studio.say write)

/-- Something that is read from the disk. -/
def look (read : Disk → Except Fault α) : Task R α := fun w =>
  ((read w.disk).mapError .broken, w)

def change (task : Disk.Task α) : Task R α :=
  Run.on (·.disk) (fun disk w => { w with disk }) (task.mapError .broken)

/-- Notes a call of a tool and gives what becomes of it. -/
def call (command : List String) (directory : Path) : Task R ToolOutcome := fun w =>
  let calls := ⟨command, directory.toString⟩ :: w.toolCalls
  (.ok (w.tools calls), { w with toolCalls := calls })

/-- Why a code and a text with which a tool ended are a failure, if they are one. -/
def failureOf? (tool : String) (code : Int) (complaint : String) : Option BuildFailure :=
  if code = 0 then none
  else some (.exited (Path.ofString tool).name code (Text.stripped complaint))

/-- Runs a tool in a directory to its end. -/
def run (tool : String) (arguments : List String) (directory : Path) : Task R Unit := do
  match ← call (tool :: arguments) directory with
  | .cannotStart reason => Run.stop (.failed (.build (.cannotRun tool reason)))
  | .worked changes result =>
    Run.on (·.disk) (fun disk w => { w with disk }) <|
      (Change.makeAll directory tool changes).mapError fun why => .failed (.build why)
    match result with
    | .error fault => Run.stop (.broken fault)
    | .ok (code, complaint) =>
      match failureOf? tool code complaint with
      | some why => Run.stop (.failed (.build why))
      | none => Run.done ()

end Workshop

end Cartridge
