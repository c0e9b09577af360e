import Cartridge.CommandLine.Program
import Cartridge.FileTree.Listing

/-!
# Main

Runs the program on the current directory: what the directory holds is read, the program runs on
it, what it says is printed, and what it changed is written back. Neither a network nor other
programs can be reached from here, and a run is told so when it asks for them.
-/

namespace Cartridge.Main

/-- What stands at a place in a directory, under its name. -/
partial def read (e : IO.FS.DirEntry) : IO (String × FileTree) := do
  if ← e.path.isDir then
    let entries ← (← e.path.readDir).toList.mapM read
    return (e.fileName, .folder entries FileTree.folderMode)
  else return (e.fileName, .file (← IO.FS.readBinFile e.path) FileTree.fileMode)

def disk : IO Disk := do
  let here ← IO.currentDir
  let entries ← (← here.readDir).toList.mapM read
  let names := (Path.ofString here.toString).parts
  let folder := .folder entries FileTree.folderMode
  return { root := FileTree.newFolder.put names folder, here := names }

/-- The variables that the program follows. -/
def environment : IO Environment := do
  let found ← Config.Variable.names.mapM fun name => return (name, ← IO.getEnv name)
  return found.filterMap fun (name, value) => value.map (name, ·)

/-- A workshop in the current directory. -/
def workshop (disk : Disk) : Workshop Float where
  studio :=
    { config := Config.initial disk
      session := { clock := 0.0, today := "", network := [⟨0.0, .unreachable "no network"⟩] } }
  disk
  tools := fun _ => .cannotStart "no other programs"

def print (m : Message) : IO Unit :=
  match m.stream with
  | .output => IO.println m.text
  | .error => IO.eprintln m.text

/-- Writes what is new or different in the current directory. -/
def write (l : Listed) : IO Unit :=
  match l.bytes with
  | some bytes => IO.FS.writeBinFile l.path bytes
  | none => IO.FS.createDirAll l.path

end Cartridge.Main

open Cartridge in
def main (arguments : List String) : IO UInt32 := do
  let disk ← Main.disk
  let (ending, after) :=
    CommandLine.program (← Main.environment) arguments (Main.workshop disk)
  for m in after.studio.session.console.messages do Main.print m
  match disk.changes after.disk with
  | .ok (new, _) => for l in new do Main.write l
  | .error e => IO.eprintln e.message
  match ending with
  | .ok (.finished code) | .ok (.dismissed code) => return code.toUInt32
  | .error (.broken e) =>
    IO.eprintln e.message
    return 1
  | .error (.failed why) =>
    IO.eprintln why.message
    return 1
