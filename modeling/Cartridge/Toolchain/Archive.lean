import Cartridge.FileTree.Disk

/-!
# Archives

The members of an archive and how they are unpacked. A member always ends up below the folder that
it is unpacked into: what leads elsewhere is left out of its name, and a name ends before a null
character. Permission bits are restored where the archive was made on a system that has them.

* `safeParts_no_dots`: no part of the place of a member leads upwards.
-/

namespace Cartridge.Toolchain

/-- A file or folder in an archive; the name of a folder ends with a slash. -/
structure Member where
  name : String
  bytes : ByteArray
  /-- Permission bits, and further bits about the kind of file. -/
  mode : Nat
  /-- Whether the mode is one of permission bits. -/
  onUnix : Bool

namespace Member

/-- The name of a member as it counts. -/
def shownName (m : Member) : String := .ofList (m.name.toList.takeWhile (· ≠ '\x00'))

/-- The parts of a name, without those that lead elsewhere. -/
def safeParts (name : String) : List String :=
  (Text.splitOn name '/').filter fun part => part ≠ "" && part ≠ "." && part ≠ ".."

theorem safeParts_no_dots (name : String) : ".." ∉ safeParts name := by
  simp [safeParts]

def isFolder (m : Member) : Bool := Text.endsWith m.shownName "/"

def place (folder : Path) (m : Member) : Path := folder.append ⟨"", safeParts m.shownName⟩

/-- The permission bits to restore, if there are any. -/
def permissions? (m : Member) : Option Nat :=
  let bits := m.mode % 0o1000
  if m.onUnix && bits ≠ 0 then some bits else none

/-- Makes the folder in which a path is, unless something can be seen there. -/
def makeRoom (path : Path) : Disk.Task Unit := do
  if ((← Run.get).found? path.parent).isNone then Disk.makeFolders path.parent

/-- Unpacks a member into a folder, its permission bits aside. -/
def write (folder : Path) (m : Member) : Disk.Task Unit := do
  let path := m.place folder
  makeRoom path
  if m.shownName = "" then Run.stop .nameless
  else if m.isFolder then Disk.makeFolders path
  else Disk.write path m.bytes

def unpack (folder : Path) (m : Member) : Disk.Task Unit := do
  m.write folder
  match m.permissions? with
  | some bits => Disk.setMode (m.place folder) bits
  | none => Run.done ()

end Member

end Cartridge.Toolchain
