import Cartridge.FileTree.Disk

/-!
# Listings

Everything that a folder holds, at any depth, and what is different between two such listings.
What a folder holds is passed over where the folder may not be read, and cannot be listed where the
folder may be read but not entered. Neither can a file that may not be read.
-/

namespace Cartridge

/-- A file or folder in a listing. The path of a folder ends with a slash. -/
structure Listed where
  path : String
  /-- The content of a file. -/
  bytes : Option ByteArray
  mode : Nat
  deriving BEq

namespace FileTree

/-- The path of a file or folder whose name is added to the path of the folder that holds it. -/
def listedPath (above name : String) (t : FileTree) : String :=
  above ++ name ++ if t.isFolder then "/" else ""

def listed (path : String) : FileTree → Except Fault Listed
  | .folder _ mode => .ok ⟨path, none, mode⟩
  | .file bytes mode =>
    if (FileTree.file bytes mode).allows .read then .ok ⟨path, some bytes, mode⟩
    else .error .notAllowed

mutual

/-- Everything that a folder with a given path holds; nothing for a file. -/
def listing (above : String) : FileTree → Except Fault (List Listed)
  | .file .. => .ok []
  | .folder es mode =>
    if !(FileTree.folder es mode).allows .read || es.isEmpty then .ok []
    else if !(FileTree.folder es mode).allows .enter then .error .notAllowed
    else listingOf above es

/-- Each of the entries, followed by everything that it holds. -/
def listingOf (above : String) : List (String × FileTree) → Except Fault (List Listed)
  | [] => .ok []
  | (name, t) :: rest => do
    let path := listedPath above name t
    let own ← listed path t
    let held ← listing path t
    return own :: held ++ (← listingOf above rest)

end

end FileTree

namespace Disk

/-- Everything in the current directory, sorted by path. -/
def listing (d : Disk) : Except Fault (List Listed) := do
  match d.root.at? d.here with
  | some t => return (← t.listing "").mergeSort (·.path ≤ ·.path)
  | none => return []

/-- Whether a listing has something with the same path and content. -/
def hasAlike (ls : List Listed) (l : Listed) : Bool :=
  ls.any fun other => other.path = l.path && other.bytes == l.bytes

/-- What is new or has another content on a disk, and the paths of what is gone, each sorted by
path. -/
def changes (before after : Disk) : Except Fault (List Listed × List String) := do
  let old ← before.listing
  let new ← after.listing
  return (new.filter (!hasAlike old ·),
    (old.filter fun l => !new.any (·.path = l.path)).map (·.path))

end Disk

end Cartridge
