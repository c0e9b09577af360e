import Cartridge.Entries

/-!
# File trees

Files and folders with their permission bits, and what stands at the end of some names.

* `at?_put_self`: what is put in a place is found there, unless a file is in the way.
-/

namespace Cartridge

/-- A file or a folder, with its permission bits. -/
inductive FileTree where
  | file (bytes : ByteArray) (mode : Nat)
  | folder (entries : List (String × FileTree)) (mode : Nat)

/-- What an owner may do with a file or folder. To enter a folder is to reach what it holds. -/
inductive Right where
  | read
  | write
  | enter
  deriving DecidableEq, Repr

/-- The permission bit that gives the owner a right. -/
def Right.bit : Right → Nat
  | read => 8
  | write => 7
  | enter => 6

namespace FileTree

/-- The permission bits of a new file. -/
def fileMode : Nat := 0o644

/-- The permission bits of a new folder. -/
def folderMode : Nat := 0o755

instance : Inhabited FileTree := ⟨.folder [] folderMode⟩

def newFolder : FileTree := .folder [] folderMode

def isFolder : FileTree → Bool
  | folder .. => true
  | file .. => false

/-- What a folder holds; a file holds nothing. -/
def entries : FileTree → List (String × FileTree)
  | folder es _ => es
  | file .. => []

/-- The permission bits. -/
def mode : FileTree → Nat
  | folder _ m => m
  | file _ m => m

/-- Whether the permission bits give the owner a right. -/
def allows (t : FileTree) (r : Right) : Bool := t.mode.testBit r.bit

/-- Every user may read a new file. -/
theorem allows_read_fileMode (bytes : ByteArray) : (file bytes fileMode).allows .read = true := by
  show fileMode.testBit 8 = true
  decide

/-- Every user may read a new folder. -/
theorem allows_read_folderMode (es : List (String × FileTree)) :
    (folder es folderMode).allows .read = true := by
  show folderMode.testBit 8 = true
  decide

/-- The same file or folder with other permission bits. -/
def withMode (m : Nat) : FileTree → FileTree
  | folder es _ => .folder es m
  | file bytes _ => .file bytes m

/-- What a folder holds under a name. -/
def child? (t : FileTree) (name : String) : Option FileTree := Entries.get? t.entries name

/-- What stands at the end of some names. -/
def at? : FileTree → List String → Option FileTree
  | t, [] => some t
  | t, name :: rest =>
    match t.child? name with
    | some next => next.at? rest
    | none => none

/-- The tree with something new in a place. Folders that are missing on the way are made; a file
on the way is in the way, and nothing changes. -/
def put (t : FileTree) (names : List String) (new : FileTree) : FileTree :=
  match names, t with
  | [], _ => new
  | name :: rest, .folder es m =>
    .folder (Entries.put es name (put ((Entries.get? es name).getD newFolder) rest new)) m
  | _ :: _, .file bytes m => .file bytes m

/-- The tree without what stands in a place. -/
def erase (t : FileTree) (names : List String) : FileTree :=
  match names, t with
  | [], t => t
  | [name], .folder es m => .folder (Entries.erase es name) m
  | name :: rest, .folder es m =>
    match Entries.get? es name with
    | some next => .folder (Entries.put es name (erase next rest)) m
    | none => .folder es m
  | _ :: _, .file bytes m => .file bytes m

theorem at?_put_self (new t : FileTree) (names : List String)
    (h : ∀ n < names.length, ∀ bytes m, t.at? (names.take n) ≠ some (.file bytes m)) :
    (t.put names new).at? names = some new := by
  induction names generalizing t with
  | nil => rfl
  | cons name rest ih =>
    cases t with
    | file bytes m => exact absurd rfl (h 0 (by simp) bytes m)
    | folder es m =>
      have hrest : (((Entries.get? es name).getD newFolder).put rest new).at? rest = some new := by
        apply ih
        intro n hn bytes m'
        cases hget : Entries.get? es name with
        | none =>
          cases n with
          | zero => simp [at?, newFolder]
          | succ k =>
            cases rest with
            | nil => simp at hn
            | cons a r => simp [at?, newFolder, child?, entries, Entries.get?]
        | some next =>
          have := h (n + 1) (by simpa using hn) bytes m'
          simpa [at?, child?, entries, hget] using this
      simp [put, at?, child?, entries, Entries.get?_put_self, hrest]

end FileTree

end Cartridge
