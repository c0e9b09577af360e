import Cartridge.Digest.Sha256
import Cartridge.Failure
import Cartridge.Json.Writer
import Cartridge.Target

/-!
# Fingerprints

A request to convert a source for a target is known by a fingerprint: the first digits of the
digest of the source followed by the target written as a data document with its keys in
alphabetical order.
-/

namespace Cartridge.Fingerprint

/-- Strings as a list of a data document. -/
def strings (items : List String) : Json := .arr (items.map .str)

/-- A value that may be missing. -/
def optional {α : Type} (toJson : α → Json) : Option α → Json
  | some x => toJson x
  | none => .null

/-- A layout as a data document. -/
def layout (l : Layout) : Json :=
  .obj
    [("ram_bank", optional .int l.ramBank), ("rom_bank", .int l.romBank),
     ("work_ram", strings l.workRam), ("zero_page", strings l.zeroPage)]

/-- A target as a data document. -/
def target (t : Target) : Json :=
  .obj
    [("available_ram", .int t.availableRam), ("current_bank", .int t.currentBank),
     ("features", strings t.features), ("memory_layout", optional layout t.layout),
     ("optimize_for", .str t.focus), ("project_context", optional .str t.project),
     ("target", .str t.console)]

/-- What a fingerprint is taken of. -/
def preimage (source : String) (t : Target) : String := source ++ (target t).line

/-- The number of digits of a fingerprint. -/
def length : Nat := 16

/-- The first digits of the digest of a text. -/
def digits (text : String) : String := .ofList ((Digest.sha256 text.toUTF8).toList.take length)

/-- The fingerprint of a request. -/
def of (source : String) (t : Target) : String := digits (preimage source t)

/-- The key of a request: its fingerprint, unless a number of the target has too many digits. -/
def key (source : String) (t : Target) : Except Fault String :=
  if t.Writable then .ok (of source t) else .error .tooManyDigits

end Cartridge.Fingerprint
