import Cartridge.Code.Extraction
import Cartridge.Code.Review
import Cartridge.CommandLine.Program
import Cartridge.Config.File
import Cartridge.FileTree.Listing
import Cartridge.Main
import Cartridge.Project.Output
import Cartridge.Prompt.Build
import Cartridge.Toolchain.Build
import Cartridge.Toolchain.Install
import Cartridge.Transpiler
import Cartridge.Proofs.Cache
import Cartridge.Proofs.Code.Bare
import Cartridge.Proofs.Fingerprint
import Cartridge.Proofs.Code.Storage
import Cartridge.Proofs.Project.Order
import Cartridge.Proofs.Project.Parts
import Cartridge.Proofs.Project.Calls
import Cartridge.Proofs.Run
import Cartridge.Proofs.Transpiler.Account
import Cartridge.Proofs.Transpiler.Budget
import Cartridge.Proofs.Transpiler.Foreseen
import Cartridge.Proofs.Transpiler.Reuse
import Cartridge.Proofs.Transpiler.Keys
import Cartridge.Proofs.Project.Kept
import Cartridge.Proofs.Project.Rerun
import Cartridge.Proofs.Toolchain.Untouched
import Cartridge.Proofs.Config.RoundTrip
import Cartridge.Proofs.Config.Faults
import Cartridge.Proofs.Config.Limits
import Cartridge.Proofs.Provider.Answers
import Cartridge.Proofs.Transpiler.Prices
import Cartridge.Proofs.Project.Ledger
import Cartridge.Proofs.Config.Precedence
import Cartridge.Proofs.Config.Disclosure
import Cartridge.Proofs.Config.Independence
import Cartridge.Proofs.Config.Typing
import Cartridge.Proofs.Config.Silence
import Cartridge.Proofs.Toolchain.Artifacts
import Cartridge.Proofs.Transpiler.Remarks
import Cartridge.Proofs.Transpiler.Retries
import Cartridge.Proofs.Code.Repetition
import Cartridge.Proofs.Project.Resolution
import Cartridge.Proofs.Code.Fenced
import Cartridge.Proofs.Source.Bodies
import Cartridge.Proofs.Transpiler.Examples
import Cartridge.Proofs.Project.Cycles
import Cartridge.Proofs.Prompt.Places
import Cartridge.Proofs.Code.Stripping
import Cartridge.Proofs.Project.Comments
import Cartridge.Proofs.Project.Schema
import Cartridge.Proofs.Project.Exports
import Cartridge.Proofs.Project.Imports
import Cartridge.Proofs.Project.Output
import Cartridge.Proofs.Project.Scan
import Cartridge.Proofs.Toolchain.Chain
import Cartridge.Proofs.Toolchain.Scripts
import Cartridge.Proofs.Toolchain.Conversions
import Cartridge.Proofs.Toolchain.Installation
