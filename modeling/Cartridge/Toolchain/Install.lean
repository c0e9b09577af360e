import Cartridge.Config.File
import Cartridge.Toolchain.Archive

/-!
# Installing the toolchain

The toolchain is downloaded as an archive, unpacked beside its final place, and moved there if the
archive gives it another name. The archive itself never stays.
-/

namespace Cartridge.Toolchain

/-- A request for an archive. -/
structure Download where
  url : String
  /-- Seconds to wait for an answer. -/
  timeout : Float

/-- What is commonly said of an answer with a status that tells of an error. -/
def commonComplaint? (status : Int) (reason url : String) : Option String :=
  let side? :=
    if 400 ≤ status && status < 500 then some "Client"
    else if 500 ≤ status && status < 600 then some "Server"
    else none
  side?.map fun side => toString status ++ " " ++ side ++ " Error: " ++ reason ++ " for url: " ++ url

/-- What is delivered for a download. -/
structure Delivery where
  status : Int
  reason : String
  bytes : ByteArray
  /-- The members of the archive, if it is one. -/
  members? : Option (List Member)
  /-- Why the delivery breaks off after all, if it does. -/
  broken? : Option String
  /-- Why a delivery from an address is no good, if it is none. -/
  complaint? : String → Option String := commonComplaint? status reason

/-- What becomes of a download. -/
inductive DownloadOutcome where
  | unreachable (reason : String)
  | answered (d : Delivery)

/-- What an installation works on. -/
structure Site where
  disk : Disk
  console : Console := {}
  /-- The downloads so far, latest first. -/
  downloads : List Download := []

namespace Site

abbrev Task (α : Type) := Run Site (Stop Float) α

def say (write : Console → Console) : Task Unit :=
  Run.update fun s => { s with console := write s.console }

def change {α : Type} (task : Disk.Task α) : Task α :=
  Run.on (·.disk) (fun disk (s : Site) => { s with disk }) (task.mapError .broken)

/-- Something that is read from the disk. -/
def look {α : Type} (read : Disk → Except Fault α) : Task α := do
  change (Run.ofExcept (read (← Run.get).disk))

def refuse {α : Type} (why : BuildFailure) : Task α := Run.stop (.failed (.build why))

end Site

open Site

def archiveName : String := "gbdk.zip"

def archiveRoot : String := "gbdk-n-master"

/-- What is said of a delivery that is no archive. -/
def noArchive : String := "File is not a zip file"

/-- A download that failed leaves no file. -/
def giveUp {α : Type} (url : String) (file : Path) (reason : String) : Site.Task α := do
  change (Disk.remove file)
  refuse (.download url reason)

/-- Downloads an archive to a file and gives its members, if it is one. -/
def download (net : Download → DownloadOutcome) (request : Download) (file : Path) :
    Site.Task (Option (List Member)) := do
  Run.update fun s => { s with downloads := request :: s.downloads }
  match net request with
  | .unreachable reason => giveUp request.url file reason
  | .answered d =>
    match d.complaint? request.url with
    | some reason => giveUp request.url file reason
    | none =>
      change (Disk.write file d.bytes)
      match d.broken? with
      | some reason => giveUp request.url file reason
      | none => return d.members?

def unpack (members? : Option (List Member)) (folder : Path) : Site.Task Unit :=
  match members? with
  | none => refuse (.badArchive noArchive)
  | some members => do
    let _ ← Run.each (fun m : Member => change (m.unpack folder)) members
    return ()

/-- Moves the unpacked toolchain to its place, unless something is there, and gives the path at
which it is in the end. -/
def settle (unpacked library : Path) : Site.Task Path := do
  if unpacked = library then return library
  else if ← look (·.has library) then
    say (·.warn (library.toString ++ " already exists, GBDK left in " ++ unpacked.toString))
    return unpacked
  else
    change (Disk.move unpacked library)
    say (·.info ("Moved " ++ unpacked.toString ++ " to " ++ library.toString))
    return library

/-- The final place of the toolchain: in a given folder, or where the configuration says. -/
def libraryPath (c : Config Float) (folder? : Option String) : Path :=
  match folder?.filter (· ≠ "") with
  | some folder => (Path.ofString folder).child archiveRoot
  | none => Path.ofString c.tools.libraryPath

def install (net : Download → DownloadOutcome) (c : Config Float) (folder? : Option String) :
    Site.Task Path := do
  let library := libraryPath c folder?
  let folder := library.parent
  let file := folder.child archiveName
  let unpacked := folder.child archiveRoot
  change (Disk.makeFolders folder)
  say (·.start ("Downloading GBDK from " ++ c.tools.libraryUrl))
  let members? ← download net ⟨c.tools.libraryUrl, c.tools.timeout⟩ file
  say (·.success "GBDK downloaded")
  say (·.start "Extracting GBDK")
  let r ← Run.attempt (unpack members? folder)
  change (Disk.remove file)
  Run.ofExcept r
  if ← look (·.hasFolder unpacked) then
    say (·.success ("GBDK extracted to " ++ unpacked.toString))
    settle unpacked library
  else refuse (.archiveWithout archiveRoot)

/-- Installs the toolchain as a configuration file and the environment say, and gives the code with
which the program ends. -/
def installProgram [EnvFile.Reader] (net : Download → DownloadOutcome) (env : Environment) :
    Site.Task Nat := do
  let s ← Run.get
  let load := Config.load s.disk env none none
  let task : Site.Task Unit := do
    let c ← Run.on (·.console) (fun console (s : Site) => { s with console }) load
    let _ ← install net c none
  match ← Run.attempt task with
  | .ok () => return 0
  | .error (.broken e) => Run.stop (.broken e)
  | .error (.failed why) =>
    say (·.stop)
    say (·.error why.message)
    return 1

end Cartridge.Toolchain
