import Cartridge.Proofs.Toolchain.Unpacking

/-!
# How an installation ends

An installation makes the folder that the toolchain is to be in, downloads the archive into it,
unpacks it there and removes it. Then it moves what was unpacked to its final place, unless something
is there. It ends early if the download fails, if what was delivered is no archive, and if the folder
of the toolchain is not there once the archive was unpacked. A fault of the disk breaks it off
anywhere.

* `Extracts`: an archive that was downloaded, unpacked and removed.
* `Ends`: how an installation ends that no fault breaks off.
* `download_of_undelivered`, `download_of_delivered`, `unpack_ends`, `settle_ends`: the parts.
* `ends_of_install`: every installation that no fault breaks off ends so.
-/

namespace Cartridge

open FileTree Disk Cartridge.Path

namespace Toolchain

variable {net : Download → DownloadOutcome} {request : Download} {c : Config Float}
  {folder? : Option String} {delivery : Delivery} {library file folder : Path} {ms : List Member}
  {s s' : Site} {d d' : Disk}

/-- What is delivered for a download, if nothing is wrong with it. -/
def delivered? (net : Download → DownloadOutcome) (request : Download) : Option Delivery :=
  match net request with
  | .unreachable _ => none
  | .answered d => if (d.complaint? request.url).isNone && d.broken?.isNone then some d else none

/-- The download of the archive. -/
def archiveRequest (c : Config Float) : Download := ⟨c.tools.libraryUrl, c.tools.timeout⟩

/-- The file into which the archive is downloaded. -/
def archivePath (library : Path) : Path := library.parent.child archiveName

/-- The folder that the archive is to hold. -/
def unpackedPath (library : Path) : Path := library.parent.child archiveRoot

def archivePlace (d : Disk) (library : Path) : List String :=
  d.placeOf library.parent ++ [archiveName]

def unpackedPlace (d : Disk) (library : Path) : List String :=
  d.placeOf library.parent ++ [archiveRoot]

/-- No fault of the disk broke the run off. -/
def Unbroken {α : Type} (r : Except (Stop Float) α) : Prop := ∀ fault, r ≠ .error (.broken fault)

/-- The archive was downloaded, unpacked and removed. -/
structure Extracts (library : Path) (delivery : Delivery) (ms : List Member)
    (d d₁ d₂ d₃ d' : Disk) : Prop where
  makes : makeFolders library.parent d = (.ok (), d₁)
  writes : write (archivePath library) delivery.bytes d₁ = (.ok (), d₂)
  unpacks : d₂.Laid library.parent → Unpacked (d₂.placeOf library.parent) ms d₂ d₃
  removes : remove (archivePath library) d₃ = (.ok (), d')

/-- How an installation ends that no fault of the disk breaks off. -/
inductive Ends (net : Download → DownloadOutcome) (request : Download) (library : Path) (d : Disk) :
    Except (Stop Float) Path → Disk → Prop
  /-- The download fails. -/
  | undelivered {reason : String} {d₁ d₂ d' : Disk} (hnone : delivered? net request = none)
      (hmake : makeFolders library.parent d = (.ok (), d₁))
      (hwrite : d₂ = d₁ ∨ ∃ bytes, write (archivePath library) bytes d₁ = (.ok (), d₂))
      (hremove : remove (archivePath library) d₂ = (.ok (), d')) :
      Ends net request library d (.error (.failed (.build (.download request.url reason)))) d'
  /-- What is delivered is no archive. -/
  | noArchive {delivery : Delivery} {d₁ d₂ d₃ d' : Disk}
      (hsome : delivered? net request = some delivery) (hmembers : delivery.members? = none)
      (h : Extracts library delivery [] d d₁ d₂ d₃ d') :
      Ends net request library d (.error (.failed (.build (.badArchive noArchive)))) d'
  /-- No folder of the right name is there once the archive was unpacked. -/
  | without {delivery : Delivery} {ms : List Member} {d₁ d₂ d₃ d' : Disk}
      (hsome : delivered? net request = some delivery) (hmembers : delivery.members? = some ms)
      (h : Extracts library delivery ms d d₁ d₂ d₃ d')
      (hfolder : d'.hasFolder (unpackedPath library) = .ok false) :
      Ends net request library d (.error (.failed (.build (.archiveWithout archiveRoot)))) d'
  /-- The folder stays where it was unpacked. -/
  | stays {delivery : Delivery} {ms : List Member} {d₁ d₂ d₃ d' : Disk}
      (hsome : delivered? net request = some delivery) (hmembers : delivery.members? = some ms)
      (h : Extracts library delivery ms d d₁ d₂ d₃ d')
      (hfolder : d'.hasFolder (unpackedPath library) = .ok true) :
      Ends net request library d (.ok (unpackedPath library)) d'
  /-- The folder is moved to its final place. -/
  | moves {delivery : Delivery} {ms : List Member} {d₁ d₂ d₃ d₄ d' : Disk}
      (hsome : delivered? net request = some delivery) (hmembers : delivery.members? = some ms)
      (h : Extracts library delivery ms d d₁ d₂ d₃ d₄)
      (hfolder : d₄.hasFolder (unpackedPath library) = .ok true)
      (hother : unpackedPath library ≠ library) (hfree : d₄.has library = .ok false)
      (hmove : move (unpackedPath library) library d₄ = (.ok (), d')) :
      Ends net request library d (.ok library) d'

theorem Site.change_bind {α β : Type} {task : Disk.Task α} {f : α → Site.Task β}
    {r : Except (Stop Float) β} (h : (Site.change task >>= f) s = (r, s')) :
    (∃ fault, r = .error (.broken fault) ∧ task s.disk = (.error fault, s'.disk)) ∨
      ∃ a d, task s.disk = (.ok a, d) ∧ f a { s with disk := d } = (r, s') := by
  rw [Run.bind_apply] at h
  cases hchange : Site.change task s with
  | mk result s₁ =>
    rw [hchange] at h
    cases result with
    | error e =>
      cases h
      obtain ⟨fault, rfl, htask⟩ := Site.change_error hchange
      exact .inl ⟨fault, rfl, htask⟩
    | ok a =>
      obtain ⟨d, htask, rfl⟩ := Site.change_ok hchange
      exact .inr ⟨a, d, htask, h⟩

theorem Site.look_bind {α β : Type} {read : Disk → Except Fault α} {f : α → Site.Task β}
    {r : Except (Stop Float) β} (h : (Site.look read >>= f) s = (r, s')) :
    (∃ fault, r = .error (.broken fault)) ∨ ∃ a, read s.disk = .ok a ∧ f a s = (r, s') := by
  have h : (Site.change (Run.ofExcept (read s.disk)) >>= f) s = (r, s') := h
  rcases Site.change_bind h with ⟨fault, rfl, -⟩ | ⟨a, d, hread, h⟩
  · exact .inl ⟨fault, rfl⟩
  · obtain ⟨hfound, rfl⟩ := Prod.mk.inj hread
    exact .inr ⟨a, hfound, h⟩

theorem giveUp_ends {α : Type} {r : Except (Stop Float) α} {url reason : String}
    (h : giveUp url file reason s = (r, s')) :
    (∃ fault, r = .error (.broken fault)) ∧ s'.disk = s.disk ∨
      r = .error (.failed (.build (.download url reason))) ∧
        remove file s.disk = (.ok (), s'.disk) := by
  rcases Site.change_bind h with ⟨fault, rfl, hremove⟩ | ⟨_, d, hremove, h⟩
  · exact .inl ⟨⟨fault, rfl⟩, remove_stopped hremove⟩
  · cases h
    exact .inr ⟨rfl, hremove⟩

theorem download_of_undelivered {r : Except (Stop Float) (Option (List Member))}
    (hnone : delivered? net request = none) (h : download net request file s = (r, s')) :
    ∃ d, (d = s.disk ∨ ∃ bytes, write file bytes s.disk = (.ok (), d)) ∧
      ((∃ fault, r = .error (.broken fault)) ∧ s'.disk = d ∨
        ∃ reason, r = .error (.failed (.build (.download request.url reason))) ∧
          remove file d = (.ok (), s'.disk)) := by
  have hend (s₁ : Site) {reason : String} (h : giveUp request.url file reason s₁ = (r, s')) :
      (∃ fault, r = .error (.broken fault)) ∧ s'.disk = s₁.disk ∨
        ∃ reason, r = .error (.failed (.build (.download request.url reason))) ∧
          remove file s₁.disk = (.ok (), s'.disk) :=
    (giveUp_ends h).imp_right fun hgone => ⟨reason, hgone⟩
  unfold delivered? at hnone
  unfold download at h
  cases hnet : net request with
  | unreachable reason =>
    rw [hnet] at h
    exact ⟨s.disk, .inl rfl, hend { s with downloads := request :: s.downloads } h⟩
  | answered delivery =>
    rw [hnet] at h hnone
    dsimp only at h hnone
    cases hcomplaint : delivery.complaint? request.url with
    | some reason =>
      rw [hcomplaint] at h
      exact ⟨s.disk, .inl rfl, hend { s with downloads := request :: s.downloads } h⟩
    | none =>
      rw [hcomplaint] at h hnone
      rcases Site.change_bind (s := { s with downloads := request :: s.downloads }) h with
        ⟨fault, rfl, hwrite⟩ | ⟨_, d, hwrite, h⟩
      · exact ⟨s.disk, .inl rfl, .inl ⟨⟨fault, rfl⟩, write_stopped hwrite⟩⟩
      · cases hbroken : delivery.broken? with
        | some reason =>
          rw [hbroken] at h
          exact ⟨d, .inr ⟨_, hwrite⟩, hend _ h⟩
        | none =>
          rw [hbroken] at hnone
          cases hnone

theorem download_of_delivered {r : Except (Stop Float) (Option (List Member))}
    (hsome : delivered? net request = some delivery) (h : download net request file s = (r, s')) :
    (∃ fault, r = .error (.broken fault)) ∨
      r = .ok delivery.members? ∧ write file delivery.bytes s.disk = (.ok (), s'.disk) := by
  unfold delivered? at hsome
  unfold download at h
  cases hnet : net request with
  | unreachable reason =>
    rw [hnet] at hsome
    cases hsome
  | answered d =>
    rw [hnet] at h hsome
    dsimp only at hsome
    split at hsome
    · rename_i hgood
      cases hsome
      obtain ⟨hcomplaint, hbroken⟩ := (Bool.and_eq_true _ _).mp hgood
      rw [Option.isNone_iff_eq_none] at hcomplaint hbroken
      simp only [hcomplaint, hbroken] at h
      rcases Site.change_bind (s := { s with downloads := request :: s.downloads }) h with
        ⟨fault, rfl, -⟩ | ⟨_, d, hwrite, h⟩
      · exact .inl ⟨fault, rfl⟩
      · cases h
        exact .inr ⟨rfl, hwrite⟩
    · cases hsome

theorem unpack_ends {r : Except (Stop Float) Unit} {members? : Option (List Member)}
    (h : unpack members? folder s = (r, s')) :
    (∃ fault, r = .error (.broken fault)) ∨
      (members? = none ∧ r = .error (.failed (.build (.badArchive noArchive))) ∧ s' = s) ∨
      ∃ ms, members? = some ms ∧ r = .ok () ∧
        (s.disk.Laid folder → Unpacked (s.disk.placeOf folder) ms s.disk s'.disk) := by
  cases members? with
  | none =>
    cases h
    exact .inr (.inl ⟨rfl, rfl, rfl⟩)
  | some ms =>
    rcases Run.bind_cases h with ⟨e, heach, rfl⟩ | ⟨us, s₁, heach, h⟩
    · obtain ⟨fault, rfl⟩ := broken_of_each heach
      exact .inl ⟨fault, rfl⟩
    · cases h
      exact .inr (.inr ⟨ms, rfl, rfl, fun hlaid => unpacked_of_each hlaid heach⟩)

theorem settle_ends {r : Except (Stop Float) Path} {unpacked : Path}
    (h : settle unpacked library s = (r, s')) (hr : Unbroken r) :
    r = .ok unpacked ∧ s'.disk = s.disk ∨
      r = .ok library ∧ unpacked ≠ library ∧ s.disk.has library = .ok false ∧
        move unpacked library s.disk = (.ok (), s'.disk) := by
  unfold settle at h
  split at h
  · rename_i hsame
    cases h
    exact .inl ⟨by rw [hsame], rfl⟩
  · rename_i hother
    rcases Site.look_bind h with ⟨fault, rfl⟩ | ⟨found, hhas, h⟩
    · exact absurd rfl (hr fault)
    · cases found with
      | true =>
        cases h
        exact .inl ⟨rfl, rfl⟩
      | false =>
        rcases Site.change_bind h with ⟨fault, rfl, -⟩ | ⟨_, d, hmove, h⟩
        · exact absurd rfl (hr fault)
        · cases h
          exact .inr ⟨rfl, hother, hhas, hmove⟩

theorem Site.say_bind {β : Type} (words : Console → Console) (f : Unit → Site.Task β) (s : Site) :
    (Site.say words >>= f) s = f () { s with console := words s.console } := rfl

theorem ends_of_install {r : Except (Stop Float) Path} (h : install net c folder? s = (r, s'))
    (hr : Unbroken r) : Ends net (archiveRequest c) (libraryPath c folder?) s.disk r s'.disk := by
  rcases Site.change_bind h with ⟨fault, rfl, -⟩ | ⟨_, d₁, hmake, h⟩
  · exact absurd rfl (hr fault)
  simp only [Site.say_bind] at h
  cases hdelivered : delivered? net (archiveRequest c) with
  | none =>
    rcases Run.bind_cases h with ⟨e, hdownload, rfl⟩ | ⟨_, s₂, hdownload, -⟩ <;>
      obtain ⟨d₂, hwrite, ⟨⟨fault, hbroken⟩, -⟩ | ⟨reason, hfailed, hremove⟩⟩ :=
        download_of_undelivered hdelivered hdownload
    · cases hbroken
      exact absurd rfl (hr fault)
    · cases hfailed
      exact .undelivered hdelivered hmake hwrite hremove
    · cases hbroken
    · cases hfailed
  | some delivery =>
    rcases Run.bind_cases h with ⟨e, hdownload, rfl⟩ | ⟨members?, s₂, hdownload, h⟩ <;>
      rcases download_of_delivered hdelivered hdownload with ⟨fault, hbroken⟩ | ⟨hok, hwrite⟩
    · cases hbroken
      exact absurd rfl (hr fault)
    · cases hok
    · cases hbroken
    · cases hok
      simp only [Site.say_bind] at h
      obtain ⟨r₁, s₃, hunpack, h⟩ := Run.attempt_bind h
      rcases Site.change_bind h with ⟨fault, rfl, -⟩ | ⟨_, d₄, hremove, h⟩
      · exact absurd rfl (hr fault)
      rcases unpack_ends hunpack with
        ⟨fault, rfl⟩ | ⟨hmembers, rfl, rfl⟩ | ⟨ms, hmembers, rfl, hunpacks⟩
      · cases h
        exact absurd rfl (hr fault)
      · cases h
        exact .noArchive hdelivered hmembers ⟨hmake, hwrite, fun _ => .nil _ _, hremove⟩
      · have hextracts : Extracts (libraryPath c folder?) delivery ms s.disk d₁ s₂.disk s₃.disk d₄ :=
          ⟨hmake, hwrite, hunpacks, hremove⟩
        rcases Site.look_bind h with ⟨fault, rfl⟩ | ⟨found, hfolder, h⟩
        · exact absurd rfl (hr fault)
        · cases found with
          | false =>
            cases h
            exact .without hdelivered hmembers hextracts hfolder
          | true =>
            rcases settle_ends h hr with ⟨rfl, hdisk⟩ | ⟨rfl, hother, hfree, hmove⟩
            · rw [hdisk]
              exact .stays hdelivered hmembers hextracts hfolder
            · exact .moves hdelivered hmembers hextracts hfolder hother hfree hmove

end Toolchain

end Cartridge
