import Cartridge.Proofs.Toolchain.Endings

/-!
# What an installation leaves

However an installation ends, unless a fault of the disk breaks it off, the archive is gone; and where
the toolchain is in the end, every member of its folder stands.

Two things do not follow. A folder that was there before counts as unpacked, whatever is in the
archive. And a path that leads through the unpacked folder breaks when that folder is moved.

* `Extracted`: the disk once the archive was unpacked and removed.
* `install_exact`: what becomes of the archive, of the disk if the download fails, and of what was
  unpacked.
* `install_ok_iff`: when an installation gives a path.
-/

namespace Cartridge

open FileTree Disk Cartridge.Path

namespace Toolchain

variable {net : Download → DownloadOutcome} {request : Download} {c : Config Float}
  {folder? : Option String} {delivery : Delivery} {library : Path} {ms : List Member}
  {s s' : Site} {d d' : Disk}

/-! ## What is left -/

/-- A member is in the folder of the toolchain, or that folder itself. -/
def Member.Inside (m : Member) : Prop :=
  ∃ rest, m.parts = archiveRoot :: rest ∧ (rest = [] → m.isFolder = true)

/-- A disk once an archive was downloaded, unpacked and removed. -/
structure Extracted (library : Path) (ms : List Member) (d d' : Disk) : Prop where
  here : d'.here = d.here
  laid : d'.Laid library.parent
  gone : d'.root.nodeAt? (archivePlace d library) = none
  /-- In the place of each member of the toolchain stands the last one with its name. -/
  stands : ∀ m ∈ ms, ∀ rest, m.parts = archiveRoot :: rest →
    ∃ last, ms.reverse.find? (·.parts = m.parts) = some last ∧ last.isFolder = m.isFolder ∧
      last.Stands (d'.root.nodeAt? (unpackedPlace d library ++ rest))
  /-- The folder of the toolchain was unpacked or there before. -/
  unpacked : d'.root.FolderAt (unpackedPlace d library) ↔ (∃ m ∈ ms, m.Inside) ∨
    d.root.FolderAt (unpackedPlace d library) ∨
      unpackedPlace d library ∈ reached [] (d.whole library.parent)

theorem plain_archiveName : Plain archiveName := ⟨by decide, by decide, by decide⟩

theorem plain_archiveRoot : Plain archiveRoot := ⟨by decide, by decide, by decide⟩

theorem placeOf_archivePath (d : Disk) (library : Path) :
    d.placeOf (archivePath library) = archivePlace d library :=
  d.placeOf_child _ plain_archiveName (by decide)

theorem placeOf_unpackedPath (d : Disk) (library : Path) :
    d.placeOf (unpackedPath library) = unpackedPlace d library :=
  d.placeOf_child _ plain_archiveRoot (by decide)

theorem unpackedPlace_append_ne (d : Disk) (library : Path) (rest : List String) :
    unpackedPlace d library ++ rest ≠ archivePlace d library := by
  intro heq
  rw [unpackedPlace, archivePlace, List.append_assoc, List.append_cancel_left_eq,
    List.singleton_append, List.cons.injEq] at heq
  exact absurd heq.1 (by decide)

theorem unpackedPlace_ne (d : Disk) (library : Path) :
    unpackedPlace d library ≠ archivePlace d library := by
  have hne := unpackedPlace_append_ne d library []
  rwa [List.append_nil] at hne

/-- A disk once the archive is in its folder. -/
structure Downloaded (library : Path) (d d' : Disk) : Prop where
  here : d'.here = d.here
  laid : d'.Laid library.parent
  archive : d'.root.FileAt (archivePlace d library)
  unpacked : d'.root.FolderAt (unpackedPlace d library) ↔
    d.root.FolderAt (unpackedPlace d library) ∨
      unpackedPlace d library ∈ reached [] (d.whole library.parent)

theorem downloaded_of {d₁ : Disk} {bytes : ByteArray}
    (hmake : makeFolders library.parent d = (.ok (), d₁))
    (hwrite : write (archivePath library) bytes d₁ = (.ok (), d')) : Downloaded library d d' := by
  have hmade := made_of_makeFolders hmake
  obtain ⟨hreaches, hfree, mode, hset⟩ := write_sets hwrite
  have hplace : d₁.placeOf (archivePath library) = archivePlace d library :=
    (placeOf_congr hmade.here _).trans (placeOf_archivePath d library)
  rw [hplace] at hfree hset
  have hhere := hset.here.trans hmade.here
  refine ⟨hhere, fun q hq => ?_, ⟨bytes, mode, hset.self⟩, ?_⟩
  · rw [whole_congr hhere] at hq
    have hfolder : d₁.root.FolderAt q := by
      rcases hq with rfl | hq
      · refine (hreaches.enterable [] ?_).folderAt
        rw [archivePath, d₁.whole_child _ plain_archiveName]
        cases d₁.whole library.parent <;> exact List.mem_cons_self
      · exact folderAt_of_makeFolders hmake q hq
    have hne : q ≠ archivePlace d library := by
      rintro rfl
      exact hfree hfolder
    rw [FolderAt, hset.same hne]
    exact hfolder
  · rw [FolderAt, hset.same (unpackedPlace_ne d library)]
    exact hmade.folderAt_iff (folderAt_of_makeFolders hmake)

theorem extracted_of {d₁ d₂ d₃ : Disk} (h : Extracts library delivery ms d d₁ d₂ d₃ d') :
    Extracted library ms d d' := by
  have hdownloaded := downloaded_of h.makes h.writes
  have hunpacked := h.unpacks hdownloaded.laid
  rw [placeOf_congr hdownloaded.here] at hunpacked
  have hhere₃ := hunpacked.here.trans hdownloaded.here
  have hlaid₃ := hunpacked.laid hdownloaded.laid
  have hplace : d₃.placeOf (archivePath library) = archivePlace d library :=
    (placeOf_congr hhere₃ _).trans (placeOf_archivePath d library)
  have hway : ∀ q ∈ passed [] (d₃.whole (archivePath library)), d₃.root.FolderAt q := by
    refine Laid.way ?_
    rw [archivePath, parent_child _ plain_archiveName]
    exact hlaid₃
  obtain ⟨hhere, hgone, hothers⟩ := nodeAt?_of_remove
    (by rw [hplace]; exact List.concat_ne_nil _ _) h.removes fun q hq _ => hway q hq
  rw [hplace] at hgone hothers
  refine ⟨hhere.trans hhere₃, fun q hq => ?_, hgone, fun m hm rest hparts => ?_, ?_⟩
  · rw [whole_congr hhere] at hq
    -- what stands in the place of the archive until the end is a file
    have hne : q ≠ archivePlace d library := by
      rintro rfl
      obtain ⟨bytes, mode, hfile⟩ := hdownloaded.archive
      obtain ⟨node, hnode, hkind⟩ := hunpacked.kinds _ _ hfile
      obtain ⟨mode', hmode⟩ := hlaid₃ _ hq
      rw [hmode] at hnode
      cases hnode
      cases hkind
    rw [FolderAt, hothers q hne]
    exact hlaid₃ q hq
  · obtain ⟨last, hlast, hkind, hstands⟩ := hunpacked.last m hm
    refine ⟨last, hlast, hkind, ?_⟩
    rw [hothers _ (unpackedPlace_append_ne d library rest), unpackedPlace, List.append_assoc,
      List.singleton_append, ← hparts]
    exact hstands
  · rw [FolderAt, hothers _ (unpackedPlace_ne d library)]
    refine hunpacked.folderAt_iff.trans ?_
    show d₂.root.FolderAt (unpackedPlace d library) ∨ _ ↔ _
    rw [hdownloaded.unpacked, or_comm]
    rfl

/-! ## Failed downloads -/

/-- If the download fails, nothing changes but the place of the archive, and folders are made. -/
theorem nodeAt?_of_undelivered {r : Except (Stop Float) Path}
    (hnone : delivered? net (archiveRequest c) = none) (h : install net c folder? s = (r, s'))
    {q : List String} (hq : q ≠ archivePlace s.disk (libraryPath c folder?)) :
    s'.disk.root.nodeAt? q = s.disk.root.nodeAt? q ∨ s.disk.root.nodeAt? q = none ∧
      s'.disk.root.nodeAt? q = some (.folder folderMode) ∧
        q ∈ reached [] (s.disk.whole (libraryPath c folder?).parent) := by
  rcases Site.change_bind h with ⟨fault, rfl, hmake⟩ | ⟨_, d₁, hmake, h⟩
  · exact (made_of_makeFolders hmake).nodes q
  have hmade := made_of_makeFolders hmake
  have hplace : d₁.placeOf (archivePath (libraryPath c folder?)) =
      archivePlace s.disk (libraryPath c folder?) :=
    (placeOf_congr hmade.here _).trans (placeOf_archivePath _ _)
  have hend {d₂ : Disk} (hwrite : d₂ = d₁ ∨
      ∃ bytes, write (archivePath (libraryPath c folder?)) bytes d₁ = (.ok (), d₂)) :
      d₂.here = d₁.here ∧ d₂.root.nodeAt? q = d₁.root.nodeAt? q := by
    rcases hwrite with rfl | ⟨bytes, hwrite⟩
    · exact ⟨rfl, rfl⟩
    · obtain ⟨-, -, mode, hset⟩ := write_sets hwrite
      exact ⟨hset.here, hset.same (hplace ▸ hq)⟩
  have hdownload : ∃ r₁ s₁ s₂, s₁.disk = d₁ ∧ s₂.disk = s'.disk ∧
      download net (archiveRequest c) (archivePath (libraryPath c folder?)) s₁ = (r₁, s₂) := by
    simp only [Site.say_bind] at h
    rcases Run.bind_cases h with ⟨e, hdownload, rfl⟩ | ⟨_, s₂, hdownload, -⟩
    · exact ⟨_, _, _, rfl, rfl, hdownload⟩
    · obtain ⟨d₂, -, ⟨⟨fault, hbroken⟩, -⟩ | ⟨reason, hfailed, -⟩⟩ :=
        download_of_undelivered hnone hdownload
      · cases hbroken
      · cases hfailed
  obtain ⟨r₁, s₁, s₂, rfl, hdisk, hdownload⟩ := hdownload
  obtain ⟨d₂, hwrite, hlast⟩ := download_of_undelivered hnone hdownload
  obtain ⟨hhere, hsame⟩ := hend hwrite
  have hafter : s'.disk.root.nodeAt? q = d₂.root.nodeAt? q := by
    rw [← hdisk]
    rcases hlast with ⟨-, hlast⟩ | ⟨reason, -, hremove⟩
    · rw [hlast]
    · rw [placeOf_congr hhere.symm] at hplace
      rcases remove_sets (by rw [hplace]; exact List.concat_ne_nil _ _) hremove with
        ⟨hlast, -⟩ | hset
      · rw [hlast]
      · exact hset.same (hplace ▸ hq)
  rw [hafter, hsame]
  exact hmade.nodes q

/-! ## The final place -/

/-- Where nothing is seen, the final place is a free one beside that of the unpacked folder. -/
structure Free (library : Path) (d : Disk) : Prop where
  free : d.root.nodeAt? (d.placeOf library) = none
  name : library.name ≠ archiveRoot
  whole : d.whole library = d.whole library.parent ++ [library.name]
  place : d.placeOf library = d.placeOf library.parent ++ [library.name]

theorem free_of_has (hlaid : d.Laid library.parent) (hnull : library.hasNull = false)
    (hother : unpackedPath library ≠ library) (hfree : d.has library = .ok false) :
    Free library d := by
  have hnone : d.root.nodeAt? (d.placeOf library) = none := by
    rw [nodeAt?_eq_none]
    cases hthere : d.root.at? (d.placeOf library) with
    | none => rfl
    | some new => exact Bool.noConfusion (holds_eq_false hlaid.way hnull hfree hthere)
  obtain ⟨hparts, hplace⟩ := placeOf_parent hlaid.placeOf (not_folderAt_of_none hnone)
  refine ⟨hnone, fun hname => hother ?_, d.whole_parent hparts, hplace⟩
  rw [unpackedPath, child_of_plain _ plain_archiveRoot, ← hname, Path.name,
    List.getLast?_eq_some_getLast hparts]
  exact congrArg (Path.mk library.root) (List.dropLast_append_getLast hparts)

theorem Free.apart (h : Free library d) : ¬ unpackedPlace d library <+: d.placeOf library ∧
    ¬ d.placeOf library <+: unpackedPlace d library := by
  rw [h.place]
  exact ⟨not_prefix_of_ne _ h.name.symm, not_prefix_of_ne _ h.name⟩

/-- The path of the final place leads there unless it leads through the folder that was moved. -/
theorem hasFolder_of_moved (hlaid : d.Laid library.parent) (hfree : Free library d)
    (hreaches : d.Reaches library) (hunpacked : d.root.FolderAt (unpackedPlace d library))
    (hmoved : Moved (unpackedPlace d library) (d.placeOf library) d d') :
    d'.hasFolder library = .ok true ↔
      unpackedPlace d library ∉ reached [] (d.whole library.parent) := by
  rw [hasFolder_iff]
  constructor
  · rintro ⟨hthere, -⟩ hway
    have henter := hthere.enterable (unpackedPlace d library) (by
      rw [whole_congr hmoved.here, hfree.whole]
      exact mem_passed_of_reached hway _)
    have hgone := hmoved.gone []
    rw [List.append_nil] at hgone
    exact not_folderAt_of_none (hgone hfree.apart.2) henter.folderAt
  · intro hway
    have hfolder : d'.root.FolderAt (d.placeOf library) := by
      rw [FolderAt, hmoved.self]
      exact hunpacked
    refine ⟨⟨hreaches.fit, fun q hq => ?_, by rw [whole_congr hmoved.here]; exact hreaches.short⟩,
      by rwa [placeOf_congr hmoved.here]⟩
    rw [whole_congr hmoved.here] at hq
    obtain ⟨mode, hmode, henter⟩ := hreaches.enterable q hq
    refine ⟨mode, ?_, henter⟩
    rw [hfree.whole] at hq
    have hthrough {name : String} (hunder : d.placeOf library.parent ++ [name] <+: q) :
        d.placeOf library.parent ++ [name] ∈ reached [] (d.whole library.parent) :=
      mem_reached_of_passed hq rfl
        (fun hnil => List.concat_ne_nil _ _ (List.prefix_nil.mp hnil)) hunder
    rw [hmoved.rest q (fun hunder => hway (hthrough hunder)) fun hunder => ?_]
    · exact hmode
    · rw [hfree.place] at hunder
      have hfolder := hlaid _ (.inr (hthrough hunder))
      rw [← hfree.place] at hfolder
      exact not_folderAt_of_none hfree.free hfolder

/-! ## Installations -/

/-- A folder stands in a place, and in it each member of the toolchain, the last one of its name. -/
def Holds (ms : List Member) (t : FileTree) (place : List String) : Prop :=
  t.FolderAt place ∧ ∀ m ∈ ms, ∀ rest, m.parts = archiveRoot :: rest →
    ∃ last, ms.reverse.find? (·.parts = m.parts) = some last ∧ last.isFolder = m.isFolder ∧
      last.Stands (t.nodeAt? (place ++ rest))

/-- The disk after the folder was moved to its final place. -/
theorem holds_of_moved {d₄ : Disk} (hextracted : Extracted library ms d d₄)
    (hfolder : d₄.hasFolder (unpackedPath library) = .ok true)
    (hother : unpackedPath library ≠ library) (hfree : d₄.has library = .ok false)
    (hmove : move (unpackedPath library) library d₄ = (.ok (), d')) :
    ¬ d'.root.FileAt (archivePlace d library) ∧ Holds ms d'.root (d.placeOf library) ∧
      (d'.hasFolder library = .ok true ↔
        unpackedPlace d library ∉ reached [] (d.whole library.parent)) := by
  have hreaches := reaches_of_move hmove
  have hfree := free_of_has hextracted.laid (hasNull_of_fit hreaches.fit) hother hfree
  have hunpackedPlace : unpackedPlace d₄ library = unpackedPlace d library := by
    rw [unpackedPlace, unpackedPlace, placeOf_congr hextracted.here]
  have hfolder := (hasFolder_iff.mp hfolder).2
  have hmoved := move_moves
    (by rw [placeOf_unpackedPath]; exact List.concat_ne_nil _ _)
    (by rw [placeOf_unpackedPath]; exact hfree.apart.1) hmove
  rw [placeOf_unpackedPath] at hfolder hmoved
  have hpath := hasFolder_of_moved hextracted.laid hfree hreaches hfolder hmoved
  rw [hunpackedPlace, whole_congr hextracted.here] at hpath
  have hself : d'.root.FolderAt (d.placeOf library) := by
    rw [FolderAt, ← placeOf_congr hextracted.here, hmoved.self]
    exact hfolder
  refine ⟨?_, ⟨hself, fun m hm rest hparts => ?_⟩, hpath⟩
  · by_cases hname : library.name = archiveName
    · -- the folder was moved to where the archive was
      have hplace : d.placeOf library = archivePlace d library := by
        rw [← placeOf_congr hextracted.here, hfree.place, hname, placeOf_congr hextracted.here]
        rfl
      exact hplace ▸ hself.not_fileAt
    · have hrest := hmoved.rest (archivePlace d₄ library) (not_prefix_of_ne _ (by decide))
        (by rw [hfree.place]; exact not_prefix_of_ne _ hname)
      have harchive : archivePlace d₄ library = archivePlace d library := by
        rw [archivePlace, archivePlace, placeOf_congr hextracted.here]
      rw [harchive, hextracted.gone] at hrest
      exact not_fileAt_of_none hrest
  · obtain ⟨last, hlast, hkind, hstands⟩ := hextracted.stands m hm rest hparts
    refine ⟨last, hlast, hkind, ?_⟩
    rw [← placeOf_congr hextracted.here, hmoved.moved, hunpackedPlace]
    exact hstands

namespace Ends

variable {r : Except (Stop Float) Path} {p : Path}

/-- The archive is gone. -/
theorem gone (h : Ends net request library d r d') :
    ¬ d'.root.FileAt (archivePlace d library) := by
  cases h with
  | undelivered hnone hmake hwrite hremove =>
    rename_i d₁ d₂
    have hmade := made_of_makeFolders hmake
    have hplace : d₁.placeOf (archivePath library) = archivePlace d library :=
      (placeOf_congr hmade.here _).trans (placeOf_archivePath d library)
    have hway := way_of_makeFolders hmake plain_archiveName
    have hafter : d₂.here = d₁.here ∧ ∀ q, d₁.root.FolderAt q → d₂.root.FolderAt q := by
      rcases hwrite with rfl | ⟨bytes, hwrite⟩
      · exact ⟨rfl, fun _ hq => hq⟩
      · obtain ⟨-, hfree, mode, hset⟩ := write_sets hwrite
        refine ⟨hset.here, fun q hq => ?_⟩
        rw [FolderAt, hset.same (by rintro rfl; exact hfree hq)]
        exact hq
    rw [placeOf_congr hafter.1.symm] at hplace
    obtain ⟨-, hgone, -⟩ := nodeAt?_of_remove (by rw [hplace]; exact List.concat_ne_nil _ _) hremove
      fun q hq hroot => hafter.2 q (hway q (whole_congr hafter.1 _ ▸ hq) hroot)
    rw [hplace] at hgone
    exact not_fileAt_of_none hgone
  | noArchive hsome hmembers hextracts => exact not_fileAt_of_none (extracted_of hextracts).gone
  | without hsome hmembers hextracts hfolder =>
    exact not_fileAt_of_none (extracted_of hextracts).gone
  | stays hsome hmembers hextracts hfolder =>
    exact not_fileAt_of_none (extracted_of hextracts).gone
  | moves hsome hmembers hextracts hfolder hother hfree hmove =>
    exact (holds_of_moved (extracted_of hextracts) hfolder hother hfree hmove).1

/-- A download that fails is what is reported. -/
theorem failed (h : Ends net request library d r d') (hnone : delivered? net request = none) :
    ∃ reason, r = .error (.failed (.build (.download request.url reason))) := by
  cases h with
  | undelivered => exact ⟨_, rfl⟩
  | noArchive hsome => cases hnone.symm.trans hsome
  | without hsome => cases hnone.symm.trans hsome
  | stays hsome => cases hnone.symm.trans hsome
  | moves hsome => cases hnone.symm.trans hsome

/-- Where the toolchain is in the end, it stands whole. -/
theorem holds (h : Ends net request library d (.ok p) d') :
    ∃ delivery ms, delivered? net request = some delivery ∧ delivery.members? = some ms ∧
      Holds ms d'.root (d.placeOf p) ∧ (d'.hasFolder p = .ok true ↔ p = unpackedPath library ∨
        unpackedPlace d library ∉ reached [] (d.whole library.parent)) := by
  cases h with
  | stays hsome hmembers hextracts hfolder =>
    have hextracted := extracted_of hextracts
    refine ⟨_, _, hsome, hmembers, ?_, iff_of_true hfolder (.inl rfl)⟩
    have hroot := (hasFolder_iff.mp hfolder).2
    rw [placeOf_congr hextracted.here, placeOf_unpackedPath] at hroot
    rw [placeOf_unpackedPath]
    exact ⟨hroot, hextracted.stands⟩
  | moves hsome hmembers hextracts hfolder hother hfree hmove =>
    obtain ⟨-, hholds, hpath⟩ :=
      holds_of_moved (extracted_of hextracts) hfolder hother hfree hmove
    exact ⟨_, _, hsome, hmembers, hholds, by rw [hpath, or_iff_right hother.symm]⟩

/-- The folder of the toolchain is looked for where it was unpacked. -/
theorem found_iff {delivery : Delivery} {d₁ d₂ d₃ : Disk} {found : Bool}
    (h : Extracts library delivery ms d d₁ d₂ d₃ d')
    (hfolder : d'.hasFolder (unpackedPath library) = .ok found) :
    found = true ↔ (∃ m ∈ ms, m.Inside) ∨ d.root.FolderAt (unpackedPlace d library) ∨
      unpackedPlace d library ∈ reached [] (d.whole library.parent) := by
  have hextracted := extracted_of h
  have hplace : d'.placeOf (unpackedPath library) = unpackedPlace d library :=
    (placeOf_congr hextracted.here _).trans (placeOf_unpackedPath d library)
  rw [← hextracted.unpacked]
  cases found with
  | true =>
    rw [← hplace]
    exact iff_of_true rfl (hasFolder_iff.mp hfolder).2
  | false =>
    refine iff_of_false Bool.false_ne_true fun hthere => ?_
    have hway : ∀ q ∈ passed [] (d'.whole (unpackedPath library)), d'.root.FolderAt q := by
      refine Laid.way ?_
      rw [unpackedPath, parent_child _ plain_archiveRoot]
      exact hextracted.laid
    have hnull : (unpackedPath library).hasNull = false := by
      rw [unpackedPath, hasNull_child _ plain_archiveRoot,
        hasNull_of_fit (fit_of_makeFolders h.makes)]
      decide
    rw [← hplace] at hthere
    obtain ⟨es, mode, hthere⟩ := folderAt_iff.mp hthere
    cases holds_eq_false hway hnull hfolder hthere

theorem ok_iff (h : Ends net request library d r d') : (∃ p, r = .ok p) ↔
    ∃ delivery ms, delivered? net request = some delivery ∧ delivery.members? = some ms ∧
      ((∃ m ∈ ms, m.Inside) ∨ d.root.FolderAt (unpackedPlace d library) ∨
        unpackedPlace d library ∈ reached [] (d.whole library.parent)) := by
  cases h with
  | undelivered hnone =>
    refine iff_of_false (by rintro ⟨p, hp⟩; cases hp) ?_
    rintro ⟨delivery, ms, hsome, -⟩
    cases hnone.symm.trans hsome
  | noArchive hsome hmembers =>
    refine iff_of_false (by rintro ⟨p, hp⟩; cases hp) ?_
    rintro ⟨delivery, ms, hsome', hmembers', -⟩
    cases hsome.symm.trans hsome'
    cases hmembers.symm.trans hmembers'
  | without hsome hmembers hextracts hfolder =>
    refine iff_of_false (by rintro ⟨p, hp⟩; cases hp) ?_
    rintro ⟨delivery, ms, hsome', hmembers', hroot⟩
    cases hsome.symm.trans hsome'
    cases hmembers.symm.trans hmembers'
    cases (found_iff hextracts hfolder).mpr hroot
  | stays hsome hmembers hextracts hfolder =>
    exact iff_of_true ⟨_, rfl⟩ ⟨_, _, hsome, hmembers, (found_iff hextracts hfolder).mp rfl⟩
  | moves hsome hmembers hextracts hfolder =>
    exact iff_of_true ⟨_, rfl⟩ ⟨_, _, hsome, hmembers, (found_iff hextracts hfolder).mp rfl⟩

end Ends

/-- However an installation ends, unless a fault of the disk breaks it off, no file is left where the
archive was. If the download fails, it has changed nothing else, but that folders were made. And a
path that it gives is that of a place where the toolchain stands whole; the path leads there unless
it leads through the unpacked folder, which was moved. -/
theorem install_exact {r : Except (Stop Float) Path} (h : install net c folder? s = (r, s')) :
    (Unbroken r → ¬ s'.disk.root.FileAt (archivePlace s.disk (libraryPath c folder?))) ∧
    (delivered? net (archiveRequest c) = none →
      (Unbroken r → ∃ reason,
        r = .error (.failed (.build (.download c.tools.libraryUrl reason)))) ∧
      ∀ q, q ≠ archivePlace s.disk (libraryPath c folder?) →
        s'.disk.root.nodeAt? q = s.disk.root.nodeAt? q ∨ s.disk.root.nodeAt? q = none ∧
          s'.disk.root.nodeAt? q = some (.folder folderMode) ∧
            q ∈ reached [] (s.disk.whole (libraryPath c folder?).parent)) ∧
    ∀ p, r = .ok p → ∃ delivery ms, delivered? net (archiveRequest c) = some delivery ∧
      delivery.members? = some ms ∧ Holds ms s'.disk.root (s.disk.placeOf p) ∧
      (s'.disk.hasFolder p = .ok true ↔ p = unpackedPath (libraryPath c folder?) ∨
        unpackedPlace s.disk (libraryPath c folder?) ∉
          reached [] (s.disk.whole (libraryPath c folder?).parent)) := by
  refine ⟨fun hr => (ends_of_install h hr).gone, fun hnone =>
    ⟨fun hr => (ends_of_install h hr).failed hnone, fun q => nodeAt?_of_undelivered hnone h⟩, ?_⟩
  rintro p rfl
  have hr : Unbroken (.ok p : Except (Stop Float) Path) := fun fault hp => by cases hp
  exact (ends_of_install h hr).holds

/-- An archive whose members are some files, and a download that delivers it. -/
def filesNet (files : List (String × String)) (_ : Download) : DownloadOutcome :=
  .answered
    { status := 200
      reason := "OK"
      bytes := .empty
      members? := some (files.map fun file => ⟨file.1, file.2.toUTF8, 0, true⟩)
      broken? := none }

/-- The path of the final place leads through the folder that is moved there. -/
theorem install_exact_of_winding_path :
    let net := filesNet [("gbdk-n-master/Makefile", "all:")]
    let c : Config Float := .standard "gbdk-n-master/../gbdk"
    let s : Site := { disk := ⟨.folder [] folderMode, []⟩ }
    let p : Path := ⟨"", ["gbdk-n-master", "..", "gbdk"]⟩
    ∃ s', install net c none s = (.ok p, s') ∧
      Holds [⟨"gbdk-n-master/Makefile", "all:".toUTF8, 0, true⟩] s'.disk.root ["gbdk"] ∧
      s'.disk.hasFolder p ≠ .ok true := by
  intro net c s p
  have hok : (install net c none s).1.toOption = some p := by decide +kernel
  have h : install net c none s = (.ok p, (install net c none s).2) := by
    refine Prod.ext ?_ rfl
    cases hr : (install net c none s).1 with
    | error e =>
      rw [hr] at hok
      cases hok
    | ok found =>
      rw [hr] at hok
      exact congrArg Except.ok (Option.some.inj hok)
  obtain ⟨delivery, ms, hsome, hmembers, hholds, hpath⟩ := (install_exact h).2.2 p rfl
  cases hsome
  cases hmembers
  refine ⟨_, h, hholds, fun hfolder => ?_⟩
  rcases hpath.mp hfolder with hunpacked | hway
  · exact absurd hunpacked (by decide +kernel)
  · exact hway (by decide +kernel)

/-- An installation that no fault of the disk breaks off gives a path exactly if an archive was
delivered, and either a member of it is in the folder of the toolchain, or that folder was there
before, or the path of the final place leads through it. -/
theorem install_ok_iff {r : Except (Stop Float) Path} (h : install net c folder? s = (r, s'))
    (hr : Unbroken r) : (∃ p, r = .ok p) ↔
      ∃ delivery ms, delivered? net (archiveRequest c) = some delivery ∧
        delivery.members? = some ms ∧ ((∃ m ∈ ms, m.Inside) ∨
          s.disk.root.FolderAt (unpackedPlace s.disk (libraryPath c folder?)) ∨
          unpackedPlace s.disk (libraryPath c folder?) ∈
            reached [] (s.disk.whole (libraryPath c folder?).parent)) :=
  (ends_of_install h hr).ok_iff

/-- Nothing of the archive is in the folder of the toolchain, which an earlier installation left. -/
theorem install_ok_iff_of_earlier_installation :
    let net := filesNet [("README.md", "")]
    let c : Config Float := .standard "bin/gbdk-n-master"
    let s : Site := { disk := ⟨.folder [("bin", .folder [("gbdk-n-master", .folder [] folderMode)]
      folderMode)] folderMode, []⟩ }
    (∃ p, (install net c none s).1 = .ok p) ∧
      ∀ m ∈ ([⟨"README.md", "".toUTF8, 0, true⟩] : List Member), ¬ m.Inside := by
  intro net c s
  have hr : Unbroken (install net c none s).1 := by
    intro fault hbroken
    have hsome : (install net c none s).1.toOption.isSome = true := by decide +kernel
    rw [hbroken] at hsome
    cases hsome
  have hearlier : s.disk.root.FolderAt (unpackedPlace s.disk (libraryPath c none)) := by
    have hplace : unpackedPlace s.disk (libraryPath c none) = ["bin", "gbdk-n-master"] := by
      decide +kernel
    rw [hplace]
    exact ⟨folderMode, rfl⟩
  refine ⟨(install_ok_iff rfl hr).mpr ⟨_, _, rfl, rfl, .inr (.inl hearlier)⟩, ?_⟩
  rintro m hm ⟨rest, hparts, -⟩
  rw [List.mem_singleton.mp hm] at hparts
  have hname : (["README.md"] : List String) = archiveRoot :: rest := hparts
  exact absurd (List.cons.inj hname).1 (by decide)

end Toolchain

end Cartridge
