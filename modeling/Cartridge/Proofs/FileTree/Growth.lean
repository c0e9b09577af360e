import Cartridge.Proofs.FileTree.Places

/-!
# Disks that only grow

A file that is written takes the place of a file or comes where nothing was. So folders stay as they
are, every path leads where it led, and after several files were written there is what was there
before and what stands at the places of these files.

* `FileTree.kindAt?_put`: what stands in a place after a file is put somewhere.
* `Grown`: a disk after some files were written.
* `grown_of_write`, `Grown.trans`: one file, and several.
* `locate_ne_of_last`: paths with different last names lead to different places.
* `Grown.has`, `Grown.isFile`: what is found at a path after that.
* `HasText`, `HasText.write`: a file with a text, and that it stays where another one is written.
-/

namespace Cartridge

namespace FileTree

/-- What can stand in a place: a file, or a folder with its permission bits. -/
inductive Kind where
  | file
  | folder (mode : Nat)
  deriving DecidableEq

def kind : FileTree → Kind
  | .file .. => .file
  | .folder _ mode => .folder mode

/-- What stands at the end of some names, if anything does. -/
def kindAt? (t : FileTree) (names : List String) : Option Kind := (t.at? names).map kind

theorem kindAt?_eq_folder {t : FileTree} {names : List String} {mode : Nat} :
    t.kindAt? names = some (.folder mode) ↔ ∃ es, t.at? names = some (.folder es mode) := by
  unfold kindAt?
  cases t.at? names with
  | none => simp
  | some found =>
    cases found with
    | file bytes mode => simp [kind]
    | folder es mode' => simp [kind]

/-- What stands in a place decides which kind of thing does. -/
def Node.kind : Node → Kind
  | .file .. => .file
  | .folder mode => .folder mode

theorem kindAt?_eq (t : FileTree) (names : List String) :
    t.kindAt? names = (t.nodeAt? names).map Node.kind := by
  rw [kindAt?, nodeAt?, Option.map_map]
  congr 1
  funext found
  cases found <;> rfl

/-- A file that is put into an open place, where no folder is, changes what stands there and nothing
else. -/
theorem kindAt?_put {t : FileTree} {names : List String} (hopen : Disk.Open t names)
    (hnames : ∀ es mode, t.at? names ≠ some (.folder es mode)) (bytes : ByteArray) (mode : Nat)
    (place : List String) : (t.put names (.file bytes mode)).kindAt? place =
      if place = names then some .file else t.kindAt? place := by
  rw [kindAt?_eq, kindAt?_eq, nodeAt?_put_leaf hopen (not_folderAt_iff.mpr hnames)
    fun name rest => nodeAt?_file_cons bytes mode name rest]
  split <;> rfl

/-- A file stays as it is if something is put into another place where no folder is. -/
theorem at?_put_of_file {t : FileTree} {names place : List String} {bytes : ByteArray} {mode : Nat}
    (hplace : t.at? place = some (.file bytes mode)) (hne : place ≠ names)
    (hnames : ∀ es mode, t.at? names ≠ some (.folder es mode)) (new : FileTree) :
    (t.put names new).at? place = some (.file bytes mode) := by
  induction names generalizing t place with
  | nil =>
    cases t with
    | folder es mode' => exact absurd rfl (hnames es mode')
    | file old mode' =>
      cases place with
      | nil => exact absurd rfl hne
      | cons first others => cases hplace
  | cons name rest ih =>
    cases t with
    | file old mode' => exact hplace
    | folder es mode' =>
      cases place with
      | nil => cases hplace
      | cons first others =>
        rw [at?_folder_cons] at hplace
        obtain ⟨next, hnext, hplace⟩ := Option.bind_eq_some_iff.mp hplace
        rw [put, at?_folder_cons]
        by_cases hfirst : first = name
        · subst hfirst
          rw [Entries.get?_put_self, hnext]
          refine ih hplace (fun h => hne (congrArg _ h)) fun es' mode'' hfolder => ?_
          apply hnames es' mode''
          rw [at?_folder_cons, hnext]
          exact hfolder
        · rw [Entries.get?_put_of_ne _ _ hfirst, hnext]
          exact hplace

end FileTree

namespace Disk

variable {t t' : FileTree} {d d' d'' : Disk} {p q : Path} {place parts found : List String}

/-! ## Paths -/

/-- Two trees have the same folders. -/
def SameFolders (t t' : FileTree) : Prop :=
  ∀ place mode, t'.kindAt? place = some (.folder mode) ↔ t.kindAt? place = some (.folder mode)

theorem follow_of_sameFolders (h : SameFolders t t') (hfollow : follow t place parts = .ok found) :
    follow t' place parts = .ok found := by
  induction parts generalizing place with
  | nil => exact hfollow
  | cons part rest ih =>
    rw [follow] at hfollow ⊢
    cases hstep : step t place part with
    | error e =>
      rw [hstep] at hfollow
      cases hfollow
    | ok next =>
      rw [hstep] at hfollow
      obtain ⟨es, mode, hplace, henter, hname, rfl⟩ := step_ok hstep
      obtain ⟨es', hplace'⟩ := FileTree.kindAt?_eq_folder.mp
        ((h place mode).mpr (FileTree.kindAt?_eq_folder.mpr ⟨es, hplace⟩))
      rw [step_of_folder hplace' henter hname]
      exact ih hfollow

theorem locate_eq_ok : d.locate p = .ok place ↔
    unfit? p = none ∧ follow d.root [] (d.whole p) = .ok place := by
  unfold locate
  cases unfit? p with
  | none => simp
  | some e => simp

theorem open_of_locate (h : d.locate p = .ok place) : Open d.root place :=
  open_of_follow (fun n hn => by cases hn) (locate_eq_ok.mp h).2

theorem follow_concat {part : String} (h : follow t place (parts ++ [part]) = .ok found) :
    ∃ before, follow t place parts = .ok before ∧ step t before part = .ok found := by
  induction parts generalizing place with
  | nil =>
    rw [List.nil_append, follow] at h
    cases hstep : step t place part with
    | error e =>
      rw [hstep] at h
      cases h
    | ok next =>
      rw [hstep] at h
      cases h
      exact ⟨place, rfl, hstep⟩
  | cons first rest ih =>
    rw [List.cons_append, follow] at h
    cases hstep : step t place first with
    | error e =>
      rw [hstep] at h
      cases h
    | ok next =>
      rw [hstep] at h
      obtain ⟨before, hbefore, hlast⟩ := ih h
      refine ⟨before, ?_, hlast⟩
      rw [follow, hstep]
      exact hbefore

/-- A path whose last part is a name leads to this name in some folder. -/
theorem locate_of_last {above : List String} {name : String} (hparts : p.parts = above ++ [name])
    (hname : name ≠ "..") (h : d.locate p = .ok place) : ∃ folder, place = folder ++ [name] := by
  have hwhole : ∃ before, d.whole p = before ++ [name] := by
    unfold whole
    rw [hparts]
    split
    · exact ⟨above, rfl⟩
    · exact ⟨d.here ++ above, (List.append_assoc _ _ _).symm⟩
  obtain ⟨before, hwhole⟩ := hwhole
  have hfollow := (locate_eq_ok.mp h).2
  rw [hwhole] at hfollow
  obtain ⟨folder, -, hstep⟩ := follow_concat hfollow
  obtain ⟨_, _, -, -, -, hplace⟩ := step_ok hstep
  rw [if_neg hname] at hplace
  exact ⟨folder, hplace⟩

/-- Paths whose last parts are different names lead to different places. -/
theorem locate_ne_of_last {q : Path} {above above' : List String} {name name' : String}
    (hp : p.parts = above ++ [name]) (hq : q.parts = above' ++ [name']) (hname : name ≠ "..")
    (hname' : name' ≠ "..") (hne : name ≠ name') (h : d.locate p = .ok place) :
    d.locate q ≠ .ok place := by
  intro h'
  obtain ⟨folder, hplace⟩ := locate_of_last hp hname h
  obtain ⟨folder', hplace'⟩ := locate_of_last hq hname' h'
  have hnames : [name] = [name'] := List.append_inj_right' (hplace.symm.trans hplace') rfl
  exact hne (List.singleton_inj.mp hnames)

/-! ## Disks after files were written -/

/-- A disk after files were written at some paths. -/
structure Grown (new : List Path) (d d' : Disk) : Prop where
  here : d'.here = d.here
  folders : SameFolders d.root d'.root
  there : ∀ place, (d'.root.kindAt? place).isSome ↔
    (d.root.kindAt? place).isSome ∨ ∃ p ∈ new, d.locate p = .ok place

variable {new new' : List Path}

/-- Every path leads where it led. -/
theorem Grown.locate (h : Grown new d d') : d'.locate p = .ok place ↔ d.locate p = .ok place := by
  have hwhole : d'.whole p = d.whole p := by rw [whole, whole, h.here]
  rw [locate_eq_ok, locate_eq_ok, hwhole]
  refine and_congr_right fun _ => ⟨?_, follow_of_sameFolders h.folders⟩
  exact follow_of_sameFolders fun place mode => (h.folders place mode).symm

theorem Grown.refl (d : Disk) : Grown [] d d where
  here := rfl
  folders _ _ := Iff.rfl
  there _ := by simp

theorem Grown.trans (h : Grown new d d') (h' : Grown new' d' d'') :
    Grown (new' ++ new) d d'' where
  here := h'.here.trans h.here
  folders place mode := (h'.folders place mode).trans (h.folders place mode)
  there place := by
    rw [h'.there, h.there]
    simp only [h.locate, List.mem_append, or_and_right, exists_or]
    rw [or_assoc]
    exact or_congr_right or_comm

theorem Grown.congr (h : Grown new d d') (hnew : ∀ p, p ∈ new ↔ p ∈ new') : Grown new' d d' where
  here := h.here
  folders := h.folders
  there place := by simp only [h.there, hnew]

theorem grown_of_write {bytes : ByteArray} (h : write p bytes d = (.ok (), d')) :
    Grown [p] d d' := by
  obtain ⟨names, mode, hlocate, hnames, -, rfl⟩ := write_ok h
  have hput := FileTree.kindAt?_put (open_of_locate hlocate) hnames bytes mode
  refine ⟨rfl, fun place mode' => ?_, fun place => ?_⟩
  · show (d.root.put names _).kindAt? place = _ ↔ _
    rw [hput]
    split
    · rename_i hplace
      subst hplace
      constructor
      · intro hfile
        cases hfile
      · intro hfolder
        obtain ⟨es, hfolder⟩ := FileTree.kindAt?_eq_folder.mp hfolder
        exact absurd hfolder (hnames es mode')
    · exact Iff.rfl
  · show ((d.root.put names _).kindAt? place).isSome ↔ _
    rw [hput]
    simp only [List.mem_singleton, exists_eq_left, hlocate, Except.ok.injEq]
    split
    · rename_i hplace
      simp [hplace]
    · rename_i hplace
      simp [Ne.symm hplace]

/-! ## What is found -/

theorem has_eq_true : d.has p = .ok true ↔
    ∃ place, d.locate p = .ok place ∧ (d.root.kindAt? place).isSome := by
  unfold has holds entry FileTree.kindAt?
  cases d.locate p with
  | error e => cases e <;> simp [bind, Except.bind, Fault.meansAbsence]
  | ok place =>
    simp only [bind, Except.bind, Except.ok.injEq, exists_eq_left', Option.isSome_map]
    cases d.root.at? place with
    | none => simp [Fault.meansAbsence]
    | some t => simp [pure, Except.pure]

/-- At a path there is what was there, and what was written at its place. -/
theorem Grown.has (h : Grown new d d') : d'.has p = .ok true ↔
    d.has p = .ok true ∨ ∃ q ∈ new, ∃ place, d.locate q = .ok place ∧ d.locate p = .ok place := by
  rw [has_eq_true, has_eq_true]
  simp only [h.locate, h.there]
  constructor
  · rintro ⟨place, hplace, hthere | ⟨q, hq, hwritten⟩⟩
    · exact .inl ⟨place, hplace, hthere⟩
    · exact .inr ⟨q, hq, place, hwritten, hplace⟩
  · rintro (⟨place, hplace, hthere⟩ | ⟨q, hq, place, hwritten, hplace⟩)
    · exact ⟨place, hplace, .inl hthere⟩
    · exact ⟨place, hplace, .inr ⟨q, hq, hwritten⟩⟩

/-- A file stands at a path. -/
def IsFile (d : Disk) (p : Path) : Prop :=
  ∃ place, d.locate p = .ok place ∧ d.root.kindAt? place = some .file

theorem isFile_of_has (hthere : d.has p = .ok true) (hfolder : d.hasFolder p = .ok false) :
    d.IsFile p := by
  obtain ⟨place, hplace, hsome⟩ := has_eq_true.mp hthere
  refine ⟨place, hplace, ?_⟩
  unfold hasFolder holds entry at hfolder
  unfold FileTree.kindAt? at hsome ⊢
  rw [hplace] at hfolder
  dsimp only [bind, Except.bind] at hfolder
  cases hfound : d.root.at? place with
  | none =>
    rw [hfound] at hsome
    cases hsome
  | some t =>
    rw [hfound] at hfolder
    cases t with
    | file bytes mode => rfl
    | folder es mode => cases hfolder

theorem IsFile.hasFolder (h : d.IsFile p) : d.hasFolder p = .ok false := by
  obtain ⟨place, hplace, hfile⟩ := h
  unfold Disk.hasFolder holds entry
  unfold FileTree.kindAt? at hfile
  rw [hplace]
  dsimp only [bind, Except.bind]
  cases hfound : d.root.at? place with
  | none =>
    rw [hfound] at hfile
    cases hfile
  | some t =>
    rw [hfound] at hfile
    cases t with
    | file bytes mode => rfl
    | folder es mode => cases hfile

/-- A file stays one. -/
theorem Grown.isFile (h : Grown new d d') (hp : d.IsFile p) : d'.IsFile p := by
  obtain ⟨place, hplace, hfile⟩ := hp
  refine ⟨place, h.locate.mpr hplace, ?_⟩
  have hthere := (h.there place).mpr (.inl (by rw [hfile]; rfl))
  obtain ⟨kind, hkind⟩ := Option.isSome_iff_exists.mp hthere
  cases kind with
  | file => exact hkind
  | folder mode =>
    rw [(h.folders place mode).mp hkind] at hfile
    cases hfile

/-- A file with a text stands at a path. -/
def HasText (d : Disk) (p : Path) (text : String) : Prop :=
  ∃ mode, d.entry p = .ok (.file text.toUTF8 mode)

theorem hasText_of_writeText {text : String} (h : writeText p text d = (.ok (), d')) :
    d'.HasText p text := by
  obtain ⟨mode, hentry, -⟩ := entry_of_write h
  exact ⟨mode, hentry⟩

/-- One text at most stands at a path. -/
theorem HasText.unique {text text' : String} (h : d.HasText p text) (h' : d.HasText p text') :
    text = text' := by
  obtain ⟨mode, hentry⟩ := h
  obtain ⟨mode', hentry'⟩ := h'
  have hbytes : text.toUTF8 = text'.toUTF8 :=
    (FileTree.file.inj (Except.ok.inj (hentry.symm.trans hentry'))).1
  have htexts := congrArg String.fromUTF8? hbytes
  rw [fromUTF8?_toUTF8, fromUTF8?_toUTF8] at htexts
  exact Option.some.inj htexts

/-- A file stays as it is if another one is written. -/
theorem HasText.write {bytes : ByteArray} {text : String} (hq : d.HasText q text)
    (h : Disk.write p bytes d = (.ok (), d'))
    (hne : ∀ place, d.locate p = .ok place → d.locate q ≠ .ok place) : d'.HasText q text := by
  obtain ⟨mode, hentry⟩ := hq
  have hgrown := grown_of_write h
  obtain ⟨names, mode', hlocate, hnames, -, rfl⟩ := write_ok h
  refine ⟨mode, ?_⟩
  unfold entry at hentry ⊢
  cases hplace : d.locate q with
  | error e =>
    rw [hplace] at hentry
    cases hentry
  | ok place =>
    rw [hplace] at hentry
    rw [hgrown.locate.mpr hplace]
    dsimp only [bind, Except.bind] at hentry ⊢
    split at hentry
    · rename_i t hthere
      cases hentry
      have hother : place ≠ names := by
        rintro rfl
        exact hne place hlocate hplace
      have hstays : (d.root.put names (.file bytes mode')).at? place =
          some (.file text.toUTF8 mode) :=
        FileTree.at?_put_of_file hthere hother hnames _
      rw [putAt, hstays]
      rfl
    · cases hentry

end Disk

end Cartridge
