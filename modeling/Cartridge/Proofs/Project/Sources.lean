import Cartridge.Project.Scan
import Cartridge.Proofs.Entries
import Cartridge.Proofs.FileTree.Written
import Mathlib.Data.List.Forall2
import Mathlib.Data.List.Nodup

/-!
# The source files of a tree

A walk through a tree finds the files with the names of sources that no passed-over folder holds, as
far as the folders on the way can be listed, and these come in an order that only their names
decide. Two things in one folder have different names, and there is no slash in a name. So the names
that lead to a source file make a path that no other source file has.

* `Proper`: the trees that can stand on a disk.
* `SourceAt`, `Accessible`, `mem_sourcesOf_iff`: the source files that a walk through such a tree
  finds.
* `Earlier`, `pairwise_sourcesOf`: the order in which it finds them.
* `nodup_sourcesOf`: no two source files of such a tree stand at the same place.
* `nodup_paths`: the files of a project that was scanned have different paths.
-/

namespace Cartridge

section Values

variable {ε α β γ : Type}

theorem exists_of_bind_eq_ok {x : Except ε α} {f : α → Except ε β} {b : β}
    (h : (x >>= f) = .ok b) : ∃ a, x = .ok a ∧ f a = .ok b := by
  cases x with
  | error e => cases h
  | ok a => exact ⟨a, rfl, h⟩

theorem map_of_mapM {f : α → Except ε β} {g : β → γ} {k : α → γ} {items : List α}
    {results : List β} (hf : ∀ a b, f a = .ok b → g b = k a) (h : items.mapM f = .ok results) :
    results.map g = items.map k := by
  induction items generalizing results with
  | nil =>
    cases h
    rfl
  | cons a rest ih =>
    rw [List.mapM_cons] at h
    obtain ⟨b, hb, h⟩ := exists_of_bind_eq_ok h
    obtain ⟨others, hothers, h⟩ := exists_of_bind_eq_ok h
    cases h
    rw [List.map_cons, List.map_cons, hf a b hb, ih hothers]

end Values

namespace FileTree

/-- A tree as it can stand on a disk: the names in a folder differ, and no slash is in them. -/
inductive Proper : FileTree → Prop
  | file (bytes : ByteArray) (mode : Nat) : Proper (.file bytes mode)
  | folder {es : Entries FileTree} {mode : Nat} (hnames : (Entries.names es).Nodup)
      (hslash : ∀ name ∈ Entries.names es, '/' ∉ name.toList)
      (hbelow : ∀ e ∈ es, Proper e.2) : Proper (.folder es mode)

theorem Proper.child {t found : FileTree} {name : String} (h : t.Proper)
    (hchild : t.child? name = some found) : found.Proper := by
  cases h with
  | file bytes mode => cases hchild
  | folder hnames hslash hbelow => exact hbelow _ (Entries.mem_of_get? hchild)

theorem Proper.at {t found : FileTree} {names : List String} (h : t.Proper)
    (hat : t.at? names = some found) : found.Proper := by
  induction names generalizing t with
  | nil =>
    cases hat
    exact h
  | cons name rest ih =>
    rw [at?] at hat
    split at hat
    · rename_i next hnext
      exact ih (h.child hnext) hat
    · cases hat

end FileTree

theorem Disk.entry_proper {d : Disk} {p : Path} {t : FileTree} (hroot : d.root.Proper)
    (h : d.entry p = .ok t) : t.Proper := by
  unfold Disk.entry at h
  obtain ⟨names, -, h⟩ := exists_of_bind_eq_ok h
  split at h
  · rename_i found hat
    cases h
    exact hroot.at hat
  · cases h

/-! ## Entries of a folder -/

theorem Text.endsWith_iff {text tail : String} :
    Text.endsWith text tail = true ↔ ∃ front, text = front ++ tail := by
  rw [Text.endsWith, List.isSuffixOf_iff_suffix]
  constructor
  · rintro ⟨front, hfront⟩
    exact ⟨.ofList front, String.toList_inj.mp (by simp [hfront])⟩
  · rintro ⟨front, rfl⟩
    exact ⟨front.toList, String.toList_append.symm⟩

namespace Project

theorem names_byName_perm {α : Type} (named : Entries α) :
    (Entries.names (byName named)).Perm (Entries.names named) :=
  (List.mergeSort_perm named _).map _

theorem increasing_byName {α : Type} {named : Entries α} (h : (Entries.names named).Nodup) :
    (Entries.names (byName named)).Pairwise (· < ·) := by
  have hsorted : (byName named).Pairwise fun a b => a.1 ≤ b.1 :=
    Entries.pairwise_sortedBy (·.1) named
  have hdistinct : (Entries.names (byName named)).Nodup := (names_byName_perm named).nodup_iff.mpr h
  exact ((List.pairwise_map.mpr hsorted).and hdistinct).imp fun h => Std.lt_of_le_of_ne h.1 h.2

theorem mem_ownSources_iff {es : Entries FileTree} {name : String} :
    name ∈ ownSources es ↔
      ∃ t, (name, t) ∈ es ∧ t.isFolder = false ∧ Source.isSourceName name = true := by
  rw [ownSources, (names_byName_perm _).mem_iff, Entries.names, List.mem_map]
  constructor
  · rintro ⟨⟨first, t⟩, hmem, rfl⟩
    rw [List.mem_filter, Bool.and_eq_true, Bool.not_eq_true'] at hmem
    exact ⟨t, hmem⟩
  · rintro ⟨t, hmem, hfile, hnamed⟩
    refine ⟨(name, t), ?_, rfl⟩
    rw [List.mem_filter, Bool.and_eq_true, Bool.not_eq_true']
    exact ⟨hmem, hfile, hnamed⟩

section Below

variable {lists : List String → Bool}

theorem mem_sourcesBelow_iff {es : Entries FileTree} {name : String}
    {places : List (List String)} :
    (name, places) ∈ sourcesBelow es lists ↔
      ∃ t, (name, t) ∈ es ∧ t.isFolder = true ∧ name ∉ skippedFolders ∧
        places = sourcesOf t fun names => lists (name :: names) := by
  induction es with
  | nil =>
    rw [sourcesBelow]
    simp
  | cons e rest ih =>
    obtain ⟨first, t⟩ := e
    have hfirst : (t.isFolder && !skippedFolders.contains first) = true ↔
        t.isFolder = true ∧ first ∉ skippedFolders := by simp
    rw [sourcesBelow]
    split
    · rename_i hopen
      obtain ⟨hfolder, hkept⟩ := hfirst.mp hopen
      rw [List.mem_cons, ih]
      constructor
      · rintro (heq | ⟨t', ht', hplaces⟩)
        · cases heq
          exact ⟨t, List.mem_cons_self, hfolder, hkept, rfl⟩
        · exact ⟨t', List.mem_cons_of_mem _ ht', hplaces⟩
      · rintro ⟨t', ht', hplaces⟩
        rcases List.mem_cons.mp ht' with heq | ht'
        · cases heq
          exact .inl (Prod.ext rfl hplaces.2.2)
        · exact .inr ⟨t', ht', hplaces⟩
    · rename_i hclosed
      rw [ih]
      constructor
      · rintro ⟨t', ht', hplaces⟩
        exact ⟨t', List.mem_cons_of_mem _ ht', hplaces⟩
      · rintro ⟨t', ht', hplaces⟩
        rcases List.mem_cons.mp ht' with heq | ht'
        · cases heq
          exact absurd (hfirst.mpr ⟨hplaces.1, hplaces.2.1⟩) hclosed
        · exact ⟨t', ht', hplaces⟩

variable (lists) in
theorem names_sourcesBelow_sublist (es : Entries FileTree) :
    (Entries.names (sourcesBelow es lists)).Sublist (Entries.names es) := by
  induction es with
  | nil =>
    rw [sourcesBelow]
    exact List.nil_sublist _
  | cons e rest ih =>
    obtain ⟨first, t⟩ := e
    rw [sourcesBelow]
    split
    · exact ih.cons_cons first
    · exact ih.cons first

end Below

/-! ## What is found -/

section Walk

variable {t : FileTree} {lists : List String → Bool} {names : List String}

theorem isFolder_of_mem_sourcesOf (h : names ∈ sourcesOf t lists) : t.isFolder = true := by
  cases t with
  | file bytes mode =>
    rw [sourcesOf] at h
    cases h
  | folder es mode => rfl

/-- What is found in a folder is one of its own sources, or is found in one of the folders in it. -/
theorem mem_sourcesOf_folder_iff {es : Entries FileTree} {mode : Nat} :
    names ∈ sourcesOf (.folder es mode) lists ↔ lists [] = true ∧
      ((∃ name, names = [name] ∧ name ∈ ownSources es) ∨
        ∃ name below t, names = name :: below ∧ (name, t) ∈ es ∧ name ∉ skippedFolders ∧
          below ∈ sourcesOf t fun names => lists (name :: names)) := by
  rw [sourcesOf]
  split
  · rename_i hlists
    rw [iff_true_intro hlists, true_and, List.mem_append, List.mem_map, List.mem_flatMap]
    apply or_congr
    · exact exists_congr fun name => ⟨fun h => ⟨h.2.symm, h.1⟩, fun h => ⟨h.2, h.1.symm⟩⟩
    · constructor
      · rintro ⟨⟨name, places⟩, hmem, hplaces⟩
        obtain ⟨t, ht, -, hkept, rfl⟩ :=
          mem_sourcesBelow_iff.mp ((List.mergeSort_perm _ _).mem_iff.mp hmem)
        obtain ⟨below, hbelow, rfl⟩ := List.mem_map.mp hplaces
        exact ⟨name, below, t, rfl, ht, hkept, hbelow⟩
      · rintro ⟨name, below, t, rfl, ht, hkept, hbelow⟩
        have hopen : (name, sourcesOf t fun names => lists (name :: names)) ∈
            sourcesBelow es lists :=
          mem_sourcesBelow_iff.mpr ⟨t, ht, isFolder_of_mem_sourcesOf hbelow, hkept, rfl⟩
        exact ⟨_, (List.mergeSort_perm _ _).mem_iff.mpr hopen,
          List.mem_map.mpr ⟨below, hbelow, rfl⟩⟩
  · rename_i hlists
    exact iff_of_false List.not_mem_nil fun h => hlists h.1

theorem ne_nil_of_mem_sourcesOf (h : names ∈ sourcesOf t lists) : names ≠ [] := by
  cases t with
  | file bytes mode =>
    rw [sourcesOf] at h
    cases h
  | folder es mode =>
    obtain ⟨-, ⟨name, rfl, -⟩ | ⟨name, below, -, rfl, -⟩⟩ := mem_sourcesOf_folder_iff.mp h
    · exact List.cons_ne_nil _ _
    · exact List.cons_ne_nil _ _

theorem slash_not_mem_of_mem_sourcesOf (ht : t.Proper) (h : names ∈ sourcesOf t lists) :
    ∀ name ∈ names, '/' ∉ name.toList := by
  induction ht generalizing names lists with
  | file bytes mode =>
    rw [sourcesOf] at h
    cases h
  | folder hnames hslash hbelow ih =>
    obtain ⟨-, ⟨name, rfl, hown⟩ | ⟨name, below, t, rfl, hmem, -, hfound⟩⟩ :=
      mem_sourcesOf_folder_iff.mp h
    · obtain ⟨found, hmem, -⟩ := mem_ownSources_iff.mp hown
      rw [List.forall_mem_singleton]
      exact hslash _ (List.mem_map_of_mem hmem)
    · rw [List.forall_mem_cons]
      exact ⟨hslash _ (List.mem_map_of_mem hmem), ih _ hmem hfound⟩

end Walk

/-! ## Places -/

/-- The names that lead to each source file of a tree all folders of which can be listed. -/
def placesOf (t : FileTree) : List (List String) := sourcesOf t fun _ => true

/-- The order of a walk: a folder's own files come before what is in the folders in it, and either
are in the order of the names. -/
inductive Earlier : List String → List String → Prop where
  /-- Two files of one folder. -/
  | files {name name' : String} (h : name < name') : Earlier [name] [name']
  /-- A file of a folder, and something in a folder in it. -/
  | fileFirst {name name' : String} {below : List String} (h : below ≠ []) :
    Earlier [name] (name' :: below)
  /-- Something in each of two folders of one folder. -/
  | folders {name name' : String} {below below' : List String} (hne : below ≠ [])
    (hne' : below' ≠ []) (h : name < name') : Earlier (name :: below) (name' :: below')
  /-- Two things in one folder of a folder. -/
  | within {name : String} {below below' : List String} (h : Earlier below below') :
    Earlier (name :: below) (name :: below')

theorem Earlier.asymm {names names' : List String} (h : Earlier names names') :
    ¬ Earlier names' names := by
  induction h with
  | files hlt =>
    intro h'
    cases h' with
    | files hlt' => exact String.lt_asymm hlt hlt'
    | fileFirst hne => exact hne rfl
    | folders hne hne' hlt' => exact hne rfl
    | within h' => cases h'
  | fileFirst hne =>
    intro h'
    cases h' with
    | files hlt => exact hne rfl
    | fileFirst hne' => exact hne' rfl
    | folders hne hne' hlt => exact hne' rfl
    | within h' => cases h'
  | folders hne hne' hlt =>
    intro h'
    cases h' with
    | files hlt' => exact hne rfl
    | fileFirst hne'' => exact hne' rfl
    | folders hne hne' hlt' => exact String.lt_asymm hlt hlt'
    | within h' => exact String.lt_irrefl _ hlt
  | within h ih =>
    intro h'
    cases h' with
    | files hlt => exact String.lt_irrefl _ hlt
    | fileFirst hne => cases h
    | folders hne hne' hlt => exact String.lt_irrefl _ hlt
    | within h' => exact ih h'

theorem Earlier.ne {names names' : List String} (h : Earlier names names') : names ≠ names' := by
  rintro rfl
  exact h.asymm h

/-- A walk finds the source files in order. -/
theorem pairwise_sourcesOf {t : FileTree} (ht : t.Proper) (lists : List String → Bool) :
    (sourcesOf t lists).Pairwise Earlier := by
  induction ht generalizing lists with
  | file bytes mode =>
    rw [sourcesOf]
    exact .nil
  | @folder es mode hnames hslash hbelow ih =>
    have hown : ((ownSources es).map ([·])).Pairwise Earlier := by
      refine List.pairwise_map.mpr ((increasing_byName ?_).imp .files)
      exact hnames.sublist (List.filter_sublist.map _)
    have hfolders : (Entries.names (byName (sourcesBelow es lists))).Pairwise (· < ·) :=
      increasing_byName (hnames.sublist (names_sourcesBelow_sublist lists es))
    have hplaces : ∀ e ∈ byName (sourcesBelow es lists),
        ∃ t, (e.1, t) ∈ es ∧ e.2 = sourcesOf t fun names => lists (e.1 :: names) := by
      intro e he
      obtain ⟨t, ht, -, -, hplaces⟩ :=
        mem_sourcesBelow_iff.mp ((List.mergeSort_perm _ _).mem_iff.mp he)
      exact ⟨t, ht, hplaces⟩
    have hnonempty : ∀ e ∈ byName (sourcesBelow es lists), ∀ below ∈ e.2, below ≠ [] := by
      intro e he below hbelow
      obtain ⟨t, -, hplaces⟩ := hplaces e he
      exact ne_nil_of_mem_sourcesOf (hplaces ▸ hbelow)
    have hdeep : ((byName (sourcesBelow es lists)).flatMap
        fun e => e.2.map (e.1 :: ·)).Pairwise Earlier := by
      refine List.pairwise_flatMap.mpr ⟨fun e he => ?_, ?_⟩
      · obtain ⟨t, ht, hplaces⟩ := hplaces e he
        rw [hplaces]
        exact List.pairwise_map.mpr ((ih _ ht _).imp .within)
      · -- what leads through one folder comes before what leads through a later one
        refine (List.pairwise_map.mp hfolders).imp_of_mem fun {e e'} he he' hlt => ?_
        intro names hnames names' hnames'
        obtain ⟨below, hbelow, rfl⟩ := List.mem_map.mp hnames
        obtain ⟨below', hbelow', rfl⟩ := List.mem_map.mp hnames'
        exact .folders (hnonempty e he below hbelow) (hnonempty e' he' below' hbelow') hlt
    rw [sourcesOf]
    split
    · refine List.pairwise_append.mpr ⟨hown, hdeep, ?_⟩
      intro names hnames names' hnames'
      obtain ⟨name, -, rfl⟩ := List.mem_map.mp hnames
      obtain ⟨e, he, hnames'⟩ := List.mem_flatMap.mp hnames'
      obtain ⟨below, hbelow, rfl⟩ := List.mem_map.mp hnames'
      exact .fileFirst (hnonempty e he below hbelow)
    · exact .nil

theorem nodup_sourcesOf {t : FileTree} (ht : t.Proper) (lists : List String → Bool) :
    (sourcesOf t lists).Nodup :=
  (pairwise_sourcesOf ht lists).imp Earlier.ne

theorem toString_names {names : List String} (hne : names ≠ []) :
    Path.toString ⟨"", names⟩ = "/".intercalate names := by
  have hempty : names.isEmpty = false := by simpa using hne
  rw [Path.toString, hempty]
  exact String.empty_append

theorem splitOn_path {names : List String} (hne : names ≠ [])
    (h : ∀ name ∈ names, '/' ∉ name.toList) :
    Text.splitOn (Path.toString ⟨"", names⟩) '/' = names := by
  rw [toString_names hne]
  exact Text.splitOn_joined hne h

/-- The paths of a tree's source files differ. -/
theorem nodup_paths_of_sourcesOf {t : FileTree} (ht : t.Proper) (lists : List String → Bool) :
    ((sourcesOf t lists).map fun names => Path.toString ⟨"", names⟩).Nodup := by
  refine (nodup_sourcesOf ht lists).map_on fun names hnames names' hnames' heq => ?_
  rw [← splitOn_path (ne_nil_of_mem_sourcesOf hnames) (slash_not_mem_of_mem_sourcesOf ht hnames),
    heq, splitOn_path (ne_nil_of_mem_sourcesOf hnames') (slash_not_mem_of_mem_sourcesOf ht hnames')]

variable {rules : Config.ProjectRules} {d : Disk}

theorem path_of_readSource {folder : Path} {names : List String} {file : SourceFile}
    (h : readSource rules d folder names = .ok file) : file.path = Path.toString ⟨"", names⟩ := by
  obtain ⟨content, -, h⟩ := exists_of_bind_eq_ok h
  cases h
  rfl

variable {at_ : Path} {t : FileTree}

theorem scan_folder (hnull : at_.hasNull = false)
    (hentry : d.entry (d.current.resolve at_) = .ok t) (hfolder : t.isFolder = true) :
    scan rules d at_ = ((sourcesOf t (listsBelow d (d.current.resolve at_))).mapM
      (readSource rules d (d.current.resolve at_))).map ofFiles := by
  unfold scan
  dsimp only
  rw [hnull, hentry]
  show (if t.isFolder then _ else _) = _
  rw [if_pos hfolder]
  show ((sourcesOf t (listsBelow d _)).mapM (readSource rules d _) >>= _) = _
  cases (sourcesOf t (listsBelow d (d.current.resolve at_))).mapM
      (readSource rules d (d.current.resolve at_)) with
  | error e => rfl
  | ok files => rfl

theorem scan_file (hnull : at_.hasNull = false)
    (hentry : d.entry (d.current.resolve at_) = .ok t) (hfile : t.isFolder = false) :
    scan rules d at_ = (readSource rules d (d.current.resolve at_).parent
      [(d.current.resolve at_).name]).map fun f => ofFiles [f] := by
  unfold scan
  dsimp only
  rw [hnull, hentry]
  show (if t.isFolder then _ else _) = _
  rw [if_neg (by rw [hfile]; exact Bool.false_ne_true)]
  show (readSource rules d _ _ >>= _) = _
  cases readSource rules d (d.current.resolve at_).parent [(d.current.resolve at_).name] <;> rfl

/-- No two files of a project that was scanned on a disk have the same path. -/
theorem nodup_paths {p : Project} (hroot : d.root.Proper) (h : scan rules d at_ = .ok p) :
    (p.files.map (·.path)).Nodup := by
  unfold scan at h
  dsimp only at h
  split at h
  · cases h
  obtain ⟨t, ht, h⟩ := exists_of_bind_eq_ok h
  have htree := Disk.entry_proper hroot ht
  split at h
  · obtain ⟨files, hfiles, h⟩ := exists_of_bind_eq_ok h
    cases h
    show (files.map (·.path)).Nodup
    rw [map_of_mapM (fun names file hfile => path_of_readSource hfile) hfiles]
    exact nodup_paths_of_sourcesOf htree _
  · obtain ⟨file, -, h⟩ := exists_of_bind_eq_ok h
    cases h
    exact List.nodup_singleton _

end Project

end Cartridge
