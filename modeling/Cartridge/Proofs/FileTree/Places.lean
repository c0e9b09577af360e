import Cartridge.Proofs.Entries
import Cartridge.Proofs.FileTree.Written

/-!
# The places of a tree

What stands in each place, apart from what a folder holds, is all there is to say about a tree.
Something that is put into a place stands there with all that it holds, and what is taken away is
gone with all that it held. Nothing changes anywhere else.

* `nodeAt?`: what stands in a place, apart from what it holds.
* `nodeAt?_put_append`, `nodeAt?_put_elsewhere`: what stands where after something is put.
* `nodeAt?_put_leaf`: so it is for a file, and for a folder that holds nothing.
* `nodeAt?_erase_append`, `nodeAt?_erase_elsewhere`: what stands where after something is taken
  away.
-/

namespace Cartridge.FileTree

/-- A file or a folder, apart from what a folder holds. -/
inductive Node where
  | file (bytes : ByteArray) (mode : Nat)
  | folder (mode : Nat)

def node : FileTree → Node
  | .file bytes mode => .file bytes mode
  | .folder _ mode => .folder mode

/-- What stands at the end of some names, apart from what it holds. -/
def nodeAt? (t : FileTree) (names : List String) : Option Node := (t.at? names).map node

/-- A folder stands in a place. -/
def FolderAt (t : FileTree) (place : List String) : Prop :=
  ∃ mode, t.nodeAt? place = some (.folder mode)

/-- A file stands in a place. -/
def FileAt (t : FileTree) (place : List String) : Prop :=
  ∃ bytes mode, t.nodeAt? place = some (.file bytes mode)

variable {t new : FileTree} {names place : List String}

/-! ## Looking -/

theorem nodeAt?_eq_folder {mode : Nat} :
    t.nodeAt? place = some (.folder mode) ↔ ∃ es, t.at? place = some (.folder es mode) := by
  unfold nodeAt?
  cases t.at? place with
  | none => simp
  | some found => cases found <;> simp [node]

theorem nodeAt?_eq_file {bytes : ByteArray} {mode : Nat} :
    t.nodeAt? place = some (.file bytes mode) ↔ t.at? place = some (.file bytes mode) := by
  unfold nodeAt?
  cases t.at? place with
  | none => simp
  | some found => cases found <;> simp [node]

theorem nodeAt?_eq_none : t.nodeAt? place = none ↔ t.at? place = none := Option.map_eq_none_iff

theorem not_fileAt_of_none (h : t.nodeAt? place = none) : ¬ t.FileAt place := by
  rintro ⟨bytes, mode, hfile⟩
  rw [h] at hfile
  cases hfile

theorem not_folderAt_of_none (h : t.nodeAt? place = none) : ¬ t.FolderAt place := by
  rintro ⟨mode, hfolder⟩
  rw [h] at hfolder
  cases hfolder

theorem FolderAt.not_fileAt (h : t.FolderAt place) : ¬ t.FileAt place := by
  rintro ⟨bytes, mode, hfile⟩
  obtain ⟨mode', hfolder⟩ := h
  rw [hfolder] at hfile
  cases hfile

/-- Nothing in a folder is below another thing in it. -/
theorem not_prefix_of_ne (place : List String) {name other : String} (h : name ≠ other) :
    ¬ place ++ [name] <+: place ++ [other] := by
  rw [List.prefix_append_right_inj, List.cons_prefix_cons]
  exact fun hunder => h hunder.1

theorem folderAt_iff : t.FolderAt place ↔ ∃ es mode, t.at? place = some (.folder es mode) := by
  unfold FolderAt
  simp only [nodeAt?_eq_folder]
  exact exists_comm

theorem not_folderAt_iff :
    ¬ t.FolderAt place ↔ ∀ es mode, t.at? place ≠ some (.folder es mode) := by
  rw [folderAt_iff]
  simp only [not_exists]

theorem nodeAt?_folder_cons (es : List (String × FileTree)) (mode : Nat) (name : String)
    (rest : List String) : (FileTree.folder es mode).nodeAt? (name :: rest) =
      (Entries.get? es name).bind fun next => next.nodeAt? rest := by
  rw [nodeAt?, at?_folder_cons]
  cases Entries.get? es name <;> rfl

theorem nodeAt?_file_cons (bytes : ByteArray) (mode : Nat) (name : String) (rest : List String) :
    (FileTree.file bytes mode).nodeAt? (name :: rest) = none := rfl

/-- What stands below a place is what the thing in it holds. -/
theorem nodeAt?_append (t : FileTree) (place rest : List String) :
    t.nodeAt? (place ++ rest) = (t.at? place).bind fun found => found.nodeAt? rest := by
  induction place generalizing t with
  | nil => rfl
  | cons name place ih =>
    rw [List.cons_append, at?]
    cases t with
    | file bytes mode => rfl
    | folder es mode =>
      rw [nodeAt?_folder_cons, child?, entries]
      cases Entries.get? es name with
      | none => rfl
      | some next => exact ih next

/-- Only a folder holds something. -/
theorem folderAt_of_below {rest : List String} {found : Node} (hrest : rest ≠ [])
    (h : t.nodeAt? (place ++ rest) = some found) : t.FolderAt place := by
  rw [nodeAt?_append] at h
  obtain ⟨here, hhere, hbelow⟩ := Option.bind_eq_some_iff.mp h
  cases here with
  | folder es mode => exact folderAt_iff.mpr ⟨es, mode, hhere⟩
  | file bytes mode =>
    cases rest with
    | nil => exact absurd rfl hrest
    | cons name rest => cases hbelow

theorem nodeAt?_below (hfolder : ¬ t.FolderAt place) {rest : List String} (hrest : rest ≠ []) :
    t.nodeAt? (place ++ rest) = none := by
  cases h : t.nodeAt? (place ++ rest) with
  | none => rfl
  | some found => exact absurd (folderAt_of_below hrest h) hfolder

theorem open_iff : Disk.Open t place ↔ ∀ n < place.length, t.FolderAt (place.take n) := by
  unfold Disk.Open
  simp only [folderAt_iff]

/-! ## Putting -/

/-- What is put into a place stands there, with all that it holds. -/
theorem nodeAt?_put_append (hopen : Disk.Open t names) (new : FileTree) (rest : List String) :
    (t.put names new).nodeAt? (names ++ rest) = new.nodeAt? rest := by
  have hthere : (t.put names new).at? names = some new := by
    refine at?_put_self _ _ _ fun n hn bytes mode hfile => ?_
    obtain ⟨es, mode', hfolder⟩ := hopen n hn
    rw [hfolder] at hfile
    cases hfile
  rw [nodeAt?_append, hthere, Option.bind_some]

theorem nodeAt?_put_elsewhere (hopen : Disk.Open t names) (new : FileTree)
    (h : ¬ names <+: place) : (t.put names new).nodeAt? place = t.nodeAt? place := by
  induction names generalizing t place with
  | nil => exact absurd List.nil_prefix h
  | cons name rest ih =>
    obtain ⟨es, mode, hroot⟩ := hopen 0 (Nat.succ_pos _)
    cases hroot
    cases place with
    | nil => rfl
    | cons first others =>
      rw [put, nodeAt?_folder_cons, nodeAt?_folder_cons]
      by_cases hfirst : first = name
      · subst hfirst
        have hrest : ¬ rest <+: others := fun hunder => h (List.prefix_cons_inj first |>.mpr hunder)
        cases hnext : Entries.get? es first with
        | some next =>
          have hopen' : Disk.Open next rest := by
            intro n hn
            obtain ⟨es', mode', hfolder⟩ := hopen (n + 1) (Nat.succ_lt_succ hn)
            rw [List.take_succ_cons, at?_folder_cons, hnext] at hfolder
            exact ⟨es', mode', hfolder⟩
          rw [Entries.get?_put_self, Option.bind_some, Option.bind_some, Option.getD_some]
          exact ih hopen' hrest
        | none =>
          -- the folders on the way are there, so the place is the one below the folder
          cases rest with
          | nil => exact absurd List.nil_prefix hrest
          | cons second more =>
            obtain ⟨es', mode', hfolder⟩ := hopen 1 (by simp)
            rw [List.take_succ_cons, at?_folder_cons, hnext] at hfolder
            cases hfolder
      · rw [Entries.get?_put_of_ne _ _ hfirst]

/-- A thing that holds nothing, put where no folder is, changes what stands there and nothing
else. -/
theorem nodeAt?_put_leaf (hopen : Disk.Open t names) (hnames : ¬ t.FolderAt names)
    (hleaf : ∀ name rest, new.nodeAt? (name :: rest) = none) (place : List String) :
    (t.put names new).nodeAt? place = if place = names then some new.node else t.nodeAt? place := by
  by_cases hunder : names <+: place
  · obtain ⟨rest, rfl⟩ := hunder
    rw [nodeAt?_put_append hopen]
    cases rest with
    | nil => rw [List.append_nil, if_pos rfl]; rfl
    | cons name rest =>
      rw [hleaf, if_neg (by simp), nodeAt?_below hnames (List.cons_ne_nil _ _)]
  · rw [nodeAt?_put_elsewhere hopen new hunder, if_neg]
    rintro rfl
    exact hunder (List.prefix_refl _)

theorem nodeAt?_newFolder_cons (name : String) (rest : List String) :
    newFolder.nodeAt? (name :: rest) = none := rfl

/-! ## Taking away -/

/-- The first of several names leads to the folder from which something is taken away. -/
theorem erase_cons_of_ne_nil {name : String} {rest : List String} (hrest : rest ≠ [])
    (es : List (String × FileTree)) (mode : Nat) :
    (FileTree.folder es mode).erase (name :: rest) =
      match Entries.get? es name with
      | some next => .folder (Entries.put es name (next.erase rest)) mode
      | none => .folder es mode := by
  cases rest with
  | nil => exact absurd rfl hrest
  | cons second more => cases hnext : Entries.get? es name <;> simp only [erase, hnext]

/-- What is taken away is gone, with all that it held. -/
theorem nodeAt?_erase_append (hnames : names ≠ []) (t : FileTree) (rest : List String) :
    (t.erase names).nodeAt? (names ++ rest) = none := by
  induction names generalizing t with
  | nil => exact absurd rfl hnames
  | cons name more ih =>
    cases t with
    | file bytes mode => cases more <;> rfl
    | folder es mode =>
      rw [List.cons_append]
      by_cases hmore : more = []
      · subst hmore
        rw [erase, nodeAt?_folder_cons, Entries.get?_erase_self, Option.bind_none]
      · rw [erase_cons_of_ne_nil hmore]
        cases hnext : Entries.get? es name with
        | none =>
          dsimp only
          rw [nodeAt?_folder_cons, hnext, Option.bind_none]
        | some next =>
          dsimp only
          rw [nodeAt?_folder_cons, Entries.get?_put_self, Option.bind_some, ih hmore]

theorem nodeAt?_erase_elsewhere (t : FileTree) (h : ¬ names <+: place) :
    (t.erase names).nodeAt? place = t.nodeAt? place := by
  induction names generalizing t place with
  | nil => exact absurd List.nil_prefix h
  | cons name more ih =>
    cases t with
    | file bytes mode => cases more <;> rfl
    | folder es mode =>
      cases place with
      | nil =>
        by_cases hmore : more = []
        · subst hmore
          rfl
        · rw [erase_cons_of_ne_nil hmore]
          cases Entries.get? es name <;> rfl
      | cons first others =>
        rw [List.cons_prefix_cons, not_and] at h
        by_cases hmore : more = []
        · subst hmore
          have hfirst : first ≠ name := fun heq => h heq.symm List.nil_prefix
          rw [erase, nodeAt?_folder_cons, nodeAt?_folder_cons, Entries.get?_erase_of_ne _ hfirst]
        · rw [erase_cons_of_ne_nil hmore]
          cases hnext : Entries.get? es name with
          | none => rfl
          | some next =>
            dsimp only
            rw [nodeAt?_folder_cons, nodeAt?_folder_cons]
            by_cases hfirst : first = name
            · subst hfirst
              rw [Entries.get?_put_self, hnext, Option.bind_some, Option.bind_some, ih _ (h rfl)]
            · rw [Entries.get?_put_of_ne _ _ hfirst]

end Cartridge.FileTree
