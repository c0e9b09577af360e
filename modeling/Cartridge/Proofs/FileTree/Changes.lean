import Cartridge.Proofs.FileTree.Trails
import Cartridge.Proofs.Run

/-!
# What a change leaves as it was

Each way to change a disk changes what stands in one place, or makes folders on the way to one. What
was stopped has changed nothing, except that folders may have been made.

* `SetAt`, `Made`: disks that differ in one place, and by folders that were made.
* `write_sets`, `setMode_sets`, `remove_sets`: changes of one place.
* `made_of_makeFolders`, `folderAt_of_makeFolders`: folders that were made.
* `move_moves`: something that was moved.
-/

namespace Cartridge.Disk

open FileTree Cartridge.Path

variable {t t' : FileTree} {d d' d'' : Disk} {p : Path} {place parts q : List String}

/-- A disk that differs from another one in what stands in one place. -/
structure SetAt (place : List String) (new : Option Node) (d d' : Disk) : Prop where
  here : d'.here = d.here
  nodes : ∀ q, d'.root.nodeAt? q = if q = place then new else d.root.nodeAt? q

/-- A disk after some folders were made where nothing was. -/
structure Made (new : List (List String)) (d d' : Disk) : Prop where
  here : d'.here = d.here
  nodes : ∀ q, d'.root.nodeAt? q = d.root.nodeAt? q ∨
    d.root.nodeAt? q = none ∧ d'.root.nodeAt? q = some (.folder folderMode) ∧ q ∈ new

theorem SetAt.same {new : Option Node} (h : SetAt place new d d') (hq : q ≠ place) :
    d'.root.nodeAt? q = d.root.nodeAt? q := by rw [h.nodes, if_neg hq]

theorem SetAt.self {new : Option Node} (h : SetAt place new d d') :
    d'.root.nodeAt? place = new := by rw [h.nodes, if_pos rfl]

theorem whole_congr (h : d'.here = d.here) (p : Path) : d'.whole p = d.whole p := by
  rw [whole, whole, h]

theorem placeOf_congr (h : d'.here = d.here) (p : Path) : d'.placeOf p = d.placeOf p := by
  rw [placeOf, placeOf, whole_congr h]

namespace Made

variable {new new' : List (List String)}

theorem refl (new : List (List String)) (d : Disk) : Made new d d := ⟨rfl, fun _ => .inl rfl⟩

theorem mono (h : Made new d d') (hnew : ∀ q ∈ new, q ∈ new') : Made new' d d' :=
  ⟨h.here, fun q => (h.nodes q).imp_right fun ⟨hnone, hmade, hq⟩ => ⟨hnone, hmade, hnew q hq⟩⟩

theorem trans (h : Made new d d') (h' : Made new d' d'') : Made new d d'' where
  here := h'.here.trans h.here
  nodes q := by
    rcases h.nodes q with hsame | ⟨hnone, hmade, hq⟩ <;> rcases h'.nodes q with hsame' | hnew
    · exact .inl (hsame'.trans hsame)
    · exact .inr ⟨hsame ▸ hnew.1, hnew.2⟩
    · exact .inr ⟨hnone, hsame'.trans hmade, hq⟩
    · rw [hmade] at hnew
      cases hnew.1

/-- What was there stays as it was. -/
theorem keeps {node : Node} (h : Made new d d') (hq : d.root.nodeAt? q = some node) :
    d'.root.nodeAt? q = some node := by
  rcases h.nodes q with hsame | ⟨hnone, -⟩
  · exact hsame.trans hq
  · rw [hnone] at hq
    cases hq

theorem folderAt (h : Made new d d') (hq : d.root.FolderAt q) : d'.root.FolderAt q :=
  hq.imp fun _ hmode => h.keeps hmode

/-- If the folders are there, nothing else is a folder that was none before. -/
theorem folderAt_iff (h : Made new d d') (hall : ∀ q ∈ new, d'.root.FolderAt q) :
    d'.root.FolderAt q ↔ d.root.FolderAt q ∨ q ∈ new := by
  refine ⟨fun hq => ?_, fun hq => hq.elim h.folderAt (hall q)⟩
  rcases h.nodes q with hsame | ⟨-, -, hnew⟩
  · rw [FolderAt, hsame] at hq
    exact .inl hq
  · exact .inr hnew

end Made

/-! ## Changes of one place -/

theorem write_sets {bytes : ByteArray} (h : write p bytes d = (.ok (), d')) :
    d.Reaches p ∧ ¬ d.root.FolderAt (d.placeOf p) ∧
      ∃ mode, SetAt (d.placeOf p) (some (.file bytes mode)) d d' := by
  obtain ⟨names, mode, hlocate, hnames, -, rfl⟩ := write_ok h
  have hopen := open_of_locate hlocate
  obtain ⟨rfl, hreaches⟩ := locate_eq.mp hlocate
  have hfolder := not_folderAt_iff.mpr hnames
  exact ⟨hreaches, hfolder, mode, rfl,
    nodeAt?_put_leaf hopen hfolder fun name rest => nodeAt?_file_cons bytes mode name rest⟩

/-- The same with other permission bits. -/
def withBits (bits : Nat) : Node → Node
  | .file bytes _ => .file bytes bits
  | .folder _ => .folder bits

theorem node_withMode (bits : Nat) (t : FileTree) : (t.withMode bits).node = withBits bits t.node := by
  cases t <;> rfl

theorem setMode_sets {bits : Nat} (h : setMode p bits d = (.ok (), d')) :
    ∃ node, d.root.nodeAt? (d.placeOf p) = some node ∧
      SetAt (d.placeOf p) (some (withBits bits node)) d d' := by
  obtain ⟨_, _, hget, h⟩ := Run.bind_eq_ok h
  cases hget
  obtain ⟨names, _, hsource, h⟩ := Run.bind_eq_ok h
  obtain ⟨hlocate, rfl⟩ := Prod.mk.inj hsource
  have hopen := open_of_locate hlocate
  obtain ⟨rfl, -⟩ := locate_eq.mp hlocate
  cases hthere : d.root.at? (d.placeOf p) with
  | none =>
    rw [hthere] at h
    cases h
  | some found =>
    rw [hthere] at h
    cases h
    have hnode : d.root.nodeAt? (d.placeOf p) = some found.node := by
      rw [nodeAt?, hthere, Option.map_some]
    refine ⟨found.node, hnode, rfl, fun q => ?_⟩
    show (d.root.put (d.placeOf p) (found.withMode bits)).nodeAt? q = _
    by_cases hunder : d.placeOf p <+: q
    · obtain ⟨rest, rfl⟩ := hunder
      rw [nodeAt?_put_append hopen]
      cases rest with
      | nil => rw [List.append_nil, if_pos rfl, ← node_withMode]; rfl
      | cons name rest =>
        rw [if_neg (by simp), nodeAt?_append, hthere, Option.bind_some]
        cases found <;> rfl
    · rw [nodeAt?_put_elsewhere hopen _ hunder, if_neg]
      rintro rfl
      exact hunder (List.prefix_refl _)

/-- A file that was removed is gone. Else nothing was there, or a folder on the way is missing. -/
theorem remove_sets (hplace : d.placeOf p ≠ []) (h : remove p d = (.ok (), d')) :
    d' = d ∧ (d.root.nodeAt? (d.placeOf p) = none ∨
        ∃ q ∈ passed [] (d.whole p), ¬ d.root.FolderAt q) ∨
      SetAt (d.placeOf p) none d d' := by
  obtain ⟨_, _, hget, h⟩ := Run.bind_eq_ok h
  cases hget
  cases hlocate : d.locate p with
  | error e =>
    rw [hlocate] at h
    cases e <;> cases h
    refine .inl ⟨rfl, .inr ?_⟩
    unfold locate at hlocate
    split at hlocate
    · rename_i e hfit
      cases hlocate
      unfold unfit? at hfit
      split at hfit
      · cases hfit
      · split at hfit <;> cases hfit
    · exact exists_of_follow_error hlocate rfl
  | ok names =>
    rw [hlocate] at h
    obtain ⟨rfl, -⟩ := locate_eq.mp hlocate
    cases hthere : d.root.at? (d.placeOf p) with
    | none =>
      simp only [hthere] at h
      cases h
      exact .inl ⟨rfl, .inl (nodeAt?_eq_none.mpr hthere)⟩
    | some found =>
      simp only [hthere] at h
      split at h
      · cases h
      · split at h
        · cases h
        · rename_i hfile
          cases h
          have hbelow : ¬ d.root.FolderAt (d.placeOf p) := by
            rw [not_folderAt_iff, hthere]
            rintro es mode hfolder
            cases hfolder
            exact hfile rfl
          refine .inr ⟨rfl, fun q => ?_⟩
          show (d.root.erase (d.placeOf p)).nodeAt? q = _
          by_cases hunder : d.placeOf p <+: q
          · obtain ⟨rest, rfl⟩ := hunder
            rw [nodeAt?_erase_append hplace]
            cases rest with
            | nil => rw [List.append_nil, if_pos rfl]
            | cons name rest =>
              rw [if_neg (by simp), nodeAt?_below hbelow (List.cons_ne_nil _ _)]
          · rw [nodeAt?_erase_elsewhere _ hunder, if_neg]
            rintro rfl
            exact hunder (List.prefix_refl _)

/-- A removed file is gone, and nothing else is changed, if the folders on the way are there. -/
theorem nodeAt?_of_remove (hplace : d.placeOf p ≠ []) (h : remove p d = (.ok (), d'))
    (hway : ∀ q ∈ passed [] (d.whole p), q ≠ [] → d.root.FolderAt q) :
    d'.here = d.here ∧ d'.root.nodeAt? (d.placeOf p) = none ∧
      ∀ q, q ≠ d.placeOf p → d'.root.nodeAt? q = d.root.nodeAt? q := by
  rcases remove_sets hplace h with ⟨rfl, hnone | ⟨q, hq, hnot⟩⟩ | hset
  · exact ⟨rfl, hnone, fun _ _ => rfl⟩
  · -- nothing is below a root that is no folder
    by_cases hroot : q = []
    · subst hroot
      have hnone : d'.root.nodeAt? ([] ++ d'.placeOf p) = none := nodeAt?_below hnot hplace
      exact ⟨rfl, hnone, fun _ _ => rfl⟩
    · exact absurd (hway q hq hroot) hnot
  · exact ⟨hset.here, hset.self, fun _ => hset.same⟩

theorem remove_stopped {e : Fault} (h : remove p d = (.error e, d')) : d' = d := by
  unfold remove at h
  rw [Run.bind_apply] at h
  dsimp only [Run.get] at h
  cases hlocate : d.locate p with
  | error e =>
    rw [hlocate] at h
    cases e <;> cases h <;> rfl
  | ok names =>
    simp only [hlocate] at h
    cases hthere : d.root.at? names with
    | none =>
      simp only [hthere] at h
      cases h
    | some found =>
      simp only [hthere] at h
      split at h
      · cases h
        rfl
      · split at h <;> cases h
        rfl

/-! ## Folders that are made -/

theorem open_onward {part : String} (hopen : Open t place) (hplace : t.FolderAt place) :
    Open t (onward place part) := by
  rw [open_iff] at hopen ⊢
  unfold onward
  split
  · intro n hn
    rw [List.length_dropLast] at hn
    rw [List.dropLast_eq_take, List.take_take, Nat.min_eq_left (by omega)]
    exact hopen n (by omega)
  · intro n hn
    rw [List.length_append, List.length_singleton] at hn
    by_cases hlast : n = place.length
    · rw [hlast, List.take_left]
      exact hplace
    · rw [List.take_append_of_le_length (by omega)]
      exact hopen n (by omega)

theorem nodeAt?_makeFrom {made : Bool} {r : Except Fault Unit} (hopen : Open t place)
    (h : makeFrom t made place parts = (r, t')) :
    (∀ q, t'.nodeAt? q = t.nodeAt? q ∨ t.nodeAt? q = none ∧
      t'.nodeAt? q = some (.folder folderMode) ∧ q ∈ reached place parts) ∧
    (r = .ok () → ∀ q ∈ reached place parts, t'.FolderAt q) := by
  induction parts generalizing t made place with
  | nil =>
    cases h
    exact ⟨fun _ => .inl rfl, fun _ q hq => by cases hq⟩
  | cons part rest ih =>
    rw [makeFrom] at h
    have hstopped {e : Fault} (h : (.error e, t) = (r, t')) : (∀ q, t'.nodeAt? q = t.nodeAt? q ∨
        t.nodeAt? q = none ∧ t'.nodeAt? q = some (.folder folderMode) ∧
          q ∈ reached place (part :: rest)) ∧
        (r = .ok () → ∀ q ∈ reached place (part :: rest), t'.FolderAt q) := by
      cases h
      exact ⟨fun _ => .inl rfl, fun hr => by cases hr⟩
    cases hstep : step t place part with
    | error e =>
      rw [hstep] at h
      exact hstopped h
    | ok next =>
      obtain ⟨rfl, henter, -⟩ := step_eq_ok.mp hstep
      have hnext : Open t (onward place part) := open_onward hopen henter.folderAt
      rw [hstep] at h
      dsimp only at h
      split at h
      · rename_i es mode hthere
        obtain ⟨hnodes, hmade⟩ := ih hnext h
        refine ⟨fun q => (hnodes q).imp_right fun ⟨hnone, hnew, hq⟩ =>
          ⟨hnone, hnew, List.mem_cons_of_mem _ hq⟩, fun hr => ?_⟩
        have hfolder : t'.FolderAt (onward place part) := by
          have hbefore : t.nodeAt? (onward place part) = some (.folder mode) :=
            nodeAt?_eq_folder.mpr ⟨es, hthere⟩
          rcases hnodes (onward place part) with hsame | ⟨hnone, -⟩
          · exact ⟨mode, hsame.trans hbefore⟩
          · rw [hnone] at hbefore
            cases hbefore
        exact List.forall_mem_cons.mpr ⟨hfolder, hmade hr⟩
      · exact hstopped h
      · rename_i hthere
        split at h
        · have hnone : t.nodeAt? (onward place part) = none := nodeAt?_eq_none.mpr hthere
          have hput := nodeAt?_put_leaf hnext (not_folderAt_of_none hnone) nodeAt?_newFolder_cons
          have hopen' : Open (t.put (onward place part) newFolder) (onward place part) := by
            rw [open_iff] at hnext ⊢
            intro n hn
            obtain ⟨mode, hmode⟩ := hnext n hn
            refine ⟨mode, ?_⟩
            rw [hput, if_neg, hmode]
            intro heq
            have hlength := congrArg List.length heq
            rw [List.length_take] at hlength
            omega
          obtain ⟨hnodes, hmade⟩ := ih hopen' h
          have hself : t'.nodeAt? (onward place part) = some (.folder folderMode) := by
            rcases hnodes (onward place part) with hsame | ⟨-, hnew, -⟩
            · rw [hsame, hput, if_pos rfl]
              rfl
            · exact hnew
          refine ⟨fun q => ?_, fun hr =>
            List.forall_mem_cons.mpr ⟨⟨folderMode, hself⟩, hmade hr⟩⟩
          by_cases hq : q = onward place part
          · subst hq
            exact .inr ⟨hnone, hself, List.mem_cons_self⟩
          · have hbefore := hput q
            rw [if_neg hq] at hbefore
            rw [← hbefore]
            exact (hnodes q).imp_right fun ⟨hnone, hnew, hmem⟩ =>
              ⟨hnone, hnew, List.mem_cons_of_mem _ hmem⟩
        · exact hstopped h

theorem fit_of_makeFolders (h : makeFolders p d = (.ok (), d')) : unfit? p = none := by
  unfold makeFolders at h
  split at h
  · cases h
  · assumption

/-- Folders are made on the way only, whatever comes of it. -/
theorem made_of_makeFolders {r : Except Fault Unit} (h : makeFolders p d = (r, d')) :
    Made (reached [] (d.whole p)) d d' := by
  unfold makeFolders at h
  split at h
  · cases h
    exact .refl _ _
  · cases h
    exact ⟨rfl, (nodeAt?_makeFrom (fun n hn => by cases hn) rfl).1⟩

/-- Once the folders are made, every place on the way is one. -/
theorem folderAt_of_makeFolders (h : makeFolders p d = (.ok (), d')) :
    ∀ q ∈ reached [] (d.whole p), d'.root.FolderAt q := by
  unfold makeFolders at h
  split at h
  · cases h
  · obtain ⟨hr, rfl⟩ := Prod.mk.inj h
    exact (nodeAt?_makeFrom (fun n hn => by cases hn) rfl).2 hr

/-- Once the folders are made, so are those on the way to what is in the last one. -/
theorem way_of_makeFolders {name : String} (h : makeFolders p d = (.ok (), d')) (hname : Plain name) :
    ∀ q ∈ passed [] (d'.whole (p.child name)), q ≠ [] → d'.root.FolderAt q := by
  intro q hq hroot
  rw [whole_child _ _ hname, whole_congr (made_of_makeFolders h).here, passed_append,
    List.mem_append] at hq
  refine folderAt_of_makeFolders h q ?_
  rcases hq with hq | hq
  · exact (mem_passed hq).resolve_left hroot
  · rw [List.mem_singleton.mp hq] at hroot ⊢
    exact (lead_mem_reached [] (d.whole p)).resolve_left hroot

/-! ## Things that are moved -/

/-- A disk after something was moved from one place to another. -/
structure Moved (source target : List String) (d d' : Disk) : Prop where
  here : d'.here = d.here
  moved : ∀ rest, d'.root.nodeAt? (target ++ rest) = d.root.nodeAt? (source ++ rest)
  gone : ∀ rest, ¬ target <+: source ++ rest → d'.root.nodeAt? (source ++ rest) = none
  rest : ∀ q, ¬ source <+: q → ¬ target <+: q → d'.root.nodeAt? q = d.root.nodeAt? q

theorem Moved.self {source target : List String} (h : Moved source target d d') :
    d'.root.nodeAt? target = d.root.nodeAt? source := by
  have hself := h.moved []
  rwa [List.append_nil, List.append_nil] at hself

theorem reaches_of_move {new : Path} (h : move p new d = (.ok (), d')) : d.Reaches new := by
  obtain ⟨_, _, hget, h⟩ := Run.bind_eq_ok h
  cases hget
  obtain ⟨names, _, hsource, h⟩ := Run.bind_eq_ok h
  obtain ⟨-, rfl⟩ := Prod.mk.inj hsource
  obtain ⟨target, _, hgoal, -⟩ := Run.bind_eq_ok h
  exact (locate_eq.mp (Prod.mk.inj hgoal).1).2

theorem move_moves {new : Path} (hplace : d.placeOf p ≠ [])
    (hnew : ¬ d.placeOf p <+: d.placeOf new) (h : move p new d = (.ok (), d')) :
    Moved (d.placeOf p) (d.placeOf new) d d' := by
  obtain ⟨_, _, hget, h⟩ := Run.bind_eq_ok h
  cases hget
  obtain ⟨names, _, hsource, h⟩ := Run.bind_eq_ok h
  obtain ⟨hlocate, rfl⟩ := Prod.mk.inj hsource
  obtain ⟨target, _, hgoal, h⟩ := Run.bind_eq_ok h
  obtain ⟨htarget, rfl⟩ := Prod.mk.inj hgoal
  have hopen := open_of_locate htarget
  obtain ⟨rfl, -⟩ := locate_eq.mp hlocate
  obtain ⟨rfl, -⟩ := locate_eq.mp htarget
  cases hthere : d.root.at? (d.placeOf p) with
  | none =>
    rw [hthere] at h
    cases h
  | some found =>
    simp only [hthere] at h
    split at h
    · cases h
      have hopen' : Open (d.root.erase (d.placeOf p)) (d.placeOf new) := by
        rw [open_iff] at hopen ⊢
        intro n hn
        obtain ⟨mode, hmode⟩ := hopen n hn
        refine ⟨mode, ?_⟩
        rw [nodeAt?_erase_elsewhere _ fun hunder => hnew <| hunder.trans <| List.take_prefix _ _]
        exact hmode
      refine ⟨rfl, fun rest => ?_, fun rest hrest => ?_, fun q hq hq' => ?_⟩
      · show ((d.root.erase _).put _ found).nodeAt? _ = _
        rw [nodeAt?_put_append hopen', nodeAt?_append, hthere, Option.bind_some]
      · show ((d.root.erase _).put _ found).nodeAt? _ = _
        rw [nodeAt?_put_elsewhere hopen' _ hrest, nodeAt?_erase_append hplace]
      · show ((d.root.erase _).put _ found).nodeAt? _ = _
        rw [nodeAt?_put_elsewhere hopen' _ hq', nodeAt?_erase_elsewhere _ hq]
    · cases h

end Cartridge.Disk
