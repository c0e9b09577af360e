import Cartridge.Proofs.FileTree.Growth
import Cartridge.Proofs.FileTree.Places
import Cartridge.Proofs.Path

/-!
# Where paths lead

Parts lead from one place to another, whatever stands there. They can be followed if each place that
they are followed through is a folder that may be entered. So where a path leads at all, it leads to
the place that it names when it is made absolute.

* `lead`, `passed`, `reached`: where parts lead, and the places on the way.
* `lead_eq`: how much of the place that parts start from is left in the end.
* `locate_eq`: where a path leads.
-/

namespace Cartridge

namespace Path

variable {place parts : List String}

/-! ## Parts -/

/-- Where a part leads from a place, whatever stands there. -/
def onward (place : List String) (part : String) : List String :=
  if part = ".." then place.dropLast else place ++ [part]

/-- Where parts lead from a place. -/
def lead (place parts : List String) : List String := parts.foldl onward place

/-- The places from which the parts lead on, one after another. -/
def passed : List String → List String → List (List String)
  | _, [] => []
  | place, part :: rest => place :: passed (onward place part) rest

/-- The places to which the parts lead, one after another. -/
def reached : List String → List String → List (List String)
  | _, [] => []
  | place, part :: rest => onward place part :: reached (onward place part) rest

theorem lead_append (place parts rest : List String) :
    lead place (parts ++ rest) = lead (lead place parts) rest := List.foldl_append

theorem passed_append (place parts rest : List String) :
    passed place (parts ++ rest) = passed place parts ++ passed (lead place parts) rest := by
  induction parts generalizing place with
  | nil => rfl
  | cons part parts ih => exact congrArg (place :: ·) (ih _)

theorem reached_append (place parts rest : List String) :
    reached place (parts ++ rest) = reached place parts ++ reached (lead place parts) rest := by
  induction parts generalizing place with
  | nil => rfl
  | cons part parts ih => exact congrArg (onward place part :: ·) (ih _)

/-- A place that parts lead on from is the first one, or they led to it. -/
theorem mem_passed {q : List String} (h : q ∈ passed place parts) :
    q = place ∨ q ∈ reached place parts := by
  induction parts generalizing place with
  | nil => cases h
  | cons part rest ih =>
    rcases List.mem_cons.mp h with rfl | h
    · exact .inl rfl
    · refine .inr ?_
      rcases ih h with rfl | h
      · exact List.mem_cons_self
      · exact List.mem_cons_of_mem _ h

/-- What parts lead to is a place from which a further part leads on. -/
theorem mem_passed_of_reached {q : List String} (h : q ∈ reached place parts) (last : String) :
    q ∈ passed place (parts ++ [last]) := by
  induction parts generalizing place with
  | nil => cases h
  | cons part rest ih =>
    refine List.mem_cons_of_mem _ ?_
    rcases List.mem_cons.mp h with rfl | h
    · cases rest <;> exact List.mem_cons_self
    · exact ih h

/-- Parts that lead below a place from elsewhere lead through it. -/
theorem mem_reached_of_below {start q : List String} (hq : q ∈ reached start parts)
    (hstart : ¬ place <+: start) (hunder : place <+: q) : place ∈ reached start parts := by
  induction parts generalizing start with
  | nil => cases hq
  | cons part rest ih =>
    by_cases hnext : place <+: onward start part
    · refine List.mem_cons.mpr (.inl ?_)
      unfold onward at hnext ⊢
      split at hnext
      · exact absurd (hnext.trans <| List.dropLast_prefix start) hstart
      · rename_i hpart
        rw [if_neg hpart]
        exact (List.prefix_concat_iff.mp hnext).resolve_right hstart
    · refine List.mem_cons_of_mem _ ?_
      rcases List.mem_cons.mp hq with rfl | hq
      · exact absurd hunder hnext
      · exact ih hq hnext

/-- Parts that lead below a place in their last folder lead through it before. -/
theorem mem_reached_of_passed {start q above : List String} {last name : String}
    (hq : q ∈ passed start (parts ++ [last])) (hlead : lead start parts = above)
    (hstart : ¬ above ++ [name] <+: start) (hunder : above ++ [name] <+: q) :
    above ++ [name] ∈ reached start parts := by
  rw [passed_append, List.mem_append] at hq
  rcases hq with hq | hq
  · rcases mem_passed hq with rfl | hq
    · exact absurd hunder hstart
    · exact mem_reached_of_below hq hstart hunder
  · rw [List.mem_singleton.mp hq, hlead] at hunder
    have hle := hunder.length_le
    rw [List.length_append, List.length_singleton] at hle
    omega

/-- A place that parts lead to is the last one, or one from which they lead on. -/
theorem mem_reached {q : List String} (h : q ∈ reached place parts) :
    q = lead place parts ∨ q ∈ passed place parts := by
  rcases List.eq_nil_or_concat parts with rfl | ⟨front, last, rfl⟩
  · cases h
  · rw [List.concat_eq_append] at h ⊢
    rw [reached_append, List.mem_append] at h
    rcases h with h | h
    · exact .inr (mem_passed_of_reached h last)
    · refine .inl ?_
      rw [lead_append]
      exact List.mem_singleton.mp h

theorem lead_mem_reached (place parts : List String) :
    lead place parts = place ∨ lead place parts ∈ reached place parts := by
  induction parts generalizing place with
  | nil => exact .inl rfl
  | cons part rest ih =>
    refine .inr ?_
    rcases ih (onward place part) with h | h
    · exact h ▸ List.mem_cons_self
    · exact List.mem_cons_of_mem _ h

/-- Names lead down from a place. -/
theorem lead_names (h : ".." ∉ parts) (place : List String) : lead place parts = place ++ parts := by
  induction parts generalizing place with
  | nil => exact (List.append_nil place).symm
  | cons part rest ih =>
    rw [List.mem_cons, not_or] at h
    show lead (onward place part) rest = _
    rw [ih h.2, onward, if_neg (Ne.symm h.1), List.append_assoc, List.singleton_append]

theorem prefix_of_mem_reached (h : ".." ∉ parts) {q : List String} (hq : q ∈ reached place parts) :
    q <+: place ++ parts := by
  induction parts generalizing place with
  | nil => cases hq
  | cons part rest ih =>
    rw [List.mem_cons, not_or] at h
    rw [reached, onward, if_neg (Ne.symm h.1)] at hq
    have hsplit : place ++ part :: rest = (place ++ [part]) ++ rest := by simp
    rw [hsplit]
    rcases List.mem_cons.mp hq with rfl | hq
    · exact List.prefix_append _ _
    · exact ih h.2 hq

/-- How many folders parts lead up out of the place that they start from. -/
def climb : List String → Nat
  | [] => 0
  | part :: rest => if part = ".." then climb rest + 1 else climb rest - 1

/-- The names that parts lead down in the end. -/
def descent : List String → List String
  | [] => []
  | part :: rest =>
    if part = ".." then descent rest
    else if climb rest = 0 then part :: descent rest
    else descent rest

/-- The place that is so many folders above a place; nothing is above the root. -/
def above (levels : Nat) (place : List String) : List String := place.take (place.length - levels)

/-- Parts lead up first, so far as they do, and then down, wherever they start. -/
theorem lead_eq (place parts : List String) :
    lead place parts = above (climb parts) place ++ descent parts := by
  induction parts generalizing place with
  | nil => simp [lead, above, climb, descent]
  | cons part rest ih =>
    show lead (onward place part) rest = _
    rw [ih, onward, climb, descent, above, above]
    by_cases hpart : part = ".."
    · rw [if_pos hpart, if_pos hpart, if_pos hpart, List.length_dropLast, List.dropLast_eq_take,
        List.take_take, Nat.sub_sub, Nat.add_comm 1, Nat.min_eq_left (by omega)]
    · rw [if_neg hpart, if_neg hpart, if_neg hpart, List.length_append, List.length_singleton]
      by_cases hrest : climb rest = 0
      · rw [if_pos hrest, hrest, Nat.zero_sub, Nat.sub_zero, Nat.sub_zero, List.take_length,
          List.take_of_length_le (by simp), List.append_assoc, List.singleton_append]
      · rw [if_neg hrest, List.take_append_of_le_length (by omega)]
        congr 2
        omega

/-- Parts lead from two places to the same one if and only if these have the same folder above them,
as far up as the parts climb. -/
theorem lead_eq_lead_iff (place place' parts : List String) :
    lead place parts = lead place' parts ↔
      above (climb parts) place = above (climb parts) place' := by
  rw [lead_eq, lead_eq, List.append_left_inj]

end Path

namespace Disk

open FileTree Cartridge.Path

variable {t : FileTree} {d : Disk} {p : Path} {place parts found : List String}

/-! ## Following -/

/-- A folder that may be entered stands in a place. -/
def Enterable (t : FileTree) (place : List String) : Prop :=
  ∃ mode : Nat, t.nodeAt? place = some (.folder mode) ∧ mode.testBit Right.enter.bit = true

theorem Enterable.folderAt (h : Enterable t place) : t.FolderAt place :=
  ⟨h.choose, h.choose_spec.1⟩

theorem step_eq_ok {part : String} : step t place part = .ok found ↔
    found = onward place part ∧ Enterable t place ∧ part.utf8ByteSize ≤ longestName := by
  constructor
  · intro h
    obtain ⟨es, mode, hplace, henter, hname, hfound⟩ := step_ok h
    exact ⟨hfound, ⟨mode, nodeAt?_eq_folder.mpr ⟨es, hplace⟩, henter⟩, hname⟩
  · rintro ⟨rfl, ⟨mode, hplace, henter⟩, hname⟩
    obtain ⟨es, hplace⟩ := nodeAt?_eq_folder.mp hplace
    exact step_of_folder hplace henter hname

theorem follow_eq_ok : follow t place parts = .ok found ↔
    found = lead place parts ∧ (∀ q ∈ passed place parts, Enterable t q) ∧
      ∀ part ∈ parts, part.utf8ByteSize ≤ longestName := by
  induction parts generalizing place with
  | nil =>
    rw [follow, Except.ok.injEq]
    simp [lead, passed, eq_comm]
  | cons part rest ih =>
    rw [passed, List.forall_mem_cons, List.forall_mem_cons]
    show (step t place part >>= fun next => follow t next rest) = .ok found ↔
      found = lead (onward place part) rest ∧ _
    cases hstep : step t place part with
    | error e =>
      refine iff_of_false (fun h => by cases h) ?_
      rintro ⟨-, ⟨henter, -⟩, hname, -⟩
      rw [step_eq_ok.mpr ⟨rfl, henter, hname⟩] at hstep
      cases hstep
    | ok next =>
      obtain ⟨rfl, henter, hname⟩ := step_eq_ok.mp hstep
      show follow t (onward place part) rest = .ok found ↔ _
      rw [ih]
      tauto

/-- Where parts lead to what cannot be there, a place on the way is no folder. -/
theorem exists_of_follow_error {e : Fault} (h : follow t place parts = .error e)
    (he : e.meansAbsence = true) : ∃ q ∈ passed place parts, ¬ t.FolderAt q := by
  induction parts generalizing place with
  | nil => cases h
  | cons part rest ih =>
    have h : (step t place part >>= fun next => follow t next rest) = .error e := h
    cases hstep : step t place part with
    | error e' =>
      rw [hstep] at h
      cases h
      refine ⟨place, List.mem_cons_self, fun hfolder => ?_⟩
      obtain ⟨es, mode, hplace⟩ := folderAt_iff.mp hfolder
      rw [step, hplace] at hstep
      simp only [isFolder, Bool.not_true, Bool.false_eq_true, if_false] at hstep
      split at hstep
      · cases hstep
        cases he
      · split at hstep <;> cases hstep
        cases he
    | ok next =>
      obtain ⟨rfl, -, -⟩ := step_eq_ok.mp hstep
      rw [hstep] at h
      obtain ⟨q, hq, hnone⟩ := ih h
      exact ⟨q, List.mem_cons_of_mem _ hq, hnone⟩

/-! ## Paths -/

/-- The place that a path means, whether it can be reached or not. -/
def placeOf (d : Disk) (p : Path) : List String := lead [] (d.whole p)

/-- A path can be followed to its place. -/
structure Reaches (d : Disk) (p : Path) : Prop where
  fit : unfit? p = none
  enterable : ∀ q ∈ passed [] (d.whole p), Enterable d.root q
  short : ∀ part ∈ d.whole p, part.utf8ByteSize ≤ longestName

theorem locate_eq {names : List String} :
    d.locate p = .ok names ↔ names = d.placeOf p ∧ d.Reaches p := by
  rw [locate_eq_ok, follow_eq_ok]
  constructor
  · rintro ⟨hfit, hnames, henter, hshort⟩
    exact ⟨hnames, hfit, henter, hshort⟩
  · rintro ⟨hnames, hfit, henter, hshort⟩
    exact ⟨hfit, hnames, henter, hshort⟩

theorem hasNull_of_fit (h : unfit? p = none) : p.hasNull = false := by
  rw [unfit?] at h
  split at h
  · cases h
  · rename_i hnull
    exact Bool.not_eq_true _ ▸ hnull

theorem whole_child (d : Disk) (p : Path) {name : String} (h : Plain name) :
    d.whole (p.child name) = d.whole p ++ [name] := by
  rw [child_of_plain p h, whole, whole]
  show (if p.isAbsolute then _ else _) = _
  split
  · rfl
  · exact (List.append_assoc _ _ _).symm

/-- A path is that of its folder and its last component, if it has one. -/
theorem whole_parent (d : Disk) {p : Path} (hparts : p.parts ≠ []) :
    d.whole p = d.whole p.parent ++ [p.name] := by
  have hlast : p.parts = p.parts.dropLast ++ [p.name] := by
    rw [name, List.getLast?_eq_some_getLast hparts, Option.getD_some]
    exact (List.dropLast_append_getLast hparts).symm
  rw [whole, whole]
  show (if p.isAbsolute then p.parts else _) =
    (if p.isAbsolute then p.parts.dropLast else _ ++ p.parts.dropLast) ++ _
  split
  · exact hlast
  · rw [List.append_assoc, ← hlast]

/-- What is no folder, in a folder, stands in it under the last component of its path. -/
theorem placeOf_parent {d : Disk} {p : Path} (hfolder : d.root.FolderAt (d.placeOf p.parent))
    (hclosed : ¬ d.root.FolderAt (d.placeOf p)) :
    p.parts ≠ [] ∧ d.placeOf p = d.placeOf p.parent ++ [p.name] := by
  have hparts : p.parts ≠ [] := by
    intro hempty
    rw [parent_of_nil hempty] at hfolder
    exact hclosed hfolder
  have honward : d.placeOf p = onward (d.placeOf p.parent) p.name := by
    rw [placeOf, d.whole_parent hparts, lead_append]
    rfl
  refine ⟨hparts, ?_⟩
  rw [honward, onward, if_neg]
  intro hdots
  rw [honward, onward, if_pos hdots] at hclosed
  -- the folder that holds a folder is one
  rcases List.eq_nil_or_concat (d.placeOf p.parent) with hroot | ⟨above, last, hplace⟩
  · rw [hroot] at hclosed hfolder
    exact hclosed hfolder
  · obtain ⟨mode, hmode⟩ := hfolder
    rw [hplace, List.concat_eq_append] at hclosed hmode
    rw [List.dropLast_concat] at hclosed
    exact hclosed (folderAt_of_below (List.cons_ne_nil _ _) hmode)

theorem placeOf_child (d : Disk) (p : Path) {name : String} (h : Plain name) (hdots : name ≠ "..") :
    d.placeOf (p.child name) = d.placeOf p ++ [name] := by
  rw [placeOf, whole_child d p h, lead_append]
  exact if_neg hdots

theorem hasFolder_iff : d.hasFolder p = .ok true ↔ d.Reaches p ∧ d.root.FolderAt (d.placeOf p) := by
  unfold hasFolder holds entry
  cases hlocate : d.locate p with
  | error e =>
    refine iff_of_false (fun h => ?_) fun h => ?_
    · revert h
      cases e <;> simp [bind, Except.bind, Fault.meansAbsence]
    · rw [locate_eq.mpr ⟨rfl, h.1⟩] at hlocate
      cases hlocate
  | ok names =>
    obtain ⟨rfl, hreaches⟩ := locate_eq.mp hlocate
    rw [folderAt_iff]
    dsimp only [bind, Except.bind]
    cases hfound : d.root.at? (d.placeOf p) with
    | none => simp [Fault.meansAbsence]
    | some found => cases found <;> simp [isFolder, pure, Except.pure, hreaches]

/-- On a way through folders nothing of a kind is seen only if nothing of the kind is there. -/
theorem holds_eq_false {test : FileTree → Bool} {new : FileTree}
    (hway : ∀ q ∈ passed [] (d.whole p), d.root.FolderAt q) (hnull : p.hasNull = false)
    (h : d.holds test p = .ok false) (hnew : d.root.at? (d.placeOf p) = some new) :
    test new = false := by
  unfold holds entry at h
  cases hlocate : d.locate p with
  | error e =>
    rw [hlocate] at h
    have hmeans : e.meansAbsence = true := by
      by_contra hnot
      dsimp only [bind, Except.bind] at h
      rw [if_neg hnot] at h
      cases h
    unfold locate at hlocate
    split at hlocate
    · rename_i e' hfit
      cases hlocate
      rw [unfit?, hnull, if_neg Bool.false_ne_true] at hfit
      split at hfit <;> cases hfit
      cases hmeans
    · obtain ⟨q, hq, hnot⟩ := exists_of_follow_error hlocate hmeans
      exact absurd (hway q hq) hnot
  | ok names =>
    obtain ⟨rfl, -⟩ := locate_eq.mp hlocate
    rw [hlocate] at h
    dsimp only [bind, Except.bind] at h
    rw [hnew] at h
    exact Except.ok.inj h

end Disk

end Cartridge
