import Cartridge.Proofs.FileTree.Changes
import Cartridge.Toolchain.Install

/-!
# What unpacking leaves

A member of an archive is put where its name leads from the folder that it is unpacked into, and the
folders on the way are made. So what stands somewhere stays a file or a folder, and at the end each
name leads to what its last member says.

* `Member.Stands`: a member stands in a place.
* `Unpacked`: a disk after members were unpacked, one after another.
* `unpacked_of_unpack`, `Unpacked.cons`: one member, and one before others.
* `unpacked_of_each`: the members of an archive.
-/

namespace Cartridge

open FileTree Disk Cartridge.Path

/-- A node is a folder. -/
def FileTree.Node.isFolder : Node → Bool
  | .file .. => false
  | .folder _ => true

/-- A folder is there, and so is every one on the way to it. -/
def Disk.Laid (d : Disk) (p : Path) : Prop :=
  ∀ q, q = [] ∨ q ∈ reached [] (d.whole p) → d.root.FolderAt q

theorem Disk.Laid.placeOf {d : Disk} {p : Path} (h : d.Laid p) : d.root.FolderAt (d.placeOf p) :=
  h _ (lead_mem_reached [] (d.whole p))

/-- What is in such a folder is reached through folders. -/
theorem Disk.Laid.way {d : Disk} {p : Path} (h : d.Laid p.parent) :
    ∀ q ∈ passed [] (d.whole p), d.root.FolderAt q := by
  intro q hq
  by_cases hparts : p.parts = []
  · rw [parent_of_nil hparts] at h
    exact h q (mem_passed hq)
  · rw [d.whole_parent hparts, passed_append, List.mem_append] at hq
    rcases hq with hq | hq
    · exact h q (mem_passed hq)
    · rw [List.mem_singleton.mp hq]
      exact h.placeOf

namespace Toolchain

namespace Member

/-- The names that lead to a member from the folder that it is unpacked into. -/
def parts (m : Member) : List String := safeParts m.shownName

/-- What stands in a place is the member, with its permission bits if it has some. -/
def Stands (m : Member) (node : Option Node) : Prop :=
  ∃ mode, (∀ bits, m.permissions? = some bits → mode = bits) ∧
    node = some (if m.isFolder then .folder mode else .file m.bytes mode)

variable {folder : Path} {m : Member} {d d' : Disk}

theorem whole_place (d : Disk) (folder : Path) (m : Member) :
    d.whole (m.place folder) = d.whole folder ++ m.parts := by
  show d.whole ⟨folder.root, folder.parts ++ m.parts⟩ = _
  rw [whole, whole]
  show (if folder.isAbsolute then _ else _) = _
  split
  · rfl
  · exact (List.append_assoc _ _ _).symm

theorem placeOf_place (d : Disk) (folder : Path) (m : Member) :
    d.placeOf (m.place folder) = d.placeOf folder ++ m.parts := by
  rw [placeOf, whole_place, lead_append]
  exact lead_names (safeParts_no_dots _) _

/-- What the way to a member leads to is on the way to the folder or below it. -/
theorem mem_reached_place {q : List String} (h : q ∈ reached [] (d.whole (m.place folder))) :
    q ∈ reached [] (d.whole folder) ∨ q <+: d.placeOf folder ++ m.parts := by
  rw [whole_place, reached_append, List.mem_append] at h
  exact h.imp_right (prefix_of_mem_reached (safeParts_no_dots _))

theorem whole_parent_front (d : Disk) (p : Path) : d.whole p.parent <+: d.whole p := by
  rw [whole, whole]
  show (if p.isAbsolute then p.parts.dropLast else d.here ++ p.parts.dropLast) <+: _
  split
  · exact List.dropLast_prefix _
  · exact (List.prefix_append_right_inj _).mpr <| List.dropLast_prefix _

theorem made_of_makeRoom {p : Path} (h : makeRoom p d = (.ok (), d')) :
    Made (reached [] (d.whole p)) d d' := by
  obtain ⟨_, _, hget, h⟩ := Run.bind_eq_ok h
  cases hget
  split at h
  · refine (made_of_makeFolders h).mono fun q hq => ?_
    obtain ⟨rest, hrest⟩ := whole_parent_front d p
    rw [← hrest, reached_append]
    exact List.mem_append_left _ hq
  · cases h
    exact .refl _ _

/-- What a disk is after a member was put in its place, its permission bits aside. -/
structure Put (m : Member) (folder : Path) (d d' : Disk) : Prop where
  here : d'.here = d.here
  self : ∃ mode, d'.root.nodeAt? (d.placeOf folder ++ m.parts) =
    some (if m.isFolder then .folder mode else .file m.bytes mode)
  before : ∀ node, d.root.nodeAt? (d.placeOf folder ++ m.parts) = some node →
    node.isFolder = m.isFolder
  others : ∀ q, q ≠ d.placeOf folder ++ m.parts → d'.root.nodeAt? q = d.root.nodeAt? q ∨
    d.root.nodeAt? q = none ∧ d'.root.nodeAt? q = some (.folder folderMode) ∧
      q <+: d.placeOf folder ++ m.parts

theorem put_of_write (hlaid : d.Laid folder) (h : m.write folder d = (.ok (), d')) :
    Put m folder d d' := by
  obtain ⟨_, d₁, hroom, h⟩ := Run.bind_eq_ok h
  have hmade := made_of_makeRoom hroom
  have hplace : d₁.placeOf (m.place folder) = d.placeOf folder ++ m.parts :=
    (placeOf_congr hmade.here _).trans (placeOf_place d folder m)
  -- on the way to the folder nothing is missing
  have hbelow {d₂ : Disk} (hmade : Made (reached [] (d.whole (m.place folder))) d d₂)
      (q : List String) : d₂.root.nodeAt? q = d.root.nodeAt? q ∨ d.root.nodeAt? q = none ∧
        d₂.root.nodeAt? q = some (.folder folderMode) ∧ q <+: d.placeOf folder ++ m.parts := by
    refine (hmade.nodes q).imp_right fun ⟨hnone, hnew, hq⟩ => ⟨hnone, hnew, ?_⟩
    rcases mem_reached_place hq with hway | hunder
    · exact absurd (hlaid q (.inr hway)) (not_folderAt_of_none hnone)
    · exact hunder
  split at h
  · cases h
  · split at h
    · rename_i hfolder
      have hnew := made_of_makeFolders h
      rw [whole_congr hmade.here] at hnew
      have hall := hmade.trans hnew
      obtain ⟨mode, hself⟩ : d'.root.FolderAt (d.placeOf folder ++ m.parts) := by
        rw [← hplace]
        rcases lead_mem_reached [] (d₁.whole (m.place folder)) with hroot | hway
        · rw [placeOf, hroot]
          exact hall.folderAt (hlaid [] (.inl rfl))
        · exact folderAt_of_makeFolders h _ hway
      refine ⟨hall.here, ⟨mode, by rw [hself, if_pos hfolder]⟩, fun node hnode => ?_,
        fun q _ => hbelow hall q⟩
      rw [hall.keeps hnode] at hself
      rw [Option.some.inj hself, hfolder]
      rfl
    · rename_i hfile
      obtain ⟨-, hfree, mode, hset⟩ := write_sets h
      rw [hplace] at hfree hset
      refine ⟨hset.here.trans hmade.here, ⟨mode, by rw [hset.self, if_neg hfile]⟩,
        fun node hnode => ?_, fun q hq => ?_⟩
      · rw [Bool.not_eq_true] at hfile
        rw [hfile]
        cases node with
        | file bytes mode => rfl
        | folder mode => exact absurd ⟨mode, hmade.keeps hnode⟩ hfree
      · rw [hset.same hq]
        exact hbelow hmade q

end Member

open Member

variable {folder : Path} {m : Member} {ms : List Member} {d d' d'' : Disk}

/-! ## Members one after another -/

/-- A disk after members were unpacked into the folder at a place, one after another. -/
structure Unpacked (place : List String) (ms : List Member) (d d' : Disk) : Prop where
  here : d'.here = d.here
  /-- What stood somewhere is still a file or still a folder. -/
  kinds : ∀ q node, d.root.nodeAt? q = some node →
    ∃ node', d'.root.nodeAt? q = some node' ∧ node'.isFolder = node.isFolder
  /-- What stood somewhere else than a member is still the same. -/
  keeps : ∀ q node, d.root.nodeAt? q = some node → (∀ m ∈ ms, q ≠ place ++ m.parts) →
    d'.root.nodeAt? q = some node
  /-- Nothing comes up but members and folders on the way to them. -/
  new : ∀ q node, d.root.nodeAt? q = none → d'.root.nodeAt? q = some node →
    ∃ m ∈ ms, q <+: place ++ m.parts ∧ (q = place ++ m.parts → m.isFolder = node.isFolder)
  /-- In the place of each member stands the last one with its name. -/
  last : ∀ m ∈ ms, ∃ last, ms.reverse.find? (·.parts = m.parts) = some last ∧
    last.isFolder = m.isFolder ∧ last.Stands (d'.root.nodeAt? (place ++ m.parts))

theorem Unpacked.nil (place : List String) (d : Disk) : Unpacked place [] d d where
  here := rfl
  kinds _ node h := ⟨node, h, rfl⟩
  keeps _ _ h _ := h
  new _ _ hnone h := by
    rw [hnone] at h
    cases h
  last _ h := by cases h

theorem Member.Put.unpacked {bits? : Option Nat} (h : Put m folder d d')
    (hbits : m.permissions? = bits?)
    (hset : ∀ bits, bits? = some bits → ∃ node, d'.root.nodeAt? (d.placeOf folder ++ m.parts) =
      some node ∧ SetAt (d.placeOf folder ++ m.parts) (some (withBits bits node)) d' d'')
    (hsame : bits? = none → d'' = d') : Unpacked (d.placeOf folder) [m] d d'' := by
  -- the permission bits change nothing but themselves
  have hothers : d''.here = d'.here ∧ (∀ q, q ≠ d.placeOf folder ++ m.parts →
      d''.root.nodeAt? q = d'.root.nodeAt? q) ∧
      m.Stands (d''.root.nodeAt? (d.placeOf folder ++ m.parts)) := by
    obtain ⟨mode, hself⟩ := h.self
    cases bits? with
    | none =>
      obtain rfl := hsame rfl
      refine ⟨rfl, fun _ _ => rfl, mode, fun bits hsome => ?_, hself⟩
      rw [hbits] at hsome
      cases hsome
    | some bits =>
      obtain ⟨node, hnode, hset⟩ := hset bits rfl
      rw [hself] at hnode
      refine ⟨hset.here, fun _ => hset.same, bits, fun _ hsome => ?_, ?_⟩
      · rw [hbits] at hsome
        exact Option.some.inj hsome
      · rw [hset.self, ← Option.some.inj hnode]
        split <;> rfl
  obtain ⟨hhere, hrest, hstands⟩ := hothers
  have hkind : ∃ node, d''.root.nodeAt? (d.placeOf folder ++ m.parts) = some node ∧
      node.isFolder = m.isFolder := by
    obtain ⟨mode, -, hnode⟩ := hstands
    refine ⟨_, hnode, ?_⟩
    cases m.isFolder <;> rfl
  have hkeeps {q : List String} {node : Node} (hq : q ≠ d.placeOf folder ++ m.parts)
      (hnode : d.root.nodeAt? q = some node) : d''.root.nodeAt? q = some node := by
    rw [hrest q hq]
    rcases h.others q hq with hsame | ⟨hnone, -⟩
    · exact hsame.trans hnode
    · rw [hnone] at hnode
      cases hnode
  refine ⟨hhere.trans h.here, fun q node hnode => ?_, fun q node hnode hq =>
    hkeeps (hq m (List.mem_singleton_self m)) hnode, fun q node hnone hnode => ?_, fun m' hm' => ?_⟩
  · by_cases hq : q = d.placeOf folder ++ m.parts
    · subst hq
      obtain ⟨node', hnode', hkind⟩ := hkind
      exact ⟨node', hnode', hkind.trans (h.before node hnode).symm⟩
    · exact ⟨node, hkeeps hq hnode, rfl⟩
  · refine ⟨m, List.mem_singleton_self m, ?_⟩
    by_cases hq : q = d.placeOf folder ++ m.parts
    · subst hq
      obtain ⟨node', hnode', hkind⟩ := hkind
      rw [hnode] at hnode'
      cases hnode'
      exact ⟨List.prefix_refl _, fun _ => hkind.symm⟩
    · rw [hrest q hq] at hnode
      rcases h.others q hq with hsame | ⟨-, -, hunder⟩
      · rw [hsame, hnone] at hnode
        cases hnode
      · exact ⟨hunder, fun heq => absurd heq hq⟩
  · rw [List.mem_singleton.mp hm']
    exact ⟨m, List.find?_cons_of_pos (by simp), rfl, hstands⟩

theorem unpacked_of_unpack (hlaid : d.Laid folder) (h : m.unpack folder d = (.ok (), d')) :
    Unpacked (d.placeOf folder) [m] d d' := by
  obtain ⟨_, d₁, hwrite, h⟩ := Run.bind_eq_ok h
  have hput := put_of_write hlaid hwrite
  have hplace : d₁.placeOf (m.place folder) = d.placeOf folder ++ m.parts :=
    (placeOf_congr hput.here _).trans (placeOf_place d folder m)
  cases hbits : m.permissions? with
  | none =>
    rw [hbits] at h
    cases h
    exact hput.unpacked hbits (fun bits hsome => by cases hsome) fun _ => rfl
  | some bits =>
    rw [hbits] at h
    refine hput.unpacked hbits (fun bits' hsome => ?_) fun hnone => by cases hnone
    cases hsome
    rw [← hplace]
    exact setMode_sets h

theorem Unpacked.laid {place : List String} (h : Unpacked place ms d d') (hlaid : d.Laid folder) :
    d'.Laid folder := by
  intro q hq
  rw [whole_congr h.here] at hq
  obtain ⟨mode, hmode⟩ := hlaid q hq
  obtain ⟨node, hnode, hkind⟩ := h.kinds q _ hmode
  cases node with
  | file bytes mode => cases hkind
  | folder mode' => exact ⟨mode', hnode⟩

theorem Member.Stands.isFolder {node : Node} (h : m.Stands (some node)) :
    node.isFolder = m.isFolder := by
  obtain ⟨mode, -, hnode⟩ := h
  rw [Option.some.inj hnode]
  cases m.isFolder <;> rfl

theorem Unpacked.cons {place : List String} (h : Unpacked place [m] d d')
    (hrest : Unpacked place ms d' d'') : Unpacked place (m :: ms) d d'' where
  here := hrest.here.trans h.here
  kinds q node hnode := by
    obtain ⟨node', hnode', hkind⟩ := h.kinds q node hnode
    obtain ⟨node'', hnode'', hkind'⟩ := hrest.kinds q node' hnode'
    exact ⟨node'', hnode'', hkind'.trans hkind⟩
  keeps q node hnode hq := by
    rw [List.forall_mem_cons] at hq
    exact hrest.keeps q node (h.keeps q node hnode (by simpa using hq.1)) hq.2
  new q node hnone hnode := by
    cases hmiddle : d'.root.nodeAt? q with
    | none =>
      obtain ⟨m', hm', hway⟩ := hrest.new q node hmiddle hnode
      exact ⟨m', List.mem_cons_of_mem _ hm', hway⟩
    | some node' =>
      obtain ⟨m', hm', hunder, hkind⟩ := h.new q node' hnone hmiddle
      obtain ⟨node'', hnode'', hsame⟩ := hrest.kinds q node' hmiddle
      rw [hnode] at hnode''
      cases hnode''
      rw [List.mem_singleton.mp hm'] at hunder hkind
      exact ⟨m, List.mem_cons_self, hunder, fun hq => (hkind hq).trans hsame.symm⟩
  last m' hm' := by
    rw [List.reverse_cons, List.find?_append]
    by_cases hlater : ∃ m'' ∈ ms, m''.parts = m'.parts
    · obtain ⟨m'', hm'', hparts⟩ := hlater
      obtain ⟨last, hlast, hkind, hstands⟩ := hrest.last m'' hm''
      rw [hparts] at hlast hstands
      refine ⟨last, by rw [hlast, Option.some_or], ?_, hstands⟩
      rcases List.mem_cons.mp hm' with rfl | hm'
      · -- what the first member left stays a file or a folder
        obtain ⟨first, -, hfirst, hstands'⟩ := h.last m' List.mem_cons_self
        obtain ⟨node, hnode⟩ : ∃ node, d'.root.nodeAt? (place ++ m'.parts) = some node :=
          ⟨_, hstands'.choose_spec.2⟩
        rw [hnode] at hstands'
        obtain ⟨node', hnode', hsame⟩ := hrest.kinds _ node hnode
        rw [hnode'] at hstands
        rw [← hstands.isFolder, hsame, hstands'.isFolder, hfirst]
      · obtain ⟨last', hlast', hkind', -⟩ := hrest.last m' hm'
        rw [hlast] at hlast'
        cases hlast'
        exact hkind'
    · rcases List.mem_cons.mp hm' with rfl | hm'
      · have hnone : ms.reverse.find? (·.parts = m'.parts) = none :=
          List.find?_eq_none.mpr fun m'' hm'' => by
            simpa using fun hparts => hlater ⟨m'', List.mem_reverse.mp hm'', hparts⟩
        obtain ⟨last, hlast, hkind, hstands⟩ := h.last m' List.mem_cons_self
        rw [List.reverse_singleton] at hlast
        refine ⟨last, by rw [hnone, Option.none_or, hlast], hkind, ?_⟩
        obtain ⟨mode, hbits, hnode⟩ := hstands
        refine ⟨mode, hbits, hrest.keeps _ _ hnode fun m'' hm'' heq => hlater ⟨m'', hm'', ?_⟩⟩
        exact (List.append_cancel_left heq).symm
      · exact absurd ⟨m', hm', rfl⟩ hlater

/-- A folder below the one that members are unpacked into was there before, or a member leads to it
or into it. -/
theorem Unpacked.folderAt_iff {place : List String} {name : String} (h : Unpacked place ms d d') :
    d'.root.FolderAt (place ++ [name]) ↔ d.root.FolderAt (place ++ [name]) ∨
      ∃ m ∈ ms, ∃ rest, m.parts = name :: rest ∧ (rest = [] → m.isFolder = true) := by
  constructor
  · rintro ⟨mode, hmode⟩
    cases hbefore : d.root.nodeAt? (place ++ [name]) with
    | some node =>
      obtain ⟨node', hnode', hkind⟩ := h.kinds _ node hbefore
      rw [hmode] at hnode'
      cases hnode'
      cases node with
      | file bytes mode' => cases hkind
      | folder mode' => exact .inl ⟨mode', hbefore⟩
    | none =>
      obtain ⟨m, hm, ⟨rest, hrest⟩, hkind⟩ := h.new _ _ hbefore hmode
      rw [List.append_assoc, List.append_cancel_left_eq] at hrest
      refine .inr ⟨m, hm, rest, hrest.symm, ?_⟩
      rintro rfl
      exact hkind (by rw [← hrest, List.append_nil])
  · rintro (⟨mode, hmode⟩ | ⟨m, hm, rest, hparts, hfolder⟩)
    · obtain ⟨node, hnode, hkind⟩ := h.kinds _ _ hmode
      cases node with
      | file bytes mode' => cases hkind
      | folder mode' => exact ⟨mode', hnode⟩
    · obtain ⟨last, -, hkind, mode, -, hnode⟩ := h.last m hm
      rw [hparts, ← List.singleton_append, ← List.append_assoc] at hnode
      by_cases hrest : rest = []
      · rw [hrest, List.append_nil, hkind, hfolder hrest] at hnode
        exact ⟨mode, hnode⟩
      · exact folderAt_of_below hrest hnode

/-! ## Archives -/

section Sites

variable {α : Type} {s s' : Site}

theorem Site.change_ok {task : Disk.Task α} {a : α} (h : Site.change task s = (.ok a, s')) :
    ∃ d, task s.disk = (.ok a, d) ∧ s' = { s with disk := d } := by
  obtain ⟨hresult, rfl⟩ := Prod.mk.inj h
  refine ⟨(task s.disk).2, Prod.ext ?_ rfl, rfl⟩
  have hresult : (task s.disk).1.mapError Stop.broken = .ok a := hresult
  cases htask : (task s.disk).1 with
  | ok b =>
    rw [htask] at hresult
    cases hresult
    rfl
  | error e =>
    rw [htask] at hresult
    cases hresult

theorem Site.change_error {task : Disk.Task α} {e : Stop Float}
    (h : Site.change task s = (.error e, s')) :
    ∃ fault, e = .broken fault ∧ task s.disk = (.error fault, s'.disk) := by
  obtain ⟨hresult, rfl⟩ := Prod.mk.inj h
  have hresult : (task s.disk).1.mapError Stop.broken = .error e := hresult
  cases htask : (task s.disk).1 with
  | ok b =>
    rw [htask] at hresult
    cases hresult
  | error fault =>
    rw [htask] at hresult
    cases hresult
    exact ⟨fault, rfl, Prod.ext htask rfl⟩

/-- The members of an archive are unpacked one after another. -/
theorem unpacked_of_each {us : List Unit} (hlaid : s.disk.Laid folder)
    (h : Run.each (fun m : Member => Site.change (m.unpack folder)) ms s = (.ok us, s')) :
    Unpacked (s.disk.placeOf folder) ms s.disk s'.disk := by
  induction ms generalizing s us with
  | nil =>
    cases h
    exact .nil _ _
  | cons m rest ih =>
    obtain ⟨_, s₁, hfirst, h⟩ := Run.bind_eq_ok h
    obtain ⟨_, s₂, hrest, h⟩ := Run.bind_eq_ok h
    cases h
    obtain ⟨d, hunpack, rfl⟩ := Site.change_ok hfirst
    have hunpacked := unpacked_of_unpack hlaid hunpack
    have hlater := ih (hunpacked.laid hlaid) hrest
    rw [placeOf_congr hunpacked.here] at hlater
    exact hunpacked.cons hlater

/-- Unpacking the members is only stopped by a fault. -/
theorem broken_of_each {e : Stop Float}
    (h : Run.each (fun m : Member => Site.change (m.unpack folder)) ms s = (.error e, s')) :
    ∃ fault, e = .broken fault := by
  induction ms generalizing s with
  | nil => cases h
  | cons m rest ih =>
    rcases Run.bind_cases h with ⟨e', hfirst, hr⟩ | ⟨_, s₁, -, h⟩
    · cases hr
      obtain ⟨fault, he, -⟩ := Site.change_error hfirst
      exact ⟨fault, he⟩
    · rcases Run.bind_cases h with ⟨e', hrest, hr⟩ | ⟨_, s₂, -, h⟩
      · cases hr
        exact ih hrest
      · cases h

end Sites

end Toolchain

end Cartridge
