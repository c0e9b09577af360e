import Cartridge.Proofs.Config.Storable

/-!
# Entries one by one

What a configuration file makes of a section is what its entries make of it one after another, and
only the entries under the name of the section count. The sections of a file have different names,
so what stands before and behind a section in the file does not matter to it.

* `mergeEntries_cons`, `takeEntry_cons`: one entry, and one field for it.
* `mergeSections_section`, `mergeFileIfThere_section`: what a file makes of a section.
* `RealAt.mergeEntries`: where entries give a number several times, the last one stays.
-/

namespace Cartridge.Config

open Json Run

variable {S T : Type}

/-! ## One entry -/

/-- What one entry does to a section. -/
def takeEntry (fields : List (Field S)) (label key : String) (given : Json) : Merge S Unit :=
  match fields.find? (·.isKey key) with
  | some field => field.take (label ++ "." ++ key) given
  | none => Merge.warn (.unknownKey (label ++ "." ++ key))

theorem mergeEntries_cons (fields : List (Field S)) (label key : String) (given : Json)
    (rest : Entries Json) :
    mergeEntries fields label ((key, given) :: rest) =
      takeEntry fields label key given >>= fun _ => mergeEntries fields label rest := by
  rw [mergeEntries, takeEntry]
  cases fields.find? (·.isKey key) <;> rfl

theorem takeEntry_cons (field : Field S) (fields : List (Field S)) (label key : String)
    (given : Json) :
    takeEntry (field :: fields) label key given =
      if field.isKey key then field.take (label ++ "." ++ key) given
      else takeEntry fields label key given := by
  unfold takeEntry
  rw [List.find?_cons]
  cases field.isKey key <;> rfl

namespace Field

/-- A field is known by its name. -/
def IsNamed (f : Field S) (name : String) : Prop := ∀ key, f.isKey key = true ↔ fieldName key = name

theorem isNamed (name : String) (take : String → Json → Merge S Unit) :
    (named name take).IsNamed name := by
  intro key
  simp [named]

end Field

/-! ## One section -/

/-- The entries under the name of a section; none where no object stands. -/
def sectionIn (j : Json) (name : String) : Entries Json :=
  match j.get? name with
  | some (.obj entries) => entries
  | _ => []

theorem sectionIn_cons_of_ne {key name : String} (h : key ≠ name) (given : Json)
    (rest : Entries Json) :
    sectionIn (.obj ((key, given) :: rest)) name = sectionIn (.obj rest) name := by
  have hlookup : Json.get? name (.obj ((key, given) :: rest)) = Json.get? name (.obj rest) := by
    show List.lookup _ _ = List.lookup _ _
    rw [List.lookup_cons, show (name == key) = false by simpa using Ne.symm h]
  rw [sectionIn, hlookup, sectionIn]

theorem sectionIn_cons_self (name : String) (given : Json) (rest : Entries Json) :
    sectionIn (.obj ((name, given) :: rest)) name =
      match given with
      | .obj entries => entries
      | _ => [] := by
  have hlookup : Json.get? name (.obj ((name, given) :: rest)) = some given := by
    show List.lookup _ _ = _
    rw [List.lookup_cons, beq_self_eq_true]
  rw [sectionIn, hlookup]
  cases given <;> rfl

/-- What the value under a name does to a configuration. -/
def takeSection (name : String) (given : Json) : Merge (Config Float) Unit :=
  match sections.lookup name, given with
  | some merge, .obj entries => merge entries
  | some _, _ => Merge.warn (.notSection name)
  | none, _ => Merge.warn (.unknownSection name)

theorem mergeSections_step (name : String) (given : Json) (rest : Entries Json) :
    mergeSections ((name, given) :: rest) =
      takeSection name given >>= fun _ => mergeSections rest := by
  conv_lhs => unfold mergeSections
  unfold takeSection
  cases sections.lookup name with
  | none => rfl
  | some merge => cases given <;> rfl

/-- A part of a configuration that is a section, and what entries under its name do to it. -/
structure Section (T : Type) where
  name : String
  view : Config Float → T
  put : Config Float → T → Config Float
  merge : Entries Json → Merge T Unit
  found : sections.lookup name = some fun entries => Merge.within view put (merge entries)
  view_put : ∀ c t, view (put c t) = t
  merge_nil : merge [] = Run.done ()
  /-- The other sections leave this one as it is. -/
  apart : ∀ p ∈ sections, p.1 ≠ name → ∀ entries, Keeps (fun m => view m.value) (p.2 entries)

namespace Section

variable (s : Section T)

theorem takeSection_keeps {name : String} (h : name ≠ s.name) (given : Json) :
    Keeps (fun m => s.view m.value) (takeSection name given) := by
  unfold takeSection
  split
  · rename_i merge entries hfound
    exact s.apart _ (Entries.mem_of_get? hfound) h entries
  · exact fun m => rfl
  · exact fun m => rfl

theorem mergeSections_keeps {entries : Entries Json} (h : s.name ∉ entries.names) :
    Keeps (fun m => s.view m.value) (mergeSections entries) := by
  induction entries with
  | nil => exact fun m => rfl
  | cons entry rest ih =>
    obtain ⟨name, given⟩ := entry
    rw [Entries.names, List.map_cons, List.mem_cons, not_or] at h
    rw [mergeSections_step]
    exact (s.takeSection_keeps (Ne.symm h.1) given).bind fun _ => ih h.2

/-- What the section's own entries do to it. -/
theorem takeSection_self {given : Json} {m m' : Merging (Config Float)}
    (h : takeSection s.name given m = (.ok (), m')) : ∃ ws ws',
      s.merge (match given with | .obj entries => entries | _ => []) ⟨s.view m.value, ws⟩ =
        (.ok (), ⟨s.view m'.value, ws'⟩) := by
  unfold takeSection at h
  rw [s.found] at h
  cases given with
  | obj entries =>
    have hdone : (s.merge entries ⟨s.view m.value, m.warnings⟩).1 = .ok () := congrArg Prod.fst h
    have hafter : s.put m.value (s.merge entries ⟨s.view m.value, m.warnings⟩).2.value = m'.value :=
      congrArg (·.2.value) h
    refine ⟨_, (s.merge entries ⟨s.view m.value, m.warnings⟩).2.warnings, Prod.ext hdone ?_⟩
    rw [← hafter, s.view_put]
  | _ =>
    cases h
    exact ⟨[], [], by rw [s.merge_nil]; rfl⟩

/-- What the sections of a file make of one of them. -/
theorem mergeSections_section {entries : Entries Json} (hnodup : entries.names.Nodup)
    {m m' : Merging (Config Float)} (h : mergeSections entries m = (.ok (), m')) : ∃ ws ws',
      s.merge (sectionIn (.obj entries) s.name) ⟨s.view m.value, ws⟩ =
        (.ok (), ⟨s.view m'.value, ws'⟩) := by
  induction entries generalizing m with
  | nil =>
    cases h
    exact ⟨[], [], by rw [show sectionIn (.obj []) s.name = [] from rfl, s.merge_nil]; rfl⟩
  | cons entry rest ih =>
    obtain ⟨name, given⟩ := entry
    rw [Entries.names, List.map_cons, List.nodup_cons] at hnodup
    rw [mergeSections_step] at h
    obtain ⟨_, m₁, hfirst, hrest⟩ := bind_eq_ok h
    by_cases hname : name = s.name
    · subst hname
      obtain ⟨ws, ws', hmerge⟩ := s.takeSection_self hfirst
      have hkept : s.view m'.value = s.view m₁.value := by
        have := s.mergeSections_keeps hnodup.1 m₁
        rwa [hrest] at this
      exact ⟨ws, ws', by rw [sectionIn_cons_self, hmerge, hkept]⟩
    · have hkept : s.view m₁.value = s.view m.value := by
        have := s.takeSection_keeps hname given m
        rwa [hfirst] at this
      obtain ⟨ws, ws', hmerge⟩ := ih hnodup.2 hrest
      exact ⟨ws, ws', by rw [sectionIn_cons_of_ne hname, ← hkept, hmerge]⟩

end Section

/-! ## One file -/

/-- The entries that a configuration file has for a section; none where the file cannot be read. -/
def sectionOf (d : Disk) (file : Path) (name : String) : Entries Json :=
  match d.readText file with
  | .error _ => []
  | .ok text =>
    match Json.read text with
    | .error _ => []
    | .ok j => sectionIn j name

namespace Section

variable (s : Section T)

theorem mergeDocument_section {path : String} {j : Json} {room : Nat} (hj : Readable room j)
    {m m' : Merging (Config Float)} (h : mergeDocument path j m = (.ok (), m')) : ∃ ws ws',
      s.merge (sectionIn j s.name) ⟨s.view m.value, ws⟩ = (.ok (), ⟨s.view m'.value, ws'⟩) := by
  cases hj with
  | obj hnodup _ => exact s.mergeSections_section hnodup h
  | _ =>
    cases h
    exact ⟨[], [], by unfold sectionIn Json.get?; dsimp only; rw [s.merge_nil]; rfl⟩

/-- What a configuration file makes of a section. -/
theorem mergeFileIfThere_section {d : Disk} {file : Path} {m m' : Merging (Config Float)}
    (h : mergeFileIfThere d file m = (.ok (), m')) : ∃ ws ws',
      s.merge (sectionOf d file s.name) ⟨s.view m.value, ws⟩ =
        (.ok (), ⟨s.view m'.value, ws'⟩) := by
  have hnone (hvalue : m.value = m'.value) (hempty : sectionOf d file s.name = []) : ∃ ws ws',
      s.merge (sectionOf d file s.name) ⟨s.view m.value, ws⟩ =
        (.ok (), ⟨s.view m'.value, ws'⟩) := by
    rw [hempty, hvalue, s.merge_nil]
    exact ⟨[], [], rfl⟩
  unfold mergeFileIfThere at h
  obtain ⟨isThere, m₁, hthere, h⟩ := bind_eq_ok h
  obtain ⟨hthere, rfl⟩ : d.has file = .ok isThere ∧ m = m₁ := by
    simpa [Run.ofExcept, Prod.mk.injEq] using hthere
  cases isThere with
  | false =>
    cases h
    refine hnone rfl ?_
    unfold Disk.has Disk.holds at hthere
    unfold sectionOf Disk.readText
    cases hentry : d.entry file with
    | ok t =>
      rw [hentry] at hthere
      cases hthere
    | error e => rfl
  | true =>
    rw [if_pos rfl] at h
    unfold mergeFile at h
    unfold sectionOf at hnone ⊢
    cases htext : d.readText file with
    | error e =>
      rw [htext] at h hnone
      dsimp only at h
      split at h
      · cases h
        exact hnone rfl rfl
      · cases h
    | ok text =>
      rw [htext] at h hnone
      dsimp only at h hnone ⊢
      cases hread : Json.read text with
      | ok j =>
        rw [hread] at h
        exact s.mergeDocument_section (readable_of_read hread) h
      | error e =>
        rw [hread] at h hnone
        cases e with
        | malformed =>
          cases h
          exact hnone rfl rfl
        | oversized => cases h
        | tooDeep => cases h

end Section

/-! ## Numbers -/

/-- The double that a value gives where a number is wanted. -/
def real? : Json → Option Float
  | .int n => Quantity.ofRatio? n 1
  | .float x => some x
  | _ => none

/-- The last number that entries give under a name. -/
def lastReal? (name : String) : Entries Json → Option Float
  | [] => none
  | (key, given) :: rest =>
    (lastReal? name rest).or (if fieldName key = name then real? given else none)

variable {name : String} {get : S → Float} {put : S → Float → S}

theorem take_real (hget : ∀ s x, get (put s x) = x) {key : String} {given : Json}
    {m m' : Merging S} (h : (Field.real name get put).take key given m = (.ok (), m')) :
    get m'.value = (real? given).getD (get m.value) := by
  cases given with
  | int n =>
    obtain ⟨x, m₁, hx, h⟩ := bind_eq_ok h
    cases h
    unfold Run.ofExcept Merge.real at hx
    rw [real?]
    cases hratio : (Quantity.ofRatio? n 1 : Option Float) with
    | none =>
      rw [hratio] at hx
      cases hx
    | some y =>
      rw [hratio] at hx
      cases hx
      exact hget _ _
  | float x =>
    cases h
    exact hget _ _
  | _ =>
    cases h
    rfl

/-- Entries leave a part of a section as it is. -/
def Leaves (view : S → T) (fields : List (Field S)) : Prop :=
  ∀ f ∈ fields, ∀ key given, Keeps (fun m => view m.value) (f.take key given)

theorem takeEntry_keeps {view : S → T} {fields : List (Field S)} (h : Leaves view fields)
    (label key : String) (given : Json) :
    Keeps (fun m => view m.value) (takeEntry fields label key given) := by
  unfold takeEntry
  split
  · rename_i f hfound
    exact h f (List.mem_of_find?_eq_some hfound) _ _
  · exact fun _ => rfl

theorem Field.flag_keeps {view : S → T} {get : S → Bool} {put : S → Bool → S}
    (h : ∀ s b, view (put s b) = view s) (key : String) (given : Json) :
    Run.Keeps (fun m => view m.value) ((Field.flag name get put).take key given) := by
  intro m
  cases given with
  | bool b => exact h _ _
  | _ => rfl

theorem Field.real_keeps {view : S → T} {get : S → Float} {put : S → Float → S}
    (h : ∀ s x, view (put s x) = view s) (key : String) (given : Json) :
    Run.Keeps (fun m => view m.value) ((Field.real name get put).take key given) := by
  cases given with
  | int n => exact .bind (.ofExcept _) fun x m => h _ _
  | float x => exact fun m => h _ _
  | _ => exact fun m => rfl

/-- Of some fields, the one under a name holds the number that the others leave as it is. -/
def RealAt (name : String) (get : S → Float) (fields : List (Field S)) : Prop :=
  ∀ label key given m m', takeEntry fields label key given m = (.ok (), m') →
    get m'.value = (if fieldName key = name then real? given else none).getD (get m.value)

namespace RealAt

theorem head (hget : ∀ s x, get (put s x) = x) {fields : List (Field S)} (h : Leaves get fields) :
    RealAt name get (Field.real name get put :: fields) := by
  intro label key given m m' hm
  rw [takeEntry_cons] at hm
  have hnamed : (Field.real name get put).IsNamed name := Field.isNamed _ _
  by_cases hkey : fieldName key = name
  · rw [if_pos ((hnamed key).mpr hkey)] at hm
    rw [if_pos hkey]
    exact take_real hget hm
  · rw [if_neg (mt (hnamed key).mp hkey)] at hm
    rw [if_neg hkey]
    have hkept := takeEntry_keeps h label key given m
    rw [hm] at hkept
    exact hkept

/-- A field under another name goes before. -/
theorem tail {f : Field S} {other : String} (hother : f.IsNamed other) (hname : other ≠ name)
    (hkeeps : ∀ key given, Keeps (fun m => get m.value) (f.take key given))
    {fields : List (Field S)} (h : RealAt name get fields) : RealAt name get (f :: fields) := by
  intro label key given m m' hm
  rw [takeEntry_cons] at hm
  by_cases hkey : f.isKey key
  · rw [if_pos hkey] at hm
    rw [if_neg (by rwa [(hother key).mp hkey])]
    have hkept := hkeeps (label ++ "." ++ key) given m
    rw [hm] at hkept
    exact hkept
  · rw [if_neg hkey] at hm
    exact h label key given m m' hm

/-- Where entries give a number several times, the last one stays. -/
theorem mergeEntries {fields : List (Field S)} (hfields : RealAt name get fields) {label : String}
    {entries : Entries Json} {m m' : Merging S}
    (h : mergeEntries fields label entries m = (.ok (), m')) :
    get m'.value = (lastReal? name entries).getD (get m.value) := by
  induction entries generalizing m with
  | nil =>
    cases h
    rfl
  | cons entry rest ih =>
    obtain ⟨key, given⟩ := entry
    rw [mergeEntries_cons] at h
    obtain ⟨_, m₁, hfirst, hrest⟩ := bind_eq_ok h
    rw [ih hrest, hfields _ _ _ _ _ hfirst, lastReal?, Option.getD_or]

end RealAt

end Cartridge.Config
