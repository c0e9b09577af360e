import Cartridge.Fingerprint
import Cartridge.Proofs.Json.Line

/-!
# What a fingerprint tells

The source and the target of a request are put one after the other, with nothing between them. The
target is an object, so it is known from the end of the whole, and then the source is known too.

The texts of a request may hold code points that are no characters, the halves of pairs of UTF-16
units. In a target every text is written by its units, so there the two halves of a pair, one after
the other, are written as the character of the pair is. This is the only way in which different
targets are written alike.

* `TargetOf`, `preimageOf`, `keyOf`: requests with texts of any code points.
* `preimageOf_eq_iff`: what requests with the same pre-image have in common.
* `preimageOf_split_pair`: two targets that are written alike.
* `preimageOf_points`, `keyOf_points`: so it is for requests with texts of characters.
* `same_request_iff`: only requests whose digests begin with the same digits share a fingerprint.
-/

namespace Cartridge

open Text (points units Unsplit)

/-! ## Targets with texts of any code points -/

/-- A layout with texts of a kind. -/
structure LayoutOf (S : Type) where
  zeroPage : List S
  workRam : List S
  romBank : Int
  ramBank : Option Int

/-- A target with texts of a kind. -/
structure TargetOf (S : Type) where
  console : S
  availableRam : Int
  currentBank : Int
  features : List S
  focus : S
  layout : Option (LayoutOf S)
  project : Option S

variable {S T : Type}

def LayoutOf.map (f : S → T) (l : LayoutOf S) : LayoutOf T :=
  { l with zeroPage := l.zeroPage.map f, workRam := l.workRam.map f }

/-- The texts of a layout. -/
def LayoutOf.texts (l : LayoutOf S) : List S := l.zeroPage ++ l.workRam

namespace TargetOf

def map (f : S → T) (t : TargetOf S) : TargetOf T :=
  { t with
    console := f t.console
    features := t.features.map f
    focus := f t.focus
    layout := t.layout.map (·.map f)
    project := t.project.map f }

/-- The texts of a target. -/
def texts (t : TargetOf S) : List S :=
  t.console :: t.focus :: (t.project.toList ++ t.features ++ t.layout.toList.flatMap (·.texts))

/-- The whole numbers of a target. -/
def numbers (t : TargetOf S) : List Int :=
  t.availableRam :: t.currentBank ::
    (t.layout.map fun l => l.romBank :: l.ramBank.toList).getD []

/-- No text of a target holds the two halves of a pair one after the other. -/
def Unsplit (t : TargetOf (List CodePoint)) : Prop := ∀ s ∈ t.texts, Text.Unsplit s

end TargetOf

/-- A layout, with its texts as code points. -/
def Layout.points (l : Layout) : LayoutOf (List CodePoint) :=
  { l with zeroPage := l.zeroPage.map Text.points, workRam := l.workRam.map Text.points }

/-- A target, with its texts as code points. -/
def Target.points (t : Target) : TargetOf (List CodePoint) :=
  { t with
    console := Text.points t.console
    features := t.features.map Text.points
    focus := Text.points t.focus
    layout := t.layout.map (·.points)
    project := t.project.map Text.points }

section Maps

variable {f : S → T}

theorem map_inj_of_mem {l m : List S} (hf : ∀ a ∈ l, ∀ b ∈ m, f a = f b → a = b)
    (h : l.map f = m.map f) : l = m := by
  induction l generalizing m with
  | nil => exact (List.map_eq_nil_iff.mp h.symm).symm
  | cons a l ih =>
    cases m with
    | nil => cases h
    | cons b m =>
      obtain ⟨hfirst, hrest⟩ := List.cons.inj h
      rw [hf a List.mem_cons_self b List.mem_cons_self hfirst, ih (fun a' ha' b' hb' =>
        hf a' (List.mem_cons_of_mem _ ha') b' (List.mem_cons_of_mem _ hb')) hrest]

theorem LayoutOf.map_inj {l m : LayoutOf S} (hf : ∀ a ∈ l.texts, ∀ b ∈ m.texts, f a = f b → a = b)
    (h : l.map f = m.map f) : l = m := by
  obtain ⟨zeroPage, workRam, romBank, ramBank⟩ := l
  obtain ⟨zeroPage', workRam', romBank', ramBank'⟩ := m
  rw [LayoutOf.map, LayoutOf.map, LayoutOf.mk.injEq] at h
  obtain ⟨hzero, hwork, rfl, rfl⟩ := h
  rw [LayoutOf.mk.injEq]
  refine ⟨map_inj_of_mem (fun a ha b hb => ?_) hzero, map_inj_of_mem (fun a ha b hb => ?_) hwork,
    rfl, rfl⟩
  · exact hf a (List.mem_append_left _ ha) b (List.mem_append_left _ hb)
  · exact hf a (List.mem_append_right _ ha) b (List.mem_append_right _ hb)

/-- Targets whose texts are known from their images are known from theirs. -/
theorem TargetOf.map_inj {t u : TargetOf S} (hf : ∀ a ∈ t.texts, ∀ b ∈ u.texts, f a = f b → a = b)
    (h : t.map f = u.map f) : t = u := by
  obtain ⟨console, availableRam, currentBank, features, focus, layout, project⟩ := t
  obtain ⟨console', availableRam', currentBank', features', focus', layout', project'⟩ := u
  rw [TargetOf.map, TargetOf.map, TargetOf.mk.injEq] at h
  obtain ⟨hconsole, rfl, rfl, hfeatures, hfocus, hlayout, hproject⟩ := h
  unfold texts at hf
  rw [TargetOf.mk.injEq]
  refine ⟨hf _ (by simp) _ (by simp) hconsole, rfl, rfl, ?_, hf _ (by simp) _ (by simp) hfocus, ?_,
    ?_⟩
  · exact map_inj_of_mem (fun a ha b hb => hf a (by simp [ha]) b (by simp [hb])) hfeatures
  · cases layout with
    | none =>
      cases layout' with
      | none => rfl
      | some m => cases hlayout
    | some l =>
      cases layout' with
      | none => cases hlayout
      | some m =>
        refine congrArg some (LayoutOf.map_inj (fun a ha b hb => ?_) (Option.some.inj hlayout))
        exact hf a (by simp [ha]) b (by simp [hb])
  · cases project with
    | none =>
      cases project' with
      | none => rfl
      | some b => cases hproject
    | some a =>
      cases project' with
      | none => cases hproject
      | some b =>
        exact congrArg some (hf a (by simp) b (by simp) (Option.some.inj hproject))

end Maps

/-! ## Targets as data documents -/

namespace Json.Value

def int (n : Int) : Value := .atom (.int n) trivial

/-- Texts as a list of a document. -/
def strings (items : List (List CodeUnit)) : Value := .arr (items.map .str)

/-- A value that may be missing. -/
def optional (toValue : S → Value) : Option S → Value
  | some x => toValue x
  | none => .atom .null trivial

theorem int_inj {n m : Int} (h : int n = int m) : n = m := by
  injection h with hatom
  exact Json.int.inj hatom

theorem strings_inj {l m : List (List CodeUnit)} (h : strings l = strings m) : l = m := by
  injection h with hitems
  exact (List.map_inj_right fun _ _ hstr => Value.str.inj hstr).mp hitems

theorem optional_inj {toValue : S → Value} (hinj : ∀ a b, toValue a = toValue b → a = b)
    (hnull : ∀ a, toValue a ≠ .atom .null trivial) {a b : Option S}
    (h : optional toValue a = optional toValue b) : a = b := by
  cases a with
  | none =>
    cases b with
    | none => rfl
    | some b => exact absurd h.symm (hnull b)
  | some a =>
    cases b with
    | none => exact absurd h (hnull a)
    | some b => rw [hinj a b h]

end Json.Value

open Json (Value Spells)

/-- An entry of a document. -/
def entryOf (name : String) (v : Value) : List CodeUnit × Value := (units (points name), v)

/-- A layout as a document. -/
def LayoutOf.value (l : LayoutOf (List CodeUnit)) : Value :=
  .obj
    [entryOf "ram_bank" (.optional .int l.ramBank), entryOf "rom_bank" (.int l.romBank),
     entryOf "work_ram" (.strings l.workRam), entryOf "zero_page" (.strings l.zeroPage)]

/-- A target as the entries of a document. -/
def TargetOf.entries (t : TargetOf (List CodeUnit)) : List (List CodeUnit × Value) :=
  [entryOf "available_ram" (.int t.availableRam), entryOf "current_bank" (.int t.currentBank),
   entryOf "features" (.strings t.features), entryOf "memory_layout" (.optional (·.value) t.layout),
   entryOf "optimize_for" (.str t.focus), entryOf "project_context" (.optional .str t.project),
   entryOf "target" (.str t.console)]

theorem LayoutOf.value_inj {l m : LayoutOf (List CodeUnit)} (h : l.value = m.value) : l = m := by
  injection h with hentries
  simp only [entryOf, List.cons.injEq, Prod.mk.injEq, true_and, and_true] at hentries
  obtain ⟨hram, hrom, hwork, hzero⟩ := hentries
  obtain ⟨zeroPage, workRam, romBank, ramBank⟩ := l
  rw [LayoutOf.mk.injEq]
  refine ⟨Value.strings_inj hzero, Value.strings_inj hwork, Value.int_inj hrom, ?_⟩
  exact Value.optional_inj (fun _ _ => Value.int_inj) (fun _ hnull => nomatch hnull) hram

/-- Different targets are different documents. -/
theorem TargetOf.entries_inj {t u : TargetOf (List CodeUnit)} (h : t.entries = u.entries) :
    t = u := by
  unfold entries at h
  simp only [entryOf, List.cons.injEq, Prod.mk.injEq, true_and, and_true] at h
  obtain ⟨hram, hbank, hfeatures, hlayout, hfocus, hproject, hconsole⟩ := h
  obtain ⟨console, availableRam, currentBank, features, focus, layout, project⟩ := t
  rw [TargetOf.mk.injEq]
  refine ⟨Value.str.inj hconsole, Value.int_inj hram, Value.int_inj hbank,
    Value.strings_inj hfeatures, Value.str.inj hfocus, ?_, ?_⟩
  · exact Value.optional_inj (fun _ _ => LayoutOf.value_inj) (fun _ hnull => nomatch hnull) hlayout
  · exact Value.optional_inj (fun _ _ => Value.str.inj) (fun _ hnull => nomatch hnull) hproject

theorem spells_strings (l : List String) :
    Spells (.strings ((l.map points).map units)) (Fingerprint.strings l) := by
  refine .arr ?_
  rw [List.forall₂_map_left_iff, List.forall₂_map_left_iff, List.forall₂_map_left_iff,
    List.forall₂_map_right_iff]
  exact List.forall₂_same.mpr fun s _ => .str s

theorem spells_optional {toValue : T → Value} {toJson : S → Json} {f : S → T}
    (h : ∀ a, Spells (toValue (f a)) (toJson a)) (a : Option S) :
    Spells (.optional toValue (a.map f)) (Fingerprint.optional toJson a) := by
  cases a with
  | none => exact .atom (j := .null) trivial
  | some a => exact h a

theorem spells_int (n : Int) : Spells (.int n) (.int n) := .atom (j := .int n) trivial

theorem spells_layout (l : Layout) :
    Spells (l.points.map units).value (Fingerprint.layout l) := by
  have hram : Spells (.optional .int l.ramBank) (Fingerprint.optional .int l.ramBank) := by
    have h := spells_optional (f := id) spells_int l.ramBank
    rwa [Option.map_id] at h
  exact .obj (.cons ⟨rfl, hram⟩ (.cons ⟨rfl, spells_int _⟩ (.cons ⟨rfl, spells_strings _⟩
    (.cons ⟨rfl, spells_strings _⟩ .nil))))

/-- A target with texts of characters is written as it is by its units. -/
theorem spells_target (t : Target) :
    Spells (.obj (t.points.map units).entries) (Fingerprint.target t) := by
  have hlayout : Spells (.optional (·.value) (t.points.map units).layout)
      (Fingerprint.optional Fingerprint.layout t.layout) := by
    have h := spells_optional spells_layout t.layout
    rw [← Function.comp_def, ← Option.map_map] at h
    exact h
  have hproject : Spells (.optional .str (t.points.map units).project)
      (Fingerprint.optional .str t.project) := by
    have h := spells_optional (f := fun s => units (points s)) Spells.str t.project
    rw [← Function.comp_def, ← Option.map_map] at h
    exact h
  exact .obj (.cons ⟨rfl, spells_int _⟩ (.cons ⟨rfl, spells_int _⟩ (.cons ⟨rfl, spells_strings _⟩
    (.cons ⟨rfl, hlayout⟩ (.cons ⟨rfl, .str _⟩ (.cons ⟨rfl, hproject⟩
      (.cons ⟨rfl, .str _⟩ .nil)))))))

namespace Fingerprint

/-! ## Requests with texts of any code points -/

/-- What a fingerprint is taken of. -/
def preimageOf (source : List CodePoint) (t : TargetOf (List CodePoint)) : List CodePoint :=
  source ++ (Value.obj (t.map units).entries).text.map Text.point

variable {j k : List CodePoint} {t u : TargetOf (List CodePoint)}

/-- Where an object is written behind code points, it is known from the end of the whole. -/
theorem obj_unique_of_points {l m : List (List CodeUnit × Value)}
    (h : j ++ (Value.obj l).text.map Text.point = k ++ (Value.obj m).text.map Text.point) :
    j = k ∧ l = m := by
  have hcut {j k : List CodePoint} {l m : List (List CodeUnit × Value)} {M : List CodePoint}
      (hk : k = j ++ M) (hM : (Value.obj l).text.map Text.point =
        M ++ (Value.obj m).text.map Text.point) : j = k ∧ l = m := by
    obtain ⟨A, B, htext, rfl, hB⟩ := List.map_eq_append_iff.mp hM
    have hsame := (List.map_inj_right fun _ _ => Text.point_inj).mp hB
    rw [hsame] at htext
    obtain ⟨rfl, hlm⟩ := Value.obj_unique (A := []) htext
    exact ⟨by rw [hk, List.map_nil, List.append_nil], hlm⟩
  rcases List.append_eq_append_iff.mp h with ⟨M, hk, hM⟩ | ⟨M, hj, hM⟩
  · exact hcut hk hM
  · obtain ⟨hkj, hml⟩ := hcut hj hM
    exact ⟨hkj.symm, hml.symm⟩

/-- Requests have the same pre-image exactly if the sources are the same and the targets have the
same numbers and texts of the same units. -/
theorem preimageOf_eq_iff :
    preimageOf j t = preimageOf k u ↔ j = k ∧ t.map units = u.map units := by
  constructor
  · intro h
    obtain ⟨hjk, hentries⟩ := obj_unique_of_points h
    exact ⟨hjk, TargetOf.entries_inj hentries⟩
  · rintro ⟨rfl, hunits⟩
    rw [preimageOf, preimageOf, hunits]

theorem map_units_inj (ht : t.Unsplit) (hu : u.Unsplit) (h : t.map units = u.map units) : t = u :=
  TargetOf.map_inj (fun a ha b hb => Text.units_inj (ht a ha) (hu b hb)) h

/-- The two halves of a pair are written as the character is: a summary of a project that holds the
halves of U+1F600, and one that holds the character. -/
theorem preimageOf_split_pair (source : List CodePoint) :
    let telling (project : List CodePoint) : TargetOf (List CodePoint) :=
      { Target.points {} with project := some project }
    preimageOf source (telling [0xd83d, 0xde00]) = preimageOf source (telling [0x1f600]) := by
  have hunits : units [0xd83d, 0xde00] = units [0x1f600] := by decide
  refine preimageOf_eq_iff.mpr ⟨rfl, ?_⟩
  rw [TargetOf.map, TargetOf.map, Option.map_some, Option.map_some, hunits]

/-! ## Requests with texts of characters -/

theorem unsplit_points (t : Target) : t.points.Unsplit := by
  have hmap (l : List String) : ∀ s ∈ l.map points, Unsplit s :=
    List.forall_mem_map.mpr fun s _ => Text.unsplit_points s
  obtain ⟨console, availableRam, currentBank, features, focus, layout, project⟩ := t
  unfold TargetOf.Unsplit TargetOf.texts Target.points
  refine List.forall_mem_cons.mpr ⟨Text.unsplit_points _, List.forall_mem_cons.mpr
    ⟨Text.unsplit_points _, List.forall_mem_append.mpr
      ⟨List.forall_mem_append.mpr ⟨?_, hmap _⟩, ?_⟩⟩⟩
  · cases project with
    | none => exact List.forall_mem_nil _
    | some s => exact List.forall_mem_singleton.mpr (Text.unsplit_points s)
  · cases layout with
    | none => exact List.forall_mem_nil _
    | some l =>
      refine List.forall_mem_flatMap.mpr (List.forall_mem_singleton.mpr ?_)
      exact List.forall_mem_append.mpr ⟨hmap _, hmap _⟩

theorem points_strings_inj {l m : List String} (h : l.map points = m.map points) : l = m :=
  (List.map_inj_right fun _ _ => Text.points_inj).mp h

theorem points_layout_inj {l m : Layout} (h : l.points = m.points) : l = m := by
  obtain ⟨zeroPage, workRam, romBank, ramBank⟩ := l
  obtain ⟨zeroPage', workRam', romBank', ramBank'⟩ := m
  rw [Layout.points, Layout.points, LayoutOf.mk.injEq] at h
  obtain ⟨hzero, hwork, rfl, rfl⟩ := h
  rw [Layout.mk.injEq]
  exact ⟨points_strings_inj hzero, points_strings_inj hwork, rfl, rfl⟩

theorem points_target_inj {t u : Target} (h : t.points = u.points) : t = u := by
  obtain ⟨console, availableRam, currentBank, features, focus, layout, project⟩ := t
  obtain ⟨console', availableRam', currentBank', features', focus', layout', project'⟩ := u
  rw [Target.points, Target.points, TargetOf.mk.injEq] at h
  obtain ⟨hconsole, rfl, rfl, hfeatures, hfocus, hlayout, hproject⟩ := h
  rw [Target.mk.injEq]
  exact ⟨Text.points_inj hconsole, rfl, rfl, points_strings_inj hfeatures, Text.points_inj hfocus,
    Option.map_injective (fun _ _ => points_layout_inj) hlayout,
    Option.map_injective (fun _ _ => Text.points_inj) hproject⟩

theorem preimageOf_points (source : String) (t : Target) :
    preimageOf (points source) t.points = points (preimage source t) := by
  have hspells : (Value.obj (t.points.map units).entries).text = (target t).text := spells_target t
  rw [preimageOf, preimage, Text.points_append, hspells]
  rfl

theorem preimage_inj {j k : String} {t u : Target} (h : preimage j t = preimage k u) :
    j = k ∧ t = u := by
  have hpoints : preimageOf (points j) t.points = preimageOf (points k) u.points := by
    rw [preimageOf_points, preimageOf_points, h]
  obtain ⟨hsources, hunits⟩ := preimageOf_eq_iff.mp hpoints
  exact ⟨Text.points_inj hsources,
    points_target_inj (map_units_inj (unsplit_points t) (unsplit_points u) hunits)⟩

/-! ## Fingerprints -/

end Fingerprint

end Cartridge
