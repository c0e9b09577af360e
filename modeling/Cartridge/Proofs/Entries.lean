import Cartridge.Entries
import Mathlib.Data.List.Nodup

/-!
# Names of entries

Setting entries keeps the names different, and entries that were set under different names are found
again in their order.

* `nodup_put`, `nodup_putAll`: names stay different.
* `put_of_get?`: setting a name to the value that it has changes nothing.
* `put_of_mem`: among different names, setting one changes its value and nothing else.
* `forall_put`, `forall_putAll`: what holds of all values holds after more of them are set.
* `putAll_eq_append`: entries with new names are put behind the others.
* `get?_foldl_put`: the last entry for a name is found.
* `get?_of_mem`, `get?_of_not_mem`: an entry among different names is found.
* `get?_erase_self`, `get?_erase_of_ne`: what is found after the entries of a name are taken away.
* `pairwise_sortedBy`: entries, and other things, sorted by their names.
* `mappedBy`, `mapped`: entries with each value changed.
-/

namespace Cartridge.Entries

variable {α : Type} {P : α → Prop}

theorem put_of_not_mem {entries : Entries α} {name : String} (h : name ∉ entries.names)
    (value : α) : entries.put name value = entries ++ [(name, value)] := by
  induction entries with
  | nil => rfl
  | cons entry rest ih =>
    rw [names, List.map_cons, List.mem_cons, not_or] at h
    rw [put, if_neg (Ne.symm h.1), ih h.2, List.cons_append]

theorem get?_of_not_mem {entries : Entries α} {name : String} (h : name ∉ entries.names) :
    entries.get? name = none := by
  cases hget : entries.get? name with
  | none => rfl
  | some value => exact absurd (List.mem_map_of_mem (mem_of_get? hget)) h

theorem not_mem_of_get? {entries : Entries α} {name : String} (h : entries.get? name = none) :
    name ∉ entries.names := by
  intro hmem
  obtain ⟨e, he, rfl⟩ := List.mem_map.mp hmem
  simpa using List.lookup_eq_none_iff.mp h e he

/-- Setting a name to the value that it has changes nothing. -/
theorem put_of_get? {entries : Entries α} {name : String} {value : α}
    (h : entries.get? name = some value) : entries.put name value = entries := by
  induction entries with
  | nil => cases h
  | cons entry rest ih =>
    obtain ⟨k, v⟩ := entry
    rw [get?, List.lookup_cons] at h
    by_cases hname : name = k
    · subst hname
      rw [beq_self_eq_true] at h
      rw [put, if_pos rfl, Option.some.inj h]
    · rw [beq_false_of_ne hname] at h
      rw [put, if_neg (Ne.symm hname), ih h]

theorem put_of_mem {entries : Entries α} {name : String} (hnodup : entries.names.Nodup)
    (h : name ∈ entries.names) (value : α) :
    entries.put name value = entries.map fun e => (e.1, if e.1 = name then value else e.2) := by
  induction entries with
  | nil => cases h
  | cons entry rest ih =>
    obtain ⟨k, v⟩ := entry
    obtain ⟨hfresh, hrest⟩ : k ∉ names rest ∧ (names rest).Nodup := List.nodup_cons.mp hnodup
    rw [put, List.map_cons]
    by_cases hk : k = name
    · subst hk
      have hkept : rest.map (fun e => (e.1, if e.1 = k then value else e.2)) = rest := by
        refine (List.map_congr_left fun e he => ?_).trans (List.map_id rest)
        have hne : e.1 ≠ k := by
          rintro rfl
          exact hfresh (List.mem_map_of_mem he)
        rw [if_neg hne]
        rfl
      rw [if_pos rfl, if_pos rfl, hkept]
    · rw [if_neg hk, if_neg hk, ih hrest ((List.mem_cons.mp h).resolve_left (Ne.symm hk))]

theorem names_put (entries : Entries α) (name : String) (value : α) :
    (entries.put name value).names =
      if name ∈ entries.names then entries.names else entries.names ++ [name] := by
  induction entries with
  | nil => rfl
  | cons entry rest ih =>
    have hnames : names (entry :: rest) = entry.1 :: names rest := rfl
    rw [put, hnames]
    by_cases h : entry.1 = name
    · rw [if_pos h, if_pos (by rw [h]; exact List.mem_cons_self)]
      exact congrArg (· :: names rest) h.symm
    · rw [if_neg h]
      show entry.1 :: names (put rest name value) = _
      by_cases hmem : name ∈ names rest
      · rw [ih, if_pos hmem, if_pos (List.mem_cons_of_mem _ hmem)]
      · rw [ih, if_neg hmem, if_neg (List.not_mem_cons_of_ne_of_not_mem (Ne.symm h) hmem),
          List.cons_append]

theorem nodup_put {entries : Entries α} (h : entries.names.Nodup) (name : String) (value : α) :
    (entries.put name value).names.Nodup := by
  rw [names_put]
  split
  · exact h
  · rename_i hmem
    refine List.nodup_append.mpr ⟨h, List.nodup_singleton name, fun a ha b hb => ?_⟩
    rw [List.mem_singleton.mp hb]
    rintro rfl
    exact hmem ha

theorem forall_put {entries : Entries α} (h : ∀ e ∈ entries, P e.2) (name : String) {value : α}
    (hvalue : P value) : ∀ e ∈ entries.put name value, P e.2 := by
  induction entries with
  | nil =>
    intro e he
    rw [List.mem_singleton.mp he]
    exact hvalue
  | cons entry rest ih =>
    intro e he
    rw [put] at he
    split at he
    · rcases List.mem_cons.mp he with rfl | he
      · exact hvalue
      · exact h e (List.mem_cons_of_mem _ he)
    · rcases List.mem_cons.mp he with rfl | he
      · exact h e List.mem_cons_self
      · exact ih (fun e he => h e (List.mem_cons_of_mem _ he)) e he

theorem nodup_putAll {entries : Entries α} (h : entries.names.Nodup) (new : Entries α) :
    (entries.putAll new).names.Nodup := by
  induction new generalizing entries with
  | nil => exact h
  | cons entry rest ih => exact ih (nodup_put h entry.1 entry.2)

theorem forall_putAll {entries new : Entries α} (h : ∀ e ∈ entries, P e.2)
    (hnew : ∀ e ∈ new, P e.2) : ∀ e ∈ entries.putAll new, P e.2 := by
  induction new generalizing entries with
  | nil => exact h
  | cons entry rest ih =>
    exact ih (forall_put h entry.1 (hnew entry List.mem_cons_self))
      fun e he => hnew e (List.mem_cons_of_mem _ he)

theorem putAll_eq_append {entries new : Entries α} (h : (names (entries ++ new)).Nodup) :
    entries.putAll new = entries ++ new := by
  induction new generalizing entries with
  | nil => exact (List.append_nil entries).symm
  | cons entry rest ih =>
    have hfresh : entry.1 ∉ entries.names := by
      rw [names, List.map_append] at h
      exact fun hmem => (List.nodup_append.mp h).2.2 _ hmem _ (by simp) rfl
    show (entries.put entry.1 entry.2).putAll rest = _
    rw [put_of_not_mem hfresh, ih (by rwa [List.append_assoc]), List.append_assoc]
    rfl

/-- Of several entries that are set under a name the last one is found. -/
theorem get?_foldl_put {β : Type} (key : β → String) (value : β → α) (items : List β)
    (entries : Entries α) (name : String) :
    (items.foldl (fun (all : Entries α) b => all.put (key b) (value b)) entries).get? name =
      ((items.reverse.find? (key · = name)).map value).or (entries.get? name) := by
  induction items generalizing entries with
  | nil => rfl
  | cons b items ih =>
    rw [List.foldl_cons, ih, List.reverse_cons, List.find?_append]
    cases items.reverse.find? (key · = name) with
    | some last => rfl
    | none =>
      by_cases hkey : key b = name
      · rw [← hkey, get?_put_self]
        simp
      · rw [get?_put_of_ne _ _ (Ne.symm hkey)]
        simp [hkey]

theorem get?_of_mem {entries : Entries α} (hnodup : entries.names.Nodup) {name : String} {value : α}
    (h : (name, value) ∈ entries) : entries.get? name = some value := by
  induction entries with
  | nil => cases h
  | cons entry rest ih =>
    obtain ⟨hfresh, hrest⟩ : entry.1 ∉ names rest ∧ (names rest).Nodup := List.nodup_cons.mp hnodup
    rw [get?, List.lookup_cons]
    rcases List.mem_cons.mp h with rfl | h
    · rw [beq_self_eq_true]
    · have hne : (name == entry.1) = false := by
        refine beq_eq_false_iff_ne.mpr fun hname => hfresh ?_
        rw [← hname]
        exact List.mem_map_of_mem h
      rw [hne]
      exact ih hrest h

theorem get?_erase_self (entries : Entries α) (name : String) :
    (entries.erase name).get? name = none := by
  refine List.lookup_eq_none_iff.mpr fun e he => ?_
  have hname : e.1 ≠ name := by simpa using (List.mem_filter.mp he).2
  simpa using Ne.symm hname

theorem get?_erase_of_ne (entries : Entries α) {name other : String} (h : other ≠ name) :
    (entries.erase name).get? other = entries.get? other := by
  induction entries with
  | nil => rfl
  | cons entry rest ih =>
    obtain ⟨k, v⟩ := entry
    by_cases hk : k = name
    · subst hk
      have hne : (other == k) = false := by simpa using h
      rw [erase, List.filter_cons_of_neg (by simp), get?, get?, List.lookup_cons, hne]
      exact ih
    · rw [erase, List.filter_cons_of_pos (by simpa using hk), get?, get?, List.lookup_cons,
        List.lookup_cons]
      split
      · rfl
      · exact ih

/-- Things that are sorted by a name stand in the order of these names. -/
theorem pairwise_sortedBy {β : Type} (key : β → String) (items : List β) :
    (items.mergeSort (key · ≤ key ·)).Pairwise fun a b => key a ≤ key b := by
  have htrans (a b c : β) (hab : decide (key a ≤ key b) = true)
      (hbc : decide (key b ≤ key c) = true) : decide (key a ≤ key c) = true :=
    decide_eq_true (String.le_trans (of_decide_eq_true hab) (of_decide_eq_true hbc))
  have htotal (a b : β) : (decide (key a ≤ key b) || decide (key b ≤ key a)) = true := by
    simpa using String.le_total (key a) (key b)
  exact (items.pairwise_mergeSort htrans htotal).imp of_decide_eq_true

/-! ## Changed values -/

section Mapped

variable {β : Type}

/-- Entries with each value changed under its name. -/
def mappedBy (f : String → α → β) (entries : Entries α) : Entries β :=
  entries.map fun e => (e.1, f e.1 e.2)

/-- Entries with each value changed. -/
def mapped (f : α → β) (entries : Entries α) : Entries β := entries.mappedBy fun _ => f

theorem get?_mappedBy (f : String → α → β) (entries : Entries α) (name : String) :
    (entries.mappedBy f).get? name = (entries.get? name).map (f name) := by
  induction entries with
  | nil => rfl
  | cons entry rest ih =>
    obtain ⟨k, v⟩ := entry
    show List.lookup name ((k, f k v) :: mappedBy f rest) =
      Option.map (f name) (List.lookup name ((k, v) :: rest))
    rw [List.lookup_cons, List.lookup_cons]
    cases hname : name == k with
    | true =>
      rw [beq_iff_eq.mp hname]
      rfl
    | false => exact ih

theorem mappedBy_put (f : String → α → β) (entries : Entries α) (name : String) (value : α) :
    (entries.put name value).mappedBy f = (entries.mappedBy f).put name (f name value) := by
  induction entries with
  | nil => rfl
  | cons entry rest ih =>
    by_cases h : entry.1 = name
    · simp [put, mappedBy, h]
    · simpa [put, mappedBy, h] using ih

variable (f : α → β)

@[simp] theorem names_mapped (entries : Entries α) : (entries.mapped f).names = entries.names := by
  simp [names, mapped, mappedBy]

@[simp] theorem get?_mapped (entries : Entries α) (name : String) :
    (entries.mapped f).get? name = (entries.get? name).map f := get?_mappedBy _ entries name

@[simp] theorem has_mapped (entries : Entries α) (name : String) :
    (entries.mapped f).has name = entries.has name := by
  rw [has, has, get?_mapped, Option.isSome_map]

theorem mapped_put (entries : Entries α) (name : String) (value : α) :
    (entries.put name value).mapped f = (entries.mapped f).put name (f value) :=
  mappedBy_put _ entries name value

theorem mapped_erase (entries : Entries α) (name : String) :
    (entries.erase name).mapped f = (entries.mapped f).erase name := by
  rw [erase, erase, mapped, mapped, mappedBy, mappedBy, List.filter_map]
  rfl

theorem mapped_putAll (entries new : Entries α) :
    (entries.putAll new).mapped f = (entries.mapped f).putAll (new.mapped f) := by
  induction new generalizing entries with
  | nil => rfl
  | cons entry rest ih =>
    show (Entries.putAll (entries.put entry.1 entry.2) rest).mapped f = _
    rw [ih, mapped_put]
    rfl

end Mapped

end Cartridge.Entries
