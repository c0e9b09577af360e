import Cartridge.Proofs.Config.Limits

/-!
# The last word of a configuration file

Where a configuration file gives something several times, the last entry that is accepted stays. So
it is with texts and truth values, with what an object within the section gives, and with each key
of a table.

* `last?`, `under`, `inside`, `exactly`: the last thing that entries give.
* `Field.Gives`, `Field.Spares`: what a field does to a part of its section.
* `Follows`, `follows_of_field`: a part of a section that one field decides on.
* `Follows.mergeEntries`: such a part is what the last accepted entry makes of it.
* `providersSection`, `cachingSection`, `toolsSection`: the sections with their parts.
-/

namespace Cartridge.Config

open Json Run

variable {S T U : Type}

/-! ## The last thing that entries give -/

/-- The last thing that entries give, one by one. -/
def last? (gives : String → Json → Option T) : Entries Json → Option T
  | [] => none
  | (key, given) :: rest => (last? gives rest).or (gives key given)

/-- What a value gives where its key names a field. -/
def under (name : String) (take : Json → Option T) (key : String) (given : Json) : Option T :=
  if fieldName key = name then take given else none

/-- The last thing that the entries of an object give. -/
def inside (gives : String → Json → Option T) : Json → Option T
  | .obj entries => last? gives entries
  | _ => none

/-- A value whose key is spelled in one way. -/
def exactly (name : String) (key : String) (given : Json) : Option Json :=
  if key = name then some given else none

/-- The text that a value gives where a text is wanted. -/
def text? : Json → Option String
  | .str s => some s
  | _ => none

/-- The items that a value gives where a list is wanted. -/
def items? : Json → Option (List Json)
  | .arr items => some items
  | _ => none

/-- The truth value that a value gives where one is wanted. -/
def flag? : Json → Option Bool
  | .bool b => some b
  | _ => none

theorem last?_map (f : T → U) (gives : String → Json → Option T) (entries : Entries Json) :
    last? (fun key given => (gives key given).map f) entries = (last? gives entries).map f := by
  induction entries with
  | nil => rfl
  | cons entry rest ih =>
    obtain ⟨key, given⟩ := entry
    rw [last?, last?, ih]
    cases last? gives rest <;> rfl

theorem under_map (f : T → U) (name : String) (take : Json → Option T) :
    under name (fun given => (take given).map f) =
      fun key given => (under name take key given).map f := by
  funext key given
  unfold under
  split <;> rfl

/-- What is set in a table is the last value for its key. -/
theorem get?_putAll (entries new : Entries Json) (name : String) :
    (entries.putAll new).get? name = (last? (exactly name) new).or (entries.get? name) := by
  induction new generalizing entries with
  | nil => rfl
  | cons entry rest ih =>
    obtain ⟨key, given⟩ := entry
    have hstep : entries.putAll ((key, given) :: rest) = (entries.put key given).putAll rest := rfl
    rw [hstep, ih, last?, Option.or_assoc]
    congr 1
    unfold exactly
    by_cases hkey : key = name
    · rw [if_pos hkey, hkey, Entries.get?_put_self]
      rfl
    · rw [if_neg hkey, Entries.get?_put_of_ne _ _ (Ne.symm hkey)]
      rfl

/-! ## What a field does to a part of its section -/

namespace Field

variable {name : String} {view : S → T}

/-- What a value gives becomes a part of the section, if it gives anything. -/
def Gives (f : Field S) (take : Json → Option T) (view : S → T) : Prop :=
  ∀ key given m m', f.take key given m = (.ok (), m') →
    view m'.value = (take given).getD (view m.value)

/-- The field goes by another name and leaves a part of the section as it is. -/
structure Spares (f : Field S) (name : String) (view : S → T) : Prop where
  apart : ∀ key, f.isKey key = true → fieldName key ≠ name
  keeps : ∀ key given, Run.Keeps (fun m => view m.value) (f.take key given)

theorem spares_of_named {other : String} {take : String → Json → Merge S Unit}
    (h : other ≠ name) (hkeeps : ∀ key given, Run.Keeps (fun m => view m.value) (take key given)) :
    (named other take).Spares name view := by
  refine ⟨fun key hkey => ?_, hkeeps⟩
  rw [(isNamed other take key).mp hkey]
  exact h

theorem text_gives {get : S → String} {put : S → String → S} (h : ∀ s x, get (put s x) = x) :
    (Field.text name get put).Gives text? get := by
  intro key given m m' hm
  cases given with
  | str x =>
    cases hm
    exact h _ _
  | _ =>
    cases hm
    rfl

theorem flag_gives {get : S → Bool} {put : S → Bool → S} (h : ∀ s x, get (put s x) = x) :
    (Field.flag name get put).Gives flag? get := by
  intro key given m m' hm
  cases given with
  | bool x =>
    cases hm
    exact h _ _
  | _ =>
    cases hm
    rfl

theorem items_gives {get : S → List Json} {put : S → List Json → S}
    (h : ∀ s x, get (put s x) = x) : (Field.items name get put).Gives items? get := by
  intro key given m m' hm
  cases given with
  | arr new =>
    cases hm
    exact h _ _
  | _ =>
    cases hm
    rfl

/-- A table gives the last value for each of its keys. -/
theorem table_gives {get : S → Entries Json} {put : S → Entries Json → S}
    (h : ∀ s x, get (put s x) = x) (key : String) :
    (Field.table name get put).Gives (fun given => (inside (exactly key) given).map some)
      fun s => (get s).get? key := by
  intro label given m m' hm
  cases given with
  | obj new =>
    cases hm
    show (get (put m.value _)).get? key = _
    rw [h, get?_putAll]
    show (last? (exactly key) new).or _ = ((last? (exactly key) new).map some).getD _
    cases last? (exactly key) new <;> rfl
  | _ =>
    cases hm
    rfl

variable {other : String}

theorem text_spares {get : S → String} {put : S → String → S} (hname : other ≠ name)
    (h : ∀ s x, view (put s x) = view s) : (Field.text other get put).Spares name view := by
  refine spares_of_named hname fun key given m => ?_
  cases given with
  | str x => exact h _ _
  | _ => rfl

theorem flag_spares {get : S → Bool} {put : S → Bool → S} (hname : other ≠ name)
    (h : ∀ s x, view (put s x) = view s) : (Field.flag other get put).Spares name view :=
  spares_of_named hname (@flag_keeps S T other view get put h)

theorem whole_spares {get : S → Int} {put : S → Int → S} (hname : other ≠ name)
    (h : ∀ s x, view (put s x) = view s) : (Field.whole other get put).Spares name view := by
  refine spares_of_named hname fun key given m => ?_
  cases given with
  | int n => exact h _ _
  | _ => rfl

theorem real_spares {get : S → Float} {put : S → Float → S} (hname : other ≠ name)
    (h : ∀ s x, view (put s x) = view s) : (Field.real other get put).Spares name view :=
  spares_of_named hname (@real_keeps S T other view get put h)

theorem items_spares {get : S → List Json} {put : S → List Json → S} (hname : other ≠ name)
    (h : ∀ s x, view (put s x) = view s) : (Field.items other get put).Spares name view := by
  refine spares_of_named hname fun key given m => ?_
  cases given with
  | arr new => exact h _ _
  | _ => rfl

theorem table_spares {get : S → Entries Json} {put : S → Entries Json → S} (hname : other ≠ name)
    (h : ∀ s x, view (put s x) = view s) : (Field.table other get put).Spares name view := by
  refine spares_of_named hname fun key given m => ?_
  cases given with
  | obj new => exact h _ _
  | _ => rfl

end Field

/-! ## Parts that one field decides on -/

/-- A part of a section is what an entry gives for it, if the entry gives anything. -/
def Follows (gives : String → Json → Option T) (view : S → T) (fields : List (Field S)) : Prop :=
  ∀ label key given m m', takeEntry fields label key given m = (.ok (), m') →
    view m'.value = (gives key given).getD (view m.value)

variable {name : String} {take : Json → Option T} {view : S → T} {fields : List (Field S)}

/-- Of some fields one decides on a part of the section, and the others spare it. -/
theorem follows_of_field {f : Field S} (hf : f ∈ fields) (hname : f.IsNamed name)
    (hgives : f.Gives take view) (hothers : ∀ g ∈ fields, g = f ∨ g.Spares name view) :
    Follows (under name take) view fields := by
  intro label key given m m' hm
  unfold takeEntry at hm
  unfold under
  cases hfound : fields.find? (·.isKey key) with
  | none =>
    have hkey : fieldName key ≠ name := fun h =>
      List.find?_eq_none.mp hfound f hf ((hname key).mpr h)
    rw [hfound] at hm
    cases hm
    rw [if_neg hkey]
    rfl
  | some g =>
    obtain ⟨hg, -⟩ := List.find?_eq_some_iff_append.mp hfound
    rw [hfound] at hm
    rcases hothers g (List.mem_of_find?_eq_some hfound) with rfl | hspares
    · rw [if_pos ((hname key).mp hg)]
      exact hgives _ _ _ _ hm
    · rw [if_neg (hspares.apart key hg)]
      have hkept := hspares.keeps (label ++ "." ++ key) given m
      dsimp only at hm
      rw [hm] at hkept
      exact hkept

/-- Such a part is what the last accepted entry makes of it. -/
theorem Follows.mergeEntries {gives : String → Json → Option T} (h : Follows gives view fields)
    {label : String} {entries : Entries Json} {m m' : Merging S}
    (hm : mergeEntries fields label entries m = (.ok (), m')) :
    view m'.value = (last? gives entries).getD (view m.value) := by
  induction entries generalizing m with
  | nil =>
    cases hm
    rfl
  | cons entry rest ih =>
    obtain ⟨key, given⟩ := entry
    rw [mergeEntries_cons] at hm
    obtain ⟨_, m₁, hfirst, hrest⟩ := bind_eq_ok hm
    rw [ih hrest, h _ _ _ _ _ hfirst, last?, Option.getD_or]

/-! ## The user's own machine -/

/-- The third field is the temperature, which may be a whole number or not. -/
theorem temperature_spares {view : Provider.LocalService → T} (hname : "temperature" ≠ name)
    (h : ∀ s t, view { s with temperature := t } = view s) :
    ownMachineFields[2].Spares name view := by
  refine Field.spares_of_named hname fun key given => .bind (fun m => rfl) fun current => ?_
  split
  · rename_i x _
    cases given with
    | int n => exact .bind (.ofExcept _) fun y m => h _ _
    | float y => exact fun m => h _ _
    | _ => exact fun m => rfl
  · cases given with
    | int n => exact fun m => h _ _
    | _ => exact fun m => rfl

theorem endpoint_follows : Follows (under "endpoint" text?) (·.endpoint) ownMachineFields := by
  refine follows_of_field List.mem_cons_self (Field.isNamed _ _)
    (Field.text_gives fun _ _ => rfl) ?_
  intro g hg
  simp only [ownMachineFields, List.mem_cons, List.not_mem_nil, or_false] at hg
  rcases hg with rfl | rfl | rfl | rfl | rfl
  · exact .inl rfl
  · exact .inr (Field.text_spares (by decide) fun _ _ => rfl)
  · exact .inr (temperature_spares (by decide) fun _ _ => rfl)
  · exact .inr (Field.whole_spares (by decide) fun _ _ => rfl)
  · exact .inr (Field.flag_spares (by decide) fun _ _ => rfl)

theorem enabled_follows : Follows (under "enabled" flag?) (·.enabled) ownMachineFields := by
  refine follows_of_field (List.mem_of_getElem? (i := 4) rfl) (Field.isNamed _ _)
    (Field.flag_gives fun _ _ => rfl) ?_
  intro g hg
  simp only [ownMachineFields, List.mem_cons, List.not_mem_nil, or_false] at hg
  rcases hg with rfl | rfl | rfl | rfl | rfl
  · exact .inr (Field.text_spares (by decide) fun _ _ => rfl)
  · exact .inr (Field.text_spares (by decide) fun _ _ => rfl)
  · exact .inr (temperature_spares (by decide) fun _ _ => rfl)
  · exact .inr (Field.whole_spares (by decide) fun _ _ => rfl)
  · exact .inl rfl

/-! ## The section about providers -/

/-- What the section about providers makes of the user's own machine. -/
theorem ownMachine_gives {gives : String → Json → Option T} {view : Provider.LocalService → T}
    (h : Follows gives view ownMachineFields) :
    providerFields[4].Gives (inside gives) fun p => view p.ownMachine := by
  intro key given m m' hm
  cases given with
  | obj entries =>
    have hdone : (mergeEntries ownMachineFields key entries ⟨m.value.ownMachine, m.warnings⟩).1 =
      .ok () := congrArg Prod.fst hm
    have hafter : (mergeEntries ownMachineFields key entries
        ⟨m.value.ownMachine, m.warnings⟩).2.value = m'.value.ownMachine :=
      congrArg (·.2.value.ownMachine) hm
    show view m'.value.ownMachine = _
    rw [← hafter]
    exact h.mergeEntries (Prod.ext hdone rfl)
  | _ =>
    cases hm
    rfl

theorem ownMachine_spares {view : Providers → T} (hname : "local" ≠ name)
    (h : ∀ p s, view { p with ownMachine := s } = view p) : providerFields[4].Spares name view := by
  refine Field.spares_of_named hname fun key given m => ?_
  cases given with
  | obj entries => exact h _ _
  | _ => rfl

theorem primary_follows : Follows (under "primary" text?) (·.primary) providerFields := by
  refine follows_of_field List.mem_cons_self (Field.isNamed _ _)
    (Field.text_gives fun _ _ => rfl) ?_
  intro g hg
  simp only [providerFields, List.mem_cons, List.not_mem_nil, or_false] at hg
  rcases hg with rfl | rfl | rfl | rfl | rfl
  · exact .inl rfl
  · exact .inr (Field.items_spares (by decide) fun _ _ => rfl)
  · exact .inr (Field.table_spares (by decide) fun _ _ => rfl)
  · exact .inr (Field.table_spares (by decide) fun _ _ => rfl)
  · exact .inr (ownMachine_spares (by decide) fun _ _ => rfl)

theorem fallback_follows : Follows (under "fallback" items?) (·.fallback) providerFields := by
  refine follows_of_field (List.mem_of_getElem? (i := 1) rfl) (Field.isNamed _ _)
    (Field.items_gives fun _ _ => rfl) ?_
  intro g hg
  simp only [providerFields, List.mem_cons, List.not_mem_nil, or_false] at hg
  rcases hg with rfl | rfl | rfl | rfl | rfl
  · exact .inr (Field.text_spares (by decide) fun _ _ => rfl)
  · exact .inl rfl
  · exact .inr (Field.table_spares (by decide) fun _ _ => rfl)
  · exact .inr (Field.table_spares (by decide) fun _ _ => rfl)
  · exact .inr (ownMachine_spares (by decide) fun _ _ => rfl)

theorem model_follows (name : String) :
    Follows (under "models" fun given => (inside (exactly name) given).map some)
      (fun p => p.models.get? name) providerFields := by
  refine follows_of_field (List.mem_of_getElem? (i := 3) rfl) (Field.isNamed _ _)
    (Field.table_gives (fun _ _ => rfl) name) ?_
  intro g hg
  simp only [providerFields, List.mem_cons, List.not_mem_nil, or_false] at hg
  rcases hg with rfl | rfl | rfl | rfl | rfl
  · exact .inr (Field.text_spares (by decide) fun _ _ => rfl)
  · exact .inr (Field.items_spares (by decide) fun _ _ => rfl)
  · exact .inr (Field.table_spares (by decide) fun _ _ => rfl)
  · exact .inl rfl
  · exact .inr (ownMachine_spares (by decide) fun _ _ => rfl)

/-- The last object with keys that has a key decides on it. -/
theorem apiKey_follows (key : String) :
    Follows (under "api_keys" fun given => (inside (exactly key) given).map some)
      (fun p => p.apiKeys.get? key) providerFields := by
  refine follows_of_field (List.mem_of_getElem? (i := 2) rfl) (Field.isNamed _ _)
    (Field.table_gives (fun _ _ => rfl) key) ?_
  intro g hg
  simp only [providerFields, List.mem_cons, List.not_mem_nil, or_false] at hg
  rcases hg with rfl | rfl | rfl | rfl | rfl
  · exact .inr (Field.text_spares (by decide) fun _ _ => rfl)
  · exact .inr (Field.items_spares (by decide) fun _ _ => rfl)
  · exact .inl rfl
  · exact .inr (Field.table_spares (by decide) fun _ _ => rfl)
  · exact .inr (ownMachine_spares (by decide) fun _ _ => rfl)

theorem ownMachine_follows {gives : String → Json → Option T} {view : Provider.LocalService → T}
    (h : Follows gives view ownMachineFields) :
    Follows (under "local" (inside gives)) (fun p => view p.ownMachine) providerFields := by
  refine follows_of_field (List.mem_of_getElem? (i := 4) rfl) (Field.isNamed _ _)
    (ownMachine_gives h) ?_
  intro g hg
  simp only [providerFields, List.mem_cons, List.not_mem_nil, or_false] at hg
  rcases hg with rfl | rfl | rfl | rfl | rfl
  · exact .inr (Field.text_spares (by decide) fun _ _ => rfl)
  · exact .inr (Field.items_spares (by decide) fun _ _ => rfl)
  · exact .inr (Field.table_spares (by decide) fun _ _ => rfl)
  · exact .inr (Field.table_spares (by decide) fun _ _ => rfl)
  · exact .inl rfl

/-! ## The other sections -/

theorem takeLifetime_keeps_others {view : Caching Float → T}
    (h : ∀ c l, view { c with lifetime := l } = view c)
    (scaled : Int → Except Fault (Number Float)) (scaledReal : Float → Float) (key : String)
    (given : Json) : Keeps (fun m => view m.value) (takeLifetime scaled scaledReal key given) := by
  refine .bind (fun m => rfl) fun current => ?_
  split
  · exact .bind (.ofExcept _) fun l m => h _ _
  · exact fun m => rfl
  · refine .bind (.ofExcept _) fun l => ?_
    cases l with
    | real x => exact fun m => h _ _
    | whole k => exact .bind (.ofExcept _) fun x m => h _ _
  · exact fun m => h _ _
  · exact fun m => rfl

theorem caching_follows : Follows (under "enabled" flag?) (·.enabled) cachingFields := by
  refine follows_of_field (List.mem_of_getElem? (i := 1) rfl) (Field.isNamed _ _)
    (Field.flag_gives fun _ _ => rfl) ?_
  have httl : fieldName "ttl" ≠ "enabled" := by decide
  intro g hg
  simp only [cachingFields, List.mem_cons, List.not_mem_nil, or_false] at hg
  rcases hg with rfl | rfl | rfl | rfl
  · right
    refine ⟨fun key hkey => ?_, takeLifetime_keeps_others (fun _ _ => rfl) _ _⟩
    rw [of_decide_eq_true hkey]
    exact httl
  · exact .inl rfl
  · exact .inr (Field.whole_spares (by decide) fun _ _ => rfl)
  · exact .inr (Field.spares_of_named (by decide) (takeLifetime_keeps_others (fun _ _ => rfl) _ _))

theorem preferLocal_follows :
    Follows (under "prefer_local" flag?) (·.preferLocal) budgetFields := by
  refine follows_of_field (List.mem_of_getElem? (i := 2) rfl) (Field.isNamed _ _)
    (Field.flag_gives fun _ _ => rfl) ?_
  intro g hg
  simp only [budgetFields, List.mem_cons, List.not_mem_nil, or_false] at hg
  rcases hg with rfl | rfl | rfl
  · exact .inr (Field.real_spares (by decide) fun _ _ => rfl)
  · exact .inr (Field.real_spares (by decide) fun _ _ => rfl)
  · exact .inl rfl

theorem libraryPath_follows : Follows (under "gbdk_path" text?) (·.libraryPath) toolFields := by
  refine follows_of_field List.mem_cons_self (Field.isNamed _ _)
    (Field.text_gives fun _ _ => rfl) ?_
  intro g hg
  simp only [toolFields, List.mem_cons, List.not_mem_nil, or_false] at hg
  rcases hg with rfl | rfl | rfl | rfl | rfl
  · exact .inl rfl
  · exact .inr (Field.text_spares (by decide) fun _ _ => rfl)
  · exact .inr (Field.text_spares (by decide) fun _ _ => rfl)
  · exact .inr (Field.text_spares (by decide) fun _ _ => rfl)
  · exact .inr (Field.real_spares (by decide) fun _ _ => rfl)

theorem translator_follows : Follows (under "transpiler" text?) (·.translator) toolFields := by
  refine follows_of_field (List.mem_of_getElem? (i := 1) rfl) (Field.isNamed _ _)
    (Field.text_gives fun _ _ => rfl) ?_
  intro g hg
  simp only [toolFields, List.mem_cons, List.not_mem_nil, or_false] at hg
  rcases hg with rfl | rfl | rfl | rfl | rfl
  · exact .inr (Field.text_spares (by decide) fun _ _ => rfl)
  · exact .inl rfl
  · exact .inr (Field.text_spares (by decide) fun _ _ => rfl)
  · exact .inr (Field.text_spares (by decide) fun _ _ => rfl)
  · exact .inr (Field.real_spares (by decide) fun _ _ => rfl)

/-- Which providers are asked. -/
def providersSection : Section Providers where
  name := "providers"
  view := (·.providers)
  put := ({ · with providers := · })
  merge := mergeEntries providerFields "providers"
  found := rfl
  view_put _ _ := rfl
  merge_nil := rfl
  apart := by
    intro p hp hname entries
    simp only [sections, List.mem_cons, List.not_mem_nil, or_false] at hp
    rcases hp with rfl | rfl | rfl | rfl | rfl | rfl
    · exact absurd rfl hname
    · exact fun _ => rfl
    · exact fun _ => rfl
    · exact fun _ => rfl
    · exact fun _ => rfl
    · exact fun _ => rfl

/-- How long results are kept. -/
def cachingSection : Section (Caching Float) where
  name := "caching"
  view := (·.caching)
  put := ({ · with caching := · })
  merge := mergeEntries cachingFields "caching"
  found := rfl
  view_put _ _ := rfl
  merge_nil := rfl
  apart := by
    intro p hp hname entries
    simp only [sections, List.mem_cons, List.not_mem_nil, or_false] at hp
    rcases hp with rfl | rfl | rfl | rfl | rfl | rfl
    · exact fun _ => rfl
    · exact absurd rfl hname
    · exact fun _ => rfl
    · exact fun _ => rfl
    · exact fun _ => rfl
    · exact fun _ => rfl

/-- Where the toolchain is and what turns sources into C. -/
def toolsSection : Section Tools where
  name := "toolchain"
  view := (·.tools)
  put := ({ · with tools := · })
  merge := mergeEntries toolFields "toolchain"
  found := rfl
  view_put _ _ := rfl
  merge_nil := rfl
  apart := by
    intro p hp hname entries
    simp only [sections, List.mem_cons, List.not_mem_nil, or_false] at hp
    rcases hp with rfl | rfl | rfl | rfl | rfl | rfl
    · exact fun _ => rfl
    · exact fun _ => rfl
    · exact fun _ => rfl
    · exact fun _ => rfl
    · exact fun _ => rfl
    · exact absurd rfl hname

end Cartridge.Config
