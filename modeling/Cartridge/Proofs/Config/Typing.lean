import Cartridge.Proofs.Config.Faults
import Cartridge.Proofs.Config.Precedence
import Cartridge.Proofs.Config.Tables

/-!
# The types of what is loaded

What is loaded from a configuration file has the types that are declared for it, with one exception:
a list is taken whatever its items are, and so is a table whatever its values are. A value of another
type is reported, and nothing else comes of it.

* `WellTyped`, `TypedFile`: the types of a configuration, and what a file has to give for them.
* `wellTyped_iff`: a loaded configuration has these types exactly if its file gives nothing else.
* `Topic.types`, `fits_of_type`: the types of fields, and that no other value fits.
* `Passed`, `Reported`: a value of another type is passed over with a warning.
* `load_typed`: both for all that is loaded.
-/

namespace Cartridge.Config

open Json Run

/-! ## Types of what is loaded -/

def IsText (v : Json) : Prop := ∃ s, v = .str s

/-- Lists and tables hold texts, and the temperature is a number that need not be whole. -/
structure WellTyped (c : Config Float) : Prop where
  temperature : ∃ x, c.providers.ownMachine.temperature = .real x
  fallback : ∀ v ∈ c.providers.fallback, IsText v
  apiKeys : ∀ name v, c.providers.apiKeys.get? name = some v → IsText v
  models : ∀ name v, c.providers.models.get? name = some v → IsText v

/-- The key under a name is one of the environment. -/
def SetByVariable (env : Environment) (name : String) : Prop :=
  ∃ kind : Provider.Kind, kind.name = name ∧ (keyFrom? env kind).isSome

/-- The entries about providers give texts where texts are wanted: in the list that stays, and for
each name in the tables that does. -/
structure TypedFile (env : Environment) (entries : Entries Json) : Prop where
  fallback : ∀ items, last? (under "fallback" items?) entries = some items → ∀ v ∈ items, IsText v
  apiKeys : ∀ name v, last? (under "api_keys" (inside (exactly name))) entries = some v →
    IsText v ∨ SetByVariable env name
  models : ∀ name v, last? (under "models" (inside (exactly name))) entries = some v → IsText v

theorem get?_setKey_of_not_set {env : Environment} {name : String} (h : ¬ SetByVariable env name)
    (keys : Entries Json) (kind : Provider.Kind) :
    (setKey env keys kind).get? name = keys.get? name := by
  unfold setKey
  cases hkey : kind.keyVariable?.bind (value? env) with
  | none => rfl
  | some key =>
    refine Entries.get?_put_of_ne _ _ fun hname => h ⟨kind, hname.symm, ?_⟩
    rw [keyFrom?, hkey]
    rfl

theorem get?_keysFrom_of_not_set {env : Environment} {name : String}
    (h : ¬ SetByVariable env name) (keys : Entries Json) :
    (keysFrom env keys).get? name = keys.get? name := by
  rw [keysFrom_eq]
  simp only [List.foldl_cons, List.foldl_nil, get?_setKey_of_not_set h]

/-- A key of the environment is a text. -/
theorem isText_keysFrom {env : Environment} {name : String} (h : SetByVariable env name)
    {keys : Entries Json} {v : Json} (hv : (keysFrom env keys).get? name = some v) : IsText v := by
  obtain ⟨kind, rfl, hset⟩ := h
  unfold keyFrom? at hset
  cases hvariable : kind.keyVariable? with
  | none =>
    rw [hvariable] at hset
    cases hset
  | some variable_ =>
    rw [hvariable, Option.bind_some] at hset
    obtain ⟨key, hkey⟩ := Option.isSome_iff_exists.mp hset
    rw [get?_keysFrom env keys hvariable, hkey] at hv
    obtain ⟨s, -, rfl⟩ := Option.map_eq_some_iff.mp hkey
    exact ⟨s, (Option.some.inj hv).symm⟩

/-- Lists and models of a configuration are none of the environment's. -/
theorem lists_of_withEnvironment {env : Environment} {c c' : Config Float}
    (h : withEnvironment env c = .ok c') : c'.providers.fallback = c.providers.fallback ∧
      c'.providers.models = c.providers.models := by
  unfold withEnvironment at h
  dsimp only at h
  split at h
  · cases h
    unfold withOwnMachine
    split <;> exact ⟨rfl, rfl⟩
  · cases h

theorem last_model_of_file (name : String) {d : Disk} {file : Path}
    {m m' : Merging (Config Float)} (hnone : m.value.providers.models.get? name = none)
    (hm : mergeFileIfThere d file m = (.ok (), m')) :
    m'.value.providers.models.get? name =
      last? (under "models" (inside (exactly name))) (sectionOf d file "providers") := by
  have hfile : m'.value.providers.models.get? name = _ :=
    last_word_of_file (s := providersSection) rfl (model_follows name) hm
  have hbefore : providersSection.view m.value = m.value.providers := rfl
  have hname : providersSection.name = "providers" := rfl
  rw [hfile, under_map, last?_map, hbefore, hnone, hname]
  cases last? (under "models" (inside (exactly name))) (sectionOf d file "providers") <;> rfl

section Loading

variable {d : Disk} {env env' : Environment} {configPath envPath : Option String}
  {console console' : Console} {c : Config Float}

/-- A loaded configuration has the types that are declared exactly if its file gives texts where
texts are wanted. -/
theorem wellTyped_iff [EnvFile.Reader] (henv : environment d env envPath = .ok env')
    (hload : load d env configPath envPath console = (.ok c, console')) :
    WellTyped c ↔ TypedFile env' (sectionOf d (pathOr d configPath fileName) "providers") := by
  obtain ⟨env'', merged, henv', hmerged, hc⟩ := loaded hload
  obtain rfl : env' = env'' := Except.ok.inj (henv.symm.trans henv')
  obtain ⟨hfallback, hmodels⟩ := lists_of_withEnvironment hc
  have hkeys := (parts_of_withEnvironment hc).apiKeys
  have hlist : merged.value.providers.fallback = _ :=
    last_word_of_file (s := providersSection) rfl fallback_follows hmerged
  have hmodel name := last_model_of_file name rfl hmerged
  have hkey name := last_key_of_file name rfl hmerged
  constructor
  · intro h
    refine ⟨fun items hitems => ?_, fun name v hv => ?_, fun name v hv => ?_⟩
    · have hitems' : c.providers.fallback = items := by
        rw [hfallback, hlist]
        exact congrArg (Option.getD · _) hitems
      rw [← hitems']
      exact h.fallback
    · by_cases hset : SetByVariable env' name
      · exact .inr hset
      · refine .inl (h.apiKeys name v ?_)
        rw [hkeys, get?_keysFrom_of_not_set hset, hkey, hv]
    · exact h.models name v (by rw [hmodels, hmodel, hv])
  · intro h
    refine ⟨(storable_of_load hload).providers.ownMachine.temperature, ?_, fun name v hv => ?_,
      fun name v hv => ?_⟩
    · rw [hfallback, hlist]
      have hname : providersSection.name = "providers" := rfl
      rw [hname]
      cases hitems : last? (under "fallback" items?)
        (sectionOf d (pathOr d configPath fileName) "providers") with
      | some items => exact h.fallback items hitems
      | none =>
        show ∀ v ∈ [Json.str "openai", .str "local"], IsText v
        simp [IsText]
    · rw [hkeys] at hv
      by_cases hset : SetByVariable env' name
      · exact isText_keysFrom hset hv
      · rw [get?_keysFrom_of_not_set hset, hkey] at hv
        exact (h.apiKeys name v hv).resolve_right hset
    · rw [hmodels, hmodel] at hv
      exact h.models name v hv

end Loading

/-! ## Types of fields -/

/-- The types that fields are declared with; the items of a list and the values of a table may be
anything. -/
inductive FieldType where
  | text
  | flag
  | whole
  | number
  | list
  | table
  deriving DecidableEq, Repr

/-- Whether a value is of a type. A whole number is a number. -/
def FieldType.has : FieldType → Json → Bool
  | text, .str _ | flag, .bool _ | whole, .int _ | number, .int _ | number, .float _ => true
  | list, .arr _ | table, .obj _ => true
  | _, _ => false

namespace Topic

/-- The types of the fields of a section. -/
def types : Topic → Entries FieldType
  | providers => [("primary", .text), ("fallback", .list), ("api_keys", .table),
      ("models", .table), ("local", .table)]
  | caching => [("enabled", .flag), ("max_size", .whole), ("ttl_seconds", .number)]
  | budget => [("max_cost_per_transpilation", .number), ("daily_budget", .number),
      ("prefer_local", .flag)]
  | quality => [("min_score", .number), ("require_validation", .flag),
      ("enable_learning", .flag)]
  | project => [("chunk_size", .whole), ("max_file_size", .whole),
      ("enable_modular_build", .flag)]
  | tools => [("gbdk_path", .text), ("transpiler", .text), ("ts2c_command", .text),
      ("gbdk_url", .text), ("request_timeout", .number)]
  | ownMachine => [("endpoint", .text), ("model", .text), ("temperature", .number),
      ("max_tokens", .whole), ("enabled", .flag)]

theorem has_numberJson (n : Number Float) : FieldType.number.has (numberJson n) = true := by
  cases n <;> rfl

/-- Each field holds a value of its type. -/
theorem has_of_mem_values (t : Topic) (s : t.Part) :
    ∀ field ∈ t.values s, ∃ type, t.types.get? field.1 = some type ∧ type.has field.2 = true := by
  cases t with
  | caching =>
    simp only [values, List.forall_mem_cons]
    exact ⟨⟨_, rfl, rfl⟩, ⟨_, rfl, rfl⟩, ⟨_, rfl, has_numberJson _⟩, List.forall_mem_nil _⟩
  | ownMachine =>
    simp only [values, ownMachineValues, List.forall_mem_cons]
    exact ⟨⟨_, rfl, rfl⟩, ⟨_, rfl, rfl⟩, ⟨_, rfl, has_numberJson _⟩, ⟨_, rfl, rfl⟩, ⟨_, rfl, rfl⟩,
      List.forall_mem_nil _⟩
  | providers | tools =>
    simp only [values, List.forall_mem_cons]
    exact ⟨⟨_, rfl, rfl⟩, ⟨_, rfl, rfl⟩, ⟨_, rfl, rfl⟩, ⟨_, rfl, rfl⟩, ⟨_, rfl, rfl⟩,
      List.forall_mem_nil _⟩
  | budget | quality | project =>
    simp only [values, List.forall_mem_cons]
    exact ⟨⟨_, rfl, rfl⟩, ⟨_, rfl, rfl⟩, ⟨_, rfl, rfl⟩, List.forall_mem_nil _⟩

theorem names_types (t : Topic) : t.types.names = t.names := by
  cases t <;> rfl

end Topic

theorem FieldType.has_of_fits {type : FieldType} {current given : Json}
    (hcurrent : type.has current = true) (hfits : fits current given = true) :
    type.has given = true := by
  cases type <;> cases current <;> cases hcurrent <;> cases given <;> first | rfl | cases hfits

/-- A value of another type does not fit what the field holds. -/
theorem Topic.fits_of_type (t : Topic) (s : t.Part) {name : String} {type : FieldType}
    (htype : t.types.get? name = some type) {given : Json} (hgiven : type.has given = false) :
    ∃ current, (t.values s).get? name = some current ∧ fits current given = false := by
  cases hcurrent : (t.values s).get? name with
  | none =>
    have hname : name ∈ (t.values s).names := by
      rw [names_values, ← names_types]
      exact List.mem_map_of_mem (Entries.mem_of_get? htype)
    exact absurd hname (Entries.not_mem_of_get? hcurrent)
  | some current =>
    refine ⟨current, rfl, ?_⟩
    obtain ⟨type', htype', hhas⟩ := t.has_of_mem_values s _ (Entries.mem_of_get? hcurrent)
    obtain rfl : type' = type := Option.some.inj (htype'.symm.trans htype)
    cases hfits : fits current given with
    | false => rfl
    | true => rw [FieldType.has_of_fits hhas hfits] at hgiven; cases hgiven

/-! ## Entries that are passed over -/

/-- A warning about a value of the wrong type. -/
def Warning.IsAbout (place : String) (given : Json) (w : Warning) : Prop :=
  ∃ wanted kept, w = .wrongKind place wanted given.kindName kept

variable {S T : Type}

/-- Nothing comes of a merging but one warning of some kind. -/
def Passes (x : Merge S Unit) (kind : Warning → Prop) : Prop :=
  ∀ m, ∃ w, kind w ∧ x m = (.ok (), { m with warnings := w :: m.warnings })

/-- A merging adds to the warnings. -/
def Adds (x : Merge S Unit) : Prop := ∀ m, ∃ said, (x m).2.warnings = said ++ m.warnings

theorem Passes.within {view : S → T} {put : S → T → S} {x : Merge T Unit} {kind : Warning → Prop}
    (hx : Passes x kind) (hput : ∀ s, put s (view s) = s) :
    Passes (Merge.within view put x) kind := by
  intro m
  obtain ⟨w, hw, hx⟩ := hx ⟨view m.value, m.warnings⟩
  refine ⟨w, hw, ?_⟩
  unfold Merge.within Run.on
  rw [hx]
  exact congrArg (fun s => (Except.ok (), (⟨s, w :: m.warnings⟩ : Merging S))) (hput m.value)

namespace Adds

theorem bind {x : Merge S Unit} {y : Merge S Unit} (hx : Adds x) (hy : Adds y) :
    Adds (x >>= fun _ => y) := by
  intro m
  obtain ⟨said, hsaid⟩ := hx m
  rw [bind_apply]
  generalize x m = first at hsaid
  obtain ⟨r, m'⟩ := first
  cases r with
  | error e => exact ⟨said, hsaid⟩
  | ok _ =>
    obtain ⟨more, hmore⟩ := hy m'
    refine ⟨more ++ said, ?_⟩
    show (y m').2.warnings = _
    rw [hmore, hsaid, List.append_assoc]

theorem within {view : S → T} {put : S → T → S} {x : Merge T Unit} (hx : Adds x) :
    Adds (Merge.within view put x) := fun m => hx ⟨view m.value, m.warnings⟩

theorem mergeEntries (t : Topic) (label : String) (entries : Entries Json) :
    Adds (mergeEntries t.fields label entries) :=
  fun m => ⟨_, (t.mergeEntries_settle label entries m).warnings⟩

theorem takeSection (name : String) (given : Json) : Adds (takeSection name given) := by
  have hsections : ∀ p ∈ sections, ∀ entries, Adds (p.2 entries) := by
    simp only [sections, List.forall_mem_cons]
    exact ⟨fun _ => (mergeEntries .providers _ _).within, fun _ => (mergeEntries .caching _ _).within,
      fun _ => (mergeEntries .budget _ _).within, fun _ => (mergeEntries .quality _ _).within,
      fun _ => (mergeEntries .project _ _).within, fun _ => (mergeEntries .tools _ _).within,
      List.forall_mem_nil _⟩
  unfold Config.takeSection
  split
  · rename_i hfound
    exact hsections _ (Entries.mem_of_get? hfound) _
  · exact fun m => ⟨[_], rfl⟩
  · exact fun m => ⟨[_], rfl⟩

theorem mergeSections (entries : Entries Json) : Adds (mergeSections entries) := by
  induction entries with
  | nil => exact fun m => ⟨[], rfl⟩
  | cons entry rest ih =>
    obtain ⟨name, given⟩ := entry
    rw [mergeSections_step]
    exact (takeSection name given).bind ih

end Adds

theorem within_bind {view : S → T} {put : S → T → S} (hview : ∀ s t, view (put s t) = t)
    (hput : ∀ s t t', put (put s t) t' = put s t') (x y : Merge T Unit) :
    Merge.within view put (x >>= fun _ => y) =
      Merge.within view put x >>= fun _ => Merge.within view put y := by
  funext m
  rw [bind_apply]
  unfold Merge.within Run.on
  dsimp only
  rw [bind_apply]
  obtain ⟨r, p⟩ := x ⟨view m.value, m.warnings⟩
  cases r with
  | error e => rfl
  | ok _ =>
    dsimp only
    rw [hview, hput]

theorem mergeEntries_append (fields : List (Field S)) (label : String)
    (entries entries' : Entries Json) :
    mergeEntries fields label (entries ++ entries') =
      mergeEntries fields label entries >>= fun _ => mergeEntries fields label entries' := by
  induction entries with
  | nil => rfl
  | cons entry rest ih =>
    obtain ⟨key, given⟩ := entry
    rw [List.cons_append, mergeEntries_cons, mergeEntries_cons, ih, bind_assoc]

theorem mergeSections_append (entries entries' : Entries Json) :
    mergeSections (entries ++ entries') =
      mergeSections entries >>= fun _ => mergeSections entries' := by
  induction entries with
  | nil => rfl
  | cons entry rest ih =>
    obtain ⟨name, given⟩ := entry
    rw [List.cons_append, mergeSections_step, mergeSections_step, ih, bind_assoc]

theorem mergeEntries_singleton (fields : List (Field S)) (label key : String) (given : Json) :
    mergeEntries fields label [(key, given)] = takeEntry fields label key given := by
  rw [mergeEntries_cons]
  exact bind_done _

theorem mergeSections_singleton (name : String) (given : Json) :
    mergeSections [(name, given)] = takeSection name given := by
  rw [mergeSections_step]
  exact bind_done _

theorem mergeSections_around (before : Entries Json) (name : String) (given : Json)
    (after : Entries Json) : mergeSections (before ++ (name, given) :: after) =
      mergeSections before >>= fun _ => takeSection name given >>= fun _ => mergeSections after := by
  rw [mergeSections_append, mergeSections_step]

theorem mergeSections_concat (before : Entries Json) (name : String) (given : Json) :
    mergeSections (before ++ [(name, given)]) =
      mergeSections before >>= fun _ => takeSection name given := by
  rw [mergeSections_append, mergeSections_singleton]

/-! ## Sections and blocks -/

/-- The sections of a file. -/
def sectionTopics : Entries Topic :=
  [("providers", .providers), ("caching", .caching), ("budget", .budget), ("quality", .quality),
   ("project", .project), ("toolchain", .tools)]

namespace Topic

/-- The part of a configuration that a section is about. -/
def of : (t : Topic) → Config Float → t.Part
  | providers, c => c.providers
  | caching, c => c.caching
  | budget, c => c.budget
  | quality, c => c.quality
  | project, c => c.project
  | tools, c => c.tools
  | ownMachine, c => c.providers.ownMachine

/-- A configuration with another part. -/
def put : (t : Topic) → Config Float → t.Part → Config Float
  | providers, c, (p : Providers) => { c with providers := p }
  | caching, c, (p : Caching Float) => { c with caching := p }
  | budget, c, (p : Budget Float) => { c with budget := p }
  | quality, c, (p : Quality Float) => { c with quality := p }
  | project, c, (p : ProjectRules) => { c with project := p }
  | tools, c, (p : Tools) => { c with tools := p }
  | ownMachine, c, (p : Provider.LocalService) =>
    { c with providers := { c.providers with ownMachine := p } }

theorem of_put (t : Topic) (c : Config Float) (p : t.Part) : t.of (t.put c p) = p := by
  cases t <;> rfl

theorem put_put (t : Topic) (c : Config Float) (p p' : t.Part) :
    t.put (t.put c p) p' = t.put c p' := by
  cases t <;> rfl

theorem put_of (t : Topic) (c : Config Float) : t.put c (t.of c) = c := by
  cases t <;> rfl

end Topic

variable {name : String} {t : Topic}

theorem takeSection_obj (h : sectionTopics.get? name = some t) (entries : Entries Json) :
    takeSection name (.obj entries) =
      Merge.within t.of t.put (mergeEntries t.fields name entries) := by
  have hmem := Entries.mem_of_get? h
  simp only [sectionTopics, List.mem_cons, Prod.mk.injEq, List.not_mem_nil, or_false] at hmem
  rcases hmem with ⟨rfl, rfl⟩ | ⟨rfl, rfl⟩ | ⟨rfl, rfl⟩ | ⟨rfl, rfl⟩ | ⟨rfl, rfl⟩ | ⟨rfl, rfl⟩ <;>
    rfl

theorem takeSection_append (h : sectionTopics.get? name = some t) (entries entries' : Entries Json) :
    takeSection name (.obj (entries ++ entries')) =
      takeSection name (.obj entries) >>= fun _ => takeSection name (.obj entries') := by
  rw [takeSection_obj h, takeSection_obj h, takeSection_obj h, mergeEntries_append,
    within_bind t.of_put t.put_put]

/-- An entry for the block about the user's own machine. -/
theorem takeEntry_block {key : String} (h : nameOf key = "local") (label : String)
    (entries : Entries Json) :
    takeEntry providerFields label key (.obj entries) =
      Merge.within (·.ownMachine) ({ · with ownMachine := · })
        (mergeEntries ownMachineFields (label ++ "." ++ key) entries) := by
  have hname : fieldName key = "local" := by
    unfold nameOf at h
    split at h
    · exact absurd h (by decide)
    · exact h
  have hfound : providerFields.find? (·.isKey key) = some providerFields[4] := by
    simp [providerFields, Field.text, Field.items, Field.table, Field.named, hname]
  rw [takeEntry, hfound]
  rfl

theorem takeEntry_block_append {key : String} (h : nameOf key = "local") (label : String)
    (entries entries' : Entries Json) :
    takeEntry providerFields label key (.obj (entries ++ entries')) =
      takeEntry providerFields label key (.obj entries) >>= fun _ =>
        takeEntry providerFields label key (.obj entries') := by
  rw [takeEntry_block h, takeEntry_block h, takeEntry_block h, mergeEntries_append]
  refine within_bind ?_ ?_ _ _ <;> intros <;> rfl

theorem mergeEntries_block_append {key : String} (h : nameOf key = "local") (label : String)
    (entries entries' rest : Entries Json) :
    mergeEntries providerFields label ((key, .obj (entries ++ entries')) :: rest) =
      mergeEntries providerFields label [(key, .obj entries)] >>= fun _ =>
        mergeEntries providerFields label ((key, .obj entries') :: rest) := by
  rw [mergeEntries_cons _ _ _ _ rest, mergeEntries_cons _ _ _ _ rest, mergeEntries_singleton,
    takeEntry_block_append h, bind_assoc]

/-- Entries for a block may be given in two parts. -/
theorem takeSection_block_append {key : String} (h : nameOf key = "local")
    (entries entries' rest : Entries Json) :
    takeSection "providers" (.obj ((key, .obj (entries ++ entries')) :: rest)) =
      takeSection "providers" (.obj [(key, .obj entries)]) >>= fun _ =>
        takeSection "providers" (.obj ((key, .obj entries') :: rest)) := by
  have hname : sectionTopics.get? "providers" = some .providers := rfl
  have hparts := mergeEntries_block_append h "providers" entries entries' rest
  rw [takeSection_obj hname, takeSection_obj hname, takeSection_obj hname,
    ← within_bind Topic.providers.of_put Topic.providers.put_put]
  exact congrArg (Merge.within Topic.providers.of Topic.providers.put) hparts

/-! ## Values of another type -/

variable {type : FieldType} {key : String} {given : Json} {kind : Warning → Prop}

theorem reply_of_not_fits (place key : String) {current : Json} (h : fits current given = false) :
    ∃ w : Warning, w.IsAbout place given ∧ reply place key current given = ⟨.ok current, [w]⟩ := by
  unfold reply
  split
  · split
    · cases h
    · exact ⟨_, ⟨_, _, rfl⟩, rfl⟩
  · rw [replyPlain, h]
    exact ⟨_, ⟨_, _, rfl⟩, rfl⟩

/-- An entry with a value of another type is passed over. -/
theorem takeEntry_passes (t : Topic) (label : String) (htype : t.types.get? (nameOf key) = some type)
    (hgiven : type.has given = false) :
    Passes (takeEntry t.fields label key given) (·.IsAbout (label ++ "." ++ key) given) := by
  intro m
  obtain ⟨current, hcurrent, hfits⟩ := t.fits_of_type m.value htype hgiven
  obtain ⟨w, hw, hreply⟩ := reply_of_not_fits (label ++ "." ++ key) key hfits
  have haccept : accept reply label key given (t.values m.value) = ⟨.ok (t.values m.value), [w]⟩ := by
    rw [accept, hcurrent]
    dsimp only
    rw [hreply, Outcome.map]
    exact congrArg (fun table => (⟨.ok table, [w]⟩ : Outcome (Entries Json)))
      (Entries.put_of_get? hcurrent)
  have htold := t.tabled.takeEntry label key given m
  rw [haccept] at htold
  obtain ⟨s, hs, hvalues⟩ := htold.ok rfl
  obtain rfl := t.values_inj hvalues
  exact ⟨w, hw, hs⟩

/-- A section that is no object is passed over. -/
theorem takeSection_not_section (h : sectionTopics.get? name = some t)
    (hgiven : FieldType.table.has given = false) :
    Passes (takeSection name given) (· = .notSection name) := by
  have hmem := Entries.mem_of_get? h
  simp only [sectionTopics, List.mem_cons, Prod.mk.injEq, List.not_mem_nil, or_false] at hmem
  rcases hmem with ⟨rfl, rfl⟩ | ⟨rfl, rfl⟩ | ⟨rfl, rfl⟩ | ⟨rfl, rfl⟩ | ⟨rfl, rfl⟩ | ⟨rfl, rfl⟩ <;>
    cases given <;> cases hgiven <;> exact fun m => ⟨_, rfl, rfl⟩

/-- So is one for a block. -/
theorem takeEntry_block_passes {k : String} (hk : nameOf k = "local") (label : String)
    (htype : Topic.ownMachine.types.get? (nameOf key) = some type)
    (hgiven : type.has given = false) :
    Passes (takeEntry providerFields label k (.obj [(key, given)]))
      (·.IsAbout (label ++ "." ++ k ++ "." ++ key) given) := by
  rw [takeEntry_block hk, mergeEntries_singleton]
  exact (takeEntry_passes .ownMachine (label ++ "." ++ k) htype hgiven).within fun _ => rfl

theorem takeSection_passes (h : sectionTopics.get? name = some t)
    (hpasses : Passes (takeEntry t.fields name key given) kind) :
    Passes (takeSection name (.obj [(key, given)])) kind := by
  rw [takeSection_obj h, mergeEntries_singleton]
  exact hpasses.within t.put_of

/-! ## Files -/

/-- What stands in a file behind some sections is passed over: with it they make the same of the
configuration as before, and there is a warning, which stays. -/
def Passed (start : Merging (Config Float)) (before here : Entries Json) (said : List Warning)
    (w : Warning) : Prop :=
  ∃ m, mergeSections before start = (.ok (), m) ∧
    mergeSections here start = (.ok (), { m with warnings := w :: m.warnings }) ∧ w ∈ said

/-- Each value of a file that is not of the type of its place is passed over with a warning: for a
section, for a field of one, and for a field of the block in one. -/
structure Reported (start : Merging (Config Float)) (sections_ : Entries Json)
    (said : List Warning) : Prop where
  section_ : ∀ before name given after t, sections_ = before ++ (name, given) :: after →
    sectionTopics.get? name = some t → FieldType.table.has given = false →
    Passed start before (before ++ [(name, given)]) said (.notSection name)
  field : ∀ before name pre key given post after t type,
    sections_ = before ++ (name, .obj (pre ++ (key, given) :: post)) :: after →
    sectionTopics.get? name = some t → t.types.get? (nameOf key) = some type →
    type.has given = false →
    ∃ w : Warning, w.IsAbout (name ++ "." ++ key) given ∧
      Passed start (before ++ [(name, .obj pre)]) (before ++ [(name, .obj (pre ++ [(key, given)]))])
        said w
  inner : ∀ before pre k inside key given beyond post after type,
    sections_ = before ++
      ("providers", .obj (pre ++ (k, .obj (inside ++ (key, given) :: beyond)) :: post)) :: after →
    nameOf k = "local" → Topic.ownMachine.types.get? (nameOf key) = some type →
    type.has given = false →
    ∃ w : Warning, w.IsAbout ("providers." ++ k ++ "." ++ key) given ∧
      Passed start (before ++ [("providers", .obj (pre ++ [(k, .obj inside)]))])
        (before ++ [("providers", .obj (pre ++ [(k, .obj (inside ++ [(key, given)]))]))]) said w

/-- What passes between two mergings does so in a merging of all three. -/
theorem passed_of_split {start final : Merging (Config Float)} {entries before here : Entries Json}
    {y z : Merge (Config Float) Unit} {kind : Warning → Prop}
    (hrun : mergeSections entries start = (.ok (), final))
    (hentries : mergeSections entries = mergeSections before >>= fun _ => y >>= fun _ => z)
    (hhere : mergeSections here = mergeSections before >>= fun _ => y) (hy : Passes y kind)
    (hz : Adds z) : ∃ w, kind w ∧ Passed start before here final.warnings.reverse w := by
  rw [hentries] at hrun
  obtain ⟨_, m, hbefore, hrest⟩ := bind_eq_ok hrun
  obtain ⟨w, hw, hpass⟩ := hy m
  refine ⟨w, hw, m, hbefore, ?_, ?_⟩
  · rw [hhere, bind_apply, hbefore]
    exact hpass
  · rw [bind_apply, hpass] at hrest
    obtain ⟨said, hsaid⟩ := hz { m with warnings := w :: m.warnings }
    have hfinal : final.warnings = said ++ w :: m.warnings := by
      rw [← hsaid]
      exact congrArg (fun after => (Prod.snd after).warnings) hrest.symm
    rw [hfinal, List.mem_reverse]
    exact List.mem_append_right _ List.mem_cons_self

theorem reported {start final : Merging (Config Float)} {entries : Entries Json}
    (h : mergeSections entries start = (.ok (), final)) :
    Reported start entries final.warnings.reverse where
  section_ := by
    rintro before name given after t rfl hname hgiven
    have hpasses : Passes (takeSection name given) (· = .notSection name) :=
      takeSection_not_section hname hgiven
    obtain ⟨_, rfl, hpassed⟩ := passed_of_split h (mergeSections_around before name given after)
      (mergeSections_concat before name given) hpasses (.mergeSections after)
    exact hpassed
  field := by
    rintro before name pre key given post after t type rfl hname htype hgiven
    refine passed_of_split h ?_ ?_
      (takeSection_passes hname (takeEntry_passes t name htype hgiven))
      ((Adds.takeSection name (.obj post)).bind (.mergeSections after))
    · rw [mergeSections_around, mergeSections_concat,
        show (key, given) :: post = [(key, given)] ++ post from rfl, takeSection_append hname,
        takeSection_append hname]
      simp only [bind_assoc]
    · rw [mergeSections_concat, mergeSections_concat, takeSection_append hname, bind_assoc]
  inner := by
    rintro before pre k inside key given beyond post after type rfl hk htype hgiven
    have hname : sectionTopics.get? "providers" = some .providers := rfl
    refine passed_of_split h ?_ ?_
      (takeSection_passes hname (takeEntry_block_passes hk "providers" htype hgiven))
      ((Adds.takeSection "providers" (.obj ((k, .obj beyond) :: post))).bind (.mergeSections after))
    · rw [mergeSections_around, mergeSections_concat,
        show (key, given) :: beyond = [(key, given)] ++ beyond from rfl, takeSection_append hname,
        takeSection_append hname, takeSection_block_append hk, takeSection_block_append hk]
      simp only [bind_assoc]
    · rw [mergeSections_concat, mergeSections_concat, takeSection_append hname,
        takeSection_append hname, takeSection_block_append hk]
      simp only [bind_assoc]

section Loading

variable {d : Disk} {env : Environment} {configPath envPath : Option String}
  {console console' : Console} {c : Config Float}

/-- What was said while a configuration was loaded is what was said while its file was merged. -/
theorem warned_of_load [EnvFile.Reader]
    (h : load d env configPath envPath console = (.ok c, console')) :
    ∃ merged, mergeFileIfThere d (pathOr d configPath fileName) { value := { initial d with
        path := some (pathOr d configPath fileName).toString } } = (.ok (), merged) ∧
      console' = console.warnAll (merged.warnings.reverse.map (·.message)) := by
  unfold load at h
  split at h
  · cases h
  dsimp only at h
  split at h
  · cases h
  rename_i hmerged
  split at h
  · cases h
    exact ⟨_, Prod.ext hmerged rfl, rfl⟩
  · cases h

/-- Every field of a loaded configuration has its type, and lists and tables hold texts exactly if
the file gives nothing else for them. Each value of the file that is of another type than its place
is reported and changes nothing. -/
theorem load_typed [EnvFile.Reader]
    (hload : load d env configPath envPath console = (.ok c, console')) :
    let file := pathOr d configPath fileName
    (∀ t : Topic, ∀ field ∈ t.values (t.of c), ∃ type,
      t.types.get? field.1 = some type ∧ type.has field.2 = true) ∧
    (∃ env', environment d env envPath = .ok env' ∧
      (WellTyped c ↔ TypedFile env' (sectionOf d file "providers"))) ∧
    ∃ said : List Warning, console' = console.warnAll (said.map (·.message)) ∧
      ∀ text entries, d.readText file = .ok text → Json.read text = .ok (.obj entries) →
        Reported ⟨{ initial d with path := some file.toString }, []⟩ entries said := by
  intro file
  obtain ⟨env', -, henv, -, -⟩ := loaded hload
  obtain ⟨merged, hmerged, rfl⟩ := warned_of_load hload
  refine ⟨fun t => t.has_of_mem_values (t.of c), ⟨env', henv, wellTyped_iff henv hload⟩, _, rfl, ?_⟩
  intro text entries htext hread
  rw [mergeFileIfThere_of_text (has_of_readText htext) htext hread] at hmerged
  exact reported hmerged

end Loading

/-- A configuration file with a list of no texts, and a number where a text is wanted. -/
def loose : Json :=
  .obj [("providers", .obj [("fallback", .arr [.arr [.str "x"]]), ("primary", .int 3)])]

/-- A disk with nothing but this file. -/
def looseDisk : Disk :=
  ⟨.folder [(fileName, .file loose.document.toUTF8 FileTree.fileMode)] FileTree.folderMode, []⟩

/-- What is loaded from it. -/
def looseConfig : Config Float :=
  { initial looseDisk with
    providers := { fallback := [.arr [.str "x"]] }
    path := some (looseDisk.current.child fileName).toString }

/-- What is said of it. -/
def looseConsole : Console :=
  Console.warn {} "Config key 'providers.primary' should be str, got int; keeping 'claude'"

theorem readable_loose : Readable depthLimit loose := by
  have hroom : depthLimit = depthLimit - 4 + 4 := by decide
  rw [hroom]
  refine .obj (by simp [Entries.names]) ?_
  simp only [List.forall_mem_cons, List.not_mem_nil, false_imp_iff, implies_true, and_true]
  refine .obj (by simp [Entries.names]) ?_
  simp only [List.forall_mem_cons, List.not_mem_nil, false_imp_iff, implies_true, and_true]
  refine ⟨.arr ?_, .int (by decide)⟩
  simp only [List.forall_mem_cons, List.not_mem_nil, false_imp_iff, implies_true, and_true]
  refine .arr ?_
  simp only [List.forall_mem_cons, List.not_mem_nil, false_imp_iff, implies_true, and_true]
  exact .str _ _

theorem load_loose : load looseDisk [] none none {} = (.ok looseConfig, looseConsole) := by
  have hwritten : Disk.writeText (looseDisk.current.child fileName) loose.document
      ⟨.folder [] FileTree.folderMode, []⟩ = (.ok (), looseDisk) := by rfl
  have hon : OwnMachineOn looseConfig := by
    rintro (h | h)
    · exact absurd h (by decide)
    · cases h
  rw [load, show environment looseDisk [] none = .ok [] by rfl]
  dsimp only
  rw [show pathOr looseDisk none fileName = looseDisk.current.child fileName from rfl,
    mergeFileIfThere_of_written readable_loose (Disk.unlocked_newFolder [] _) hwritten]
  have hmerged : mergeDocument (looseDisk.current.child fileName).toString loose
      ⟨{ initial looseDisk with
        path := some (looseDisk.current.child fileName).toString }, []⟩ =
      (.ok (), ⟨looseConfig, [.wrongKind "providers.primary" "str" "int" "'claude'"]⟩) := by rfl
  rw [hmerged]
  dsimp only
  rw [withEnvironment_of_unset (fun _ _ => rfl), withOwnMachine_of_on hon]
  rfl

/-- The list is taken as it is, and only the number is reported. -/
theorem load_typed_loose : load looseDisk [] none none {} = (.ok looseConfig, looseConsole) ∧
    ¬ WellTyped looseConfig ∧ ¬ TypedFile []
      (sectionOf looseDisk (looseDisk.current.child fileName) "providers") := by
  have hloose : ¬ WellTyped looseConfig := by
    intro h
    obtain ⟨s, hs⟩ := h.fallback _ List.mem_cons_self
    cases hs
  obtain ⟨_, ⟨env', henv, hiff⟩, _⟩ := load_typed load_loose
  obtain rfl : [] = env' := Except.ok.inj henv
  exact ⟨load_loose, hloose, mt hiff.mpr hloose⟩

end Cartridge.Config
