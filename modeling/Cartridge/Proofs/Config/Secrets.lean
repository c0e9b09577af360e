import Cartridge.Proofs.Config.Faults
import Cartridge.Proofs.Config.Precedence

/-!
# Configurations that differ in their keys

Two configurations that are the same but for the keys of providers stay so through all that makes a
configuration: files that are the same but for their objects with keys, environments that are the
same but for the variables with keys, and the same arguments. Both are accepted or none of them is,
and the same is written of both.

* `Field.Blind`, `mergeEntries_alike`: a field takes no account of what is hidden.
* `redacted`, `mergeDocument_alike`: a document without its keys makes the same of the rest.
* `SameButKeys`, `mergeFileIfThere_alike`: files that are the same but for their keys.
* `withEnvironment_alike`, `overridden_alike`: the environment and the arguments.
-/

namespace Cartridge

namespace Config

open Json Run CommandLine

variable {S T U : Type} {view : S → T}

/-! ## Mergings side by side -/

/-- Two mergings, of which a view of what is merged into is told. Warnings are not. -/
def MergeAlike (view : S → T) {α : Type} (x y : Merge S α) : Prop :=
  Run.Alike (fun m => view m.value) x y

namespace MergeAlike

variable {α β : Type}

theorem ofExcept (r : Except Fault α) : MergeAlike view (Run.ofExcept r) (Run.ofExcept r) :=
  Run.Alike.ofExcept r

theorem bind {x y : Merge S α} {f g : α → Merge S β} (hx : MergeAlike view x y)
    (hf : ∀ a, MergeAlike view (f a) (g a)) : MergeAlike view (x >>= f) (y >>= g) :=
  Run.Alike.bind hx hf

theorem set {f : S → S} (h : ∀ s s', view s = view s' → view (f s) = view (f s')) :
    MergeAlike view (Merge.set f) (Merge.set f) := .update fun m m' => h m.value m'.value

theorem warn (w w' : Warning) : MergeAlike view (Merge.warn w) (Merge.warn w') :=
  .update fun _ _ h => h

/-- The value that is kept may be told in a warning. -/
theorem keep (key wanted : String) (given : Json) (kept : S → String) :
    MergeAlike view (do Merge.keep key wanted given (kept (← Merge.value)))
      (do Merge.keep key wanted given (kept (← Merge.value))) := fun _ _ h => ⟨rfl, h⟩

/-- What is merged into can be looked at if the view shows all of it. -/
theorem value : MergeAlike id (Merge.value (S := S)) Merge.value :=
  fun _ _ h => ⟨congrArg Except.ok h, h⟩

theorem within (look : U → U) {part : S → U} {put : S → U → S} {x y : Merge U Unit}
    (hpart : ∀ s s', view s = view s' → look (part s) = look (part s'))
    (hput : ∀ s s' u u', view s = view s' → look u = look u' → view (put s u) = view (put s' u'))
    (h : MergeAlike look x y) :
    MergeAlike view (Merge.within part put x) (Merge.within part put y) := by
  intro m m' hview
  obtain ⟨hresult, hafter⟩ := h ⟨part m.value, m.warnings⟩ ⟨part m'.value, m'.warnings⟩
    (hpart _ _ hview)
  exact ⟨hresult, hput _ _ _ _ hview hafter⟩

end MergeAlike

/-! ## Fields -/

namespace Field

variable {name : String}

/-- What the field makes of a value does not depend on what a view hides. -/
def Even (view : S → T) (f : Field S) : Prop :=
  ∀ label given, MergeAlike view (f.take label given) (f.take label given)

/-- The field does the same if the value is changed. -/
def Blind (view : S → T) (change : String → Json → Json) (f : Field S) : Prop :=
  ∀ key, f.isKey key = true → ∀ label given,
    MergeAlike view (f.take label given) (f.take label (change key given))

theorem Even.blind {f : Field S} (h : f.Even view) {change : String → Json → Json}
    (hchange : ∀ key, f.isKey key = true → ∀ given, change key given = given) :
    f.Blind view change := by
  intro key hkey label given
  rw [hchange key hkey]
  exact h label given

theorem text_even {get : S → String} {put : S → String → S}
    (h : ∀ x s s', view s = view s' → view (put s x) = view (put s' x)) :
    (Field.text name get put).Even view := by
  intro label given
  cases given with
  | str x => exact .set (h x)
  | _ => exact .keep _ _ _ _

theorem flag_even {get : S → Bool} {put : S → Bool → S}
    (h : ∀ x s s', view s = view s' → view (put s x) = view (put s' x)) :
    (Field.flag name get put).Even view := by
  intro label given
  cases given with
  | bool x => exact .set (h x)
  | _ => exact .keep _ _ _ _

theorem whole_even {get : S → Int} {put : S → Int → S}
    (h : ∀ x s s', view s = view s' → view (put s x) = view (put s' x)) :
    (Field.whole name get put).Even view := by
  intro label given
  cases given with
  | int n => exact .set (h n)
  | _ => exact .keep _ _ _ _

theorem takeReal_even {get : S → Float} {put : S → Float → S}
    (h : ∀ x s s', view s = view s' → view (put s x) = view (put s' x)) (label : String)
    (given : Json) :
    MergeAlike view (takeReal get put label given) (takeReal get put label given) := by
  cases given with
  | int n => exact .bind (.ofExcept _) fun x => .set (h x)
  | float x => exact .set (h x)
  | _ => exact .keep _ _ _ _

theorem real_even {get : S → Float} {put : S → Float → S}
    (h : ∀ x s s', view s = view s' → view (put s x) = view (put s' x)) :
    (Field.real name get put).Even view := takeReal_even h

theorem items_even {get : S → List Json} {put : S → List Json → S}
    (h : ∀ x s s', view s = view s' → view (put s x) = view (put s' x)) :
    (Field.items name get put).Even view := by
  intro label given
  cases given with
  | arr new => exact .set (h new)
  | _ => exact .keep _ _ _ _

theorem table_even {get : S → Entries Json} {put : S → Entries Json → S}
    (h : ∀ new s s', view s = view s' →
      view (put s ((get s).putAll new)) = view (put s' ((get s').putAll new))) :
    (Field.table name get put).Even view := by
  intro label given
  cases given with
  | obj new => exact .set (h new)
  | _ => exact .keep _ _ _ _

end Field

/-! ## Entries -/

/-- Entries with each value changed under its key. -/
def revised (change : String → Json → Json) (entries : Entries Json) : Entries Json :=
  entries.map fun e => (e.1, change e.1 e.2)

variable {fields : List (Field S)} {change : String → Json → Json}

theorem takeEntry_alike (h : ∀ f ∈ fields, f.Blind view change) (label key : String)
    (given : Json) : MergeAlike view (takeEntry fields label key given)
      (takeEntry fields label key (change key given)) := by
  unfold takeEntry
  cases hfound : fields.find? (·.isKey key) with
  | none => exact .warn _ _
  | some f =>
    have hkey : f.isKey key = true := by simpa using List.find?_some hfound
    exact h f (List.mem_of_find?_eq_some hfound) key hkey _ _

/-- Entries make the same of what a view shows if values are changed that the fields are blind
to. -/
theorem mergeEntries_alike (h : ∀ f ∈ fields, f.Blind view change) (label : String)
    (entries : Entries Json) : MergeAlike view (mergeEntries fields label entries)
      (mergeEntries fields label (revised change entries)) := by
  induction entries with
  | nil => exact fun _ _ hview => ⟨rfl, hview⟩
  | cons entry rest ih =>
    obtain ⟨key, given⟩ := entry
    show MergeAlike view _
      (mergeEntries fields label ((key, change key given) :: revised change rest))
    rw [mergeEntries_cons, mergeEntries_cons]
    exact .bind (takeEntry_alike h label key given) fun _ => ih

theorem mergeEntries_even (h : ∀ f ∈ fields, f.Even view) (label : String)
    (entries : Entries Json) :
    MergeAlike view (mergeEntries fields label entries) (mergeEntries fields label entries) := by
  have hblind : ∀ f ∈ fields, f.Blind view fun _ given => given :=
    fun f hf => (h f hf).blind fun _ _ _ => rfl
  have hsame : revised (fun _ given => given) entries = entries := List.map_id entries
  have halike := mergeEntries_alike hblind label entries
  rwa [hsame] at halike

/-! ## The sections -/

theorem ownMachineFields_even : ∀ f ∈ ownMachineFields, f.Even id := by
  intro f hf
  simp only [ownMachineFields, List.mem_cons, List.not_mem_nil, or_false] at hf
  rcases hf with rfl | rfl | rfl | rfl | rfl
  · exact Field.text_even fun x s s' h => congrArg ({ · with endpoint := x }) h
  · exact Field.text_even fun x s s' h => congrArg ({ · with model := x }) h
  · intro label given
    refine .bind .value fun current => ?_
    cases current.temperature with
    | real x =>
      exact Field.takeReal_even (fun y s s' h => congrArg ({ · with temperature := .real y }) h) _ _
    | whole n =>
      cases given with
      | int m => exact .set fun s s' h => congrArg ({ · with temperature := .whole m }) h
      | _ => exact .warn _ _
  · exact Field.whole_even fun x s s' h => congrArg ({ · with maxTokens := x }) h
  · exact Field.flag_even fun x s s' h => congrArg ({ · with enabled := x }) h

theorem takeLifetime_alike (scaled : Int → Except Fault (Number Float)) (scaledReal : Float → Float)
    (label : String) (given : Json) : MergeAlike id (takeLifetime scaled scaledReal label given)
      (takeLifetime scaled scaledReal label given) := by
  have hset (l : Number Float) : MergeAlike id
      (Merge.set fun s : Caching Float => { s with lifetime := l })
      (Merge.set fun s => { s with lifetime := l }) :=
    .set fun s s' h => congrArg ({ · with lifetime := l }) h
  refine .bind .value fun current => ?_
  split
  · exact .bind (.ofExcept _) hset
  · exact .warn _ _
  · refine .bind (.ofExcept _) fun l => ?_
    cases l with
    | real x => exact hset _
    | whole k => exact .bind (.ofExcept _) fun x => hset _
  · exact hset _
  · exact .warn _ _

theorem cachingFields_even : ∀ f ∈ cachingFields, f.Even id := by
  intro f hf
  simp only [cachingFields, List.mem_cons, List.not_mem_nil, or_false] at hf
  rcases hf with rfl | rfl | rfl | rfl
  · exact takeLifetime_alike _ _
  · exact Field.flag_even fun x s s' h => congrArg ({ · with enabled := x }) h
  · exact Field.whole_even fun x s s' h => congrArg ({ · with maxSize := x }) h
  · exact takeLifetime_alike _ _

theorem budgetFields_even : ∀ f ∈ budgetFields, f.Even id := by
  intro f hf
  simp only [budgetFields, List.mem_cons, List.not_mem_nil, or_false] at hf
  rcases hf with rfl | rfl | rfl
  · exact Field.real_even fun x s s' h => congrArg ({ · with perConversion := x }) h
  · exact Field.real_even fun x s s' h => congrArg ({ · with perDay := x }) h
  · exact Field.flag_even fun x s s' h => congrArg ({ · with preferLocal := x }) h

theorem qualityFields_even : ∀ f ∈ qualityFields, f.Even id := by
  intro f hf
  simp only [qualityFields, List.mem_cons, List.not_mem_nil, or_false] at hf
  rcases hf with rfl | rfl | rfl
  · exact Field.real_even fun x s s' h => congrArg ({ · with minScore := x }) h
  · exact Field.flag_even fun x s s' h => congrArg ({ · with review := x }) h
  · exact Field.flag_even fun x s s' h => congrArg ({ · with learning := x }) h

theorem projectFields_even : ∀ f ∈ projectFields, f.Even id := by
  intro f hf
  simp only [projectFields, List.mem_cons, List.not_mem_nil, or_false] at hf
  rcases hf with rfl | rfl | rfl
  · exact Field.whole_even fun x s s' h => congrArg ({ · with chunkSize := x }) h
  · exact Field.whole_even fun x s s' h => congrArg ({ · with maxFileSize := x }) h
  · exact Field.flag_even fun x s s' h => congrArg ({ · with modular := x }) h

theorem toolFields_even : ∀ f ∈ toolFields, f.Even id := by
  intro f hf
  simp only [toolFields, List.mem_cons, List.not_mem_nil, or_false] at hf
  rcases hf with rfl | rfl | rfl | rfl | rfl
  · exact Field.text_even fun x s s' h => congrArg ({ · with libraryPath := x }) h
  · exact Field.text_even fun x s s' h => congrArg ({ · with translator := x }) h
  · exact Field.text_even fun x s s' h => congrArg ({ · with ts2cCommand := x }) h
  · exact Field.text_even fun x s s' h => congrArg ({ · with libraryUrl := x }) h
  · exact Field.real_even fun x s s' h => congrArg ({ · with timeout := x }) h

/-- The section about providers without their keys. -/
def Providers.withoutKeys (p : Providers) : Providers := { p with apiKeys := [] }

/-- A configuration without the keys of providers. -/
def withoutKeys (c : Config Float) : Config Float :=
  { c with providers := c.providers.withoutKeys }

/-- An object without its entries. -/
def emptied : Json → Json
  | .obj _ => .obj []
  | other => other

/-- Hides the keys of providers in the section about them. -/
def hideKeys (key : String) (given : Json) : Json :=
  if fieldName key = "api_keys" then emptied given else given

/-- A field by another name than that of the keys. -/
theorem blind_of_named {take : String → Json → Merge Providers Unit} {name : String}
    (hname : name ≠ "api_keys") (h : (Field.named name take).Even Providers.withoutKeys) :
    (Field.named name take).Blind Providers.withoutKeys hideKeys := by
  refine h.blind fun key hkey given => ?_
  have hfield : fieldName key = name := (Field.isNamed name take key).mp hkey
  rw [hideKeys, hfield, if_neg hname]

/-- The keys may be any. -/
theorem apiKeys_blind :
    (Field.table "api_keys" (·.apiKeys) ({ · with apiKeys := · })).Blind Providers.withoutKeys
      hideKeys := by
  intro key hkey label given
  have hfield : fieldName key = "api_keys" := (Field.isNamed _ _ key).mp hkey
  rw [hideKeys, if_pos hfield]
  cases given with
  | obj new => exact fun m m' h => ⟨rfl, h⟩
  | _ => exact .keep _ _ _ _

theorem providerFields_blind :
    ∀ f ∈ providerFields, f.Blind Providers.withoutKeys hideKeys := by
  intro f hf
  simp only [providerFields, List.mem_cons, List.not_mem_nil, or_false] at hf
  rcases hf with rfl | rfl | rfl | rfl | rfl
  · refine blind_of_named (by decide) (Field.text_even fun x s s' h => ?_)
    exact congrArg ({ · with primary := x }) h
  · refine blind_of_named (by decide) (Field.items_even fun x s s' h => ?_)
    exact congrArg ({ · with fallback := x }) h
  · exact apiKeys_blind
  · have heven : (Field.table "models" Providers.models ({ · with models := · })).Even
        Providers.withoutKeys := by
      refine Field.table_even fun new s s' h => ?_
      exact congrArg (fun p : Providers => { p with models := p.models.putAll new }) h
    exact blind_of_named (by decide) heven
  · refine blind_of_named (by decide) fun label given => ?_
    cases given with
    | obj entries =>
      refine .within id (fun s s' h => (congrArg Providers.ownMachine h :)) ?_
        (mergeEntries_even ownMachineFields_even _ _)
      rintro s s' u _ h rfl
      exact congrArg ({ · with ownMachine := u }) h
    | _ => exact .keep _ _ _ _

/-! ## The document -/

/-- A value without the keys of providers, where it stands under the name of a section. -/
def hideSection (name : String) (given : Json) : Json :=
  match given with
  | .obj entries => .obj (if name = "providers" then revised hideKeys entries else entries)
  | other => other

/-- A document without the keys of providers. -/
def redacted : Json → Json
  | .obj entries => .obj (revised hideSection entries)
  | other => other

/-- Entries that stand under the name of a section make the same of it without keys. -/
theorem sections_alike {p : String × (Entries Json → Merge (Config Float) Unit)}
    (hp : p ∈ sections) (entries : Entries Json) : MergeAlike withoutKeys (p.2 entries)
      (p.2 (if p.1 = "providers" then revised hideKeys entries else entries)) := by
  simp only [sections, List.mem_cons, List.not_mem_nil, or_false] at hp
  rcases hp with rfl | rfl | rfl | rfl | rfl | rfl
  · refine .within Providers.withoutKeys (fun c c' h => congrArg Config.providers h) ?_
      (mergeEntries_alike providerFields_blind _ _)
    intro c c' p p' h hp
    exact congrArg₂ (fun (c : Config Float) p => { c with providers := p }) h hp
  · refine .within id (fun c c' h => (congrArg Config.caching h :)) ?_
      (mergeEntries_even cachingFields_even _ _)
    rintro c c' part _ h rfl
    exact congrArg ({ · with caching := part }) h
  · refine .within id (fun c c' h => (congrArg Config.budget h :)) ?_
      (mergeEntries_even budgetFields_even _ _)
    rintro c c' part _ h rfl
    exact congrArg ({ · with budget := part }) h
  · refine .within id (fun c c' h => (congrArg Config.quality h :)) ?_
      (mergeEntries_even qualityFields_even _ _)
    rintro c c' part _ h rfl
    exact congrArg ({ · with quality := part }) h
  · refine .within id (fun c c' h => (congrArg Config.project h :)) ?_
      (mergeEntries_even projectFields_even _ _)
    rintro c c' part _ h rfl
    exact congrArg ({ · with project := part }) h
  · refine .within id (fun c c' h => (congrArg Config.tools h :)) ?_
      (mergeEntries_even toolFields_even _ _)
    rintro c c' part _ h rfl
    exact congrArg ({ · with tools := part }) h

theorem takeSection_alike (name : String) (given : Json) : MergeAlike withoutKeys
    (takeSection name given) (takeSection name (hideSection name given)) := by
  unfold takeSection
  cases hfound : sections.lookup name with
  | none => exact .warn _ _
  | some merge =>
    cases given with
    | obj entries => exact sections_alike (Entries.mem_of_get? hfound) entries
    | _ => exact .warn _ _

theorem mergeSections_alike (entries : Entries Json) : MergeAlike withoutKeys
    (mergeSections entries) (mergeSections (revised hideSection entries)) := by
  induction entries with
  | nil => exact fun _ _ hview => ⟨rfl, hview⟩
  | cons entry rest ih =>
    obtain ⟨name, given⟩ := entry
    show MergeAlike withoutKeys _
      (mergeSections ((name, hideSection name given) :: revised hideSection rest))
    rw [mergeSections_step, mergeSections_step]
    exact .bind (takeSection_alike name given) fun _ => ih

/-- A document makes the same of a configuration without keys if its keys are hidden. -/
theorem mergeDocument_redacted (path : String) (j : Json) :
    MergeAlike withoutKeys (mergeDocument path j) (mergeDocument path (redacted j)) := by
  cases j with
  | obj entries => exact mergeSections_alike entries
  | _ => exact .warn _ _

/-- Documents that are the same but for their keys make the same of a configuration without keys. -/
theorem mergeDocument_alike (path : String) {j j' : Json} (h : redacted j = redacted j') :
    MergeAlike withoutKeys (mergeDocument path j) (mergeDocument path j') := by
  have hleft := mergeDocument_redacted path j
  rw [h] at hleft
  exact hleft.trans (mergeDocument_redacted path j').symm

/-! ## The file -/

/-- Two disks have the same at a path, or texts there that are documents and differ only in the keys
of providers. -/
def SameButKeys (d d' : Disk) (file : Path) : Prop :=
  d.entry file = d'.entry file ∨
    ∃ text text' j j', d.readText file = .ok text ∧ d'.readText file = .ok text' ∧
      Json.read text = .ok j ∧ Json.read text' = .ok j' ∧ redacted j = redacted j'

theorem mergeFile_even (d : Disk) (file : Path) :
    MergeAlike withoutKeys (mergeFile d file) (mergeFile d file) := by
  unfold mergeFile
  dsimp only
  cases d.readText file with
  | error e =>
    dsimp only
    by_cases hrefusal : isRefusal e = true
    · rw [if_pos hrefusal]
      exact .warn _ _
    · rw [if_neg hrefusal]
      exact fun _ _ h => ⟨rfl, h⟩
  | ok text =>
    cases hread : Json.read text with
    | ok j =>
      dsimp only
      rw [hread]
      exact mergeDocument_alike _ rfl
    | error e =>
      dsimp only
      rw [hread]
      cases e with
      | malformed => exact .warn _ _
      | oversized | tooDeep => exact fun _ _ h => ⟨rfl, h⟩

theorem mergeFileIfThere_alike {d d' : Disk} {file : Path} (h : SameButKeys d d' file) :
    MergeAlike withoutKeys (mergeFileIfThere d file) (mergeFileIfThere d' file) := by
  obtain hentry | ⟨text, text', j, j', htext, htext', hread, hread', hsame⟩ := h
  · have hhas : d'.has file = d.has file := by
      rw [Disk.has, Disk.has, Disk.holds, Disk.holds, hentry]
    have hfile : mergeFile d' file = mergeFile d file := by
      unfold mergeFile Disk.readText
      rw [hentry]
    unfold mergeFileIfThere
    rw [hhas, hfile]
    refine .bind (.ofExcept _) fun isThere => ?_
    cases isThere with
    | true => exact mergeFile_even d file
    | false => exact fun _ _ hview => ⟨rfl, hview⟩
  · rw [mergeFileIfThere_of_text (has_of_readText htext) htext hread,
      mergeFileIfThere_of_text (has_of_readText htext') htext' hread']
    exact mergeDocument_alike _ hsame

/-! ## The environment -/

/-- The variables for keys of providers. -/
def Variable.keys : List String :=
  [Provider.Kind.claude, .openAI, .openRouter].filterMap Provider.Kind.keyVariable?

/-- Two environments decide on the same things, and on all but keys they decide alike. -/
def AlikeButKeys (env env' : Environment) : Prop :=
  ∀ name ∈ Variable.names, name ∉ Variable.keys → value? env name = value? env' name

theorem number?_congr {env env' : Environment} {name : String}
    (h : value? env name = value? env' name) : number? env name = number? env' name := by
  rw [number?, number?, h]

theorem withOwnMachine_withoutKeys (c : Config Float) :
    withoutKeys (withOwnMachine c) = withOwnMachine (withoutKeys c) := by
  unfold withOwnMachine
  by_cases h : (c.providers.primary = "local" || c.budget.preferLocal) = true
  · rw [if_pos h]
    exact (if_pos h).symm
  · rw [if_neg h]
    exact (if_neg h).symm

/-- The keys do not matter to what the environment makes of the rest. -/
theorem withEnvironment_withoutKeys (env : Environment) (c : Config Float) :
    (withEnvironment env c).map withoutKeys =
      (withEnvironment env (withoutKeys c)).map withoutKeys := by
  unfold withEnvironment
  dsimp only
  split
  · refine congrArg Except.ok ?_
    rw [withOwnMachine_withoutKeys, withOwnMachine_withoutKeys]
    rfl
  · rfl

theorem withEnvironment_congr {env env' : Environment} (h : AlikeButKeys env env')
    (c : Config Float) :
    (withEnvironment env c).map withoutKeys = (withEnvironment env' c).map withoutKeys := by
  have hperDay : number? env Variable.dailyBudget = number? env' Variable.dailyBudget :=
    number?_congr (h _ (by decide) (by decide))
  have hperConversion : number? env Variable.maxCost = number? env' Variable.maxCost :=
    number?_congr (h _ (by decide) (by decide))
  have hproviders : (c.providers.from env).withoutKeys = (c.providers.from env').withoutKeys := by
    unfold Providers.from ownMachineFrom
    rw [h Variable.provider (by decide) (by decide), h Variable.endpoint (by decide) (by decide)]
    rfl
  have hcaching : c.caching.from env = c.caching.from env' := by
    unfold Caching.from
    rw [h Variable.disableCache (by decide) (by decide)]
  have htools : c.tools.from env = c.tools.from env' := by
    unfold Tools.from
    rw [h Variable.libraryPath (by decide) (by decide),
      h Variable.transpiler (by decide) (by decide)]
  unfold withEnvironment
  dsimp only
  rw [hperDay, hperConversion, hcaching, htools]
  split
  · refine congrArg Except.ok ?_
    rw [withOwnMachine_withoutKeys, withOwnMachine_withoutKeys]
    unfold withoutKeys
    rw [hproviders]
  · rfl

/-- Environments that decide alike on all but keys make the same of a configuration without keys. -/
theorem withEnvironment_alike {env env' : Environment} (henv : AlikeButKeys env env')
    {c c' : Config Float} (hc : withoutKeys c = withoutKeys c') :
    (withEnvironment env c).map withoutKeys = (withEnvironment env' c').map withoutKeys := by
  rw [withEnvironment_withoutKeys, hc, ← withEnvironment_withoutKeys]
  exact withEnvironment_congr henv c'

/-! ## The arguments -/

theorem overridden_withoutKeys (a : Arguments) (c : Config Float) :
    withoutKeys (a.overridden c) = a.overridden (withoutKeys c) := by
  unfold Arguments.overridden
  dsimp only
  cases a.provider.filter (· ≠ "") <;> cases a.transpiler <;> cases a.noCache <;> rfl

/-- What is written, and where, does not depend on the keys. -/
theorem written_alike {c c' : Config Float} (h : withoutKeys c = withoutKeys c') :
    c.toJson = c'.toJson ∧ c.path = c'.path :=
  ⟨(congrArg toJson h :), (congrArg Config.path h :)⟩

end Config

end Cartridge
