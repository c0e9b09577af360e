import Cartridge.Config.File
import Cartridge.Proofs.Json.Readable
import Cartridge.Proofs.Run

/-!
# Configurations that can be stored

What a configuration takes from a document can be written into a document again: its whole numbers
are not too long, its lists and tables do not lie too deep, and no table has a key twice. Merging
keeps a configuration so, entry by entry, and the environment does not touch such values.

* `Storable`: what holds of every configuration that was loaded.
* `Field.Keeps`: an entry that was read from a document keeps an invariant of its section.
* `mergeSections_keeps`: the merging of a document keeps a configuration storable.
* `storable_of_load`: what is loaded is storable.
* `readable_toJson`: what is written of a storable configuration is read again.
-/

namespace Cartridge.Config

open Json Run
open Text (Short)

/-- How many lists and objects may lie within one another in a list or table of a section. -/
def entryRoom : Nat := depthLimit - 3

/-- The settings of the user's own machine can be stored. -/
structure OwnMachineStorable (s : Provider.LocalService) : Prop where
  temperature : ∃ x, s.temperature = .real x
  maxTokens : Short s.maxTokens

/-- The section about providers can be stored. -/
structure ProvidersStorable (p : Providers) : Prop where
  ownMachine : OwnMachineStorable p.ownMachine
  fallback : ∀ v ∈ p.fallback, Readable entryRoom v
  keys : p.models.names.Nodup
  models : ∀ e ∈ p.models, Readable entryRoom e.2

/-- The section about caching can be stored. -/
structure CachingStorable (c : Caching Float) : Prop where
  maxSize : Short c.maxSize
  lifetime : ∀ n, c.lifetime = .whole n → Short n

/-- The section about projects can be stored. -/
structure ProjectStorable (r : ProjectRules) : Prop where
  chunkSize : Short r.chunkSize
  maxFileSize : Short r.maxFileSize

/-- A configuration can be stored. -/
structure Storable (c : Config Float) : Prop where
  providers : ProvidersStorable c.providers
  caching : CachingStorable c.caching
  project : ProjectStorable c.project

/-! ## Fields -/

variable {S T : Type} {room : Nat} {I : S → Prop}

/-- A merging keeps an invariant of what is merged into. -/
def MergeKeeps (I : S → Prop) {α : Type} (x : Merge S α) : Prop := Preserves (fun m => I m.value) x

namespace MergeKeeps

theorem set {f : S → S} (h : ∀ s, I s → I (f s)) : MergeKeeps I (Merge.set f) := fun _ hm => h _ hm

theorem warn (w : Warning) : MergeKeeps I (Merge.warn w) := fun _ hm => hm

theorem keep (key wanted : String) (given : Json) (kept : S → String) :
    MergeKeeps I (do Merge.keep key wanted given (kept (← Merge.value))) := fun _ hm => hm

theorem ofExcept {α : Type} (r : Except Fault α) : MergeKeeps I (Run.ofExcept r) := fun _ hm => hm

theorem bind {α β : Type} {x : Merge S α} {f : α → Merge S β} (hx : MergeKeeps I x)
    (hf : ∀ a, MergeKeeps I (f a)) : MergeKeeps I (x >>= f) := Preserves.bind hx hf

theorem within {J : T → Prop} {view : S → T} {put : S → T → S} {x : Merge T Unit}
    (hview : ∀ s, I s → J (view s)) (hput : ∀ s t, I s → J t → I (put s t))
    (hx : MergeKeeps J x) : MergeKeeps I (Merge.within view put x) :=
  fun m hm => hput _ _ hm (hx ⟨view m.value, m.warnings⟩ (hview _ hm))

end MergeKeeps

namespace Field

/-- An entry that was read from a document keeps an invariant of the section. -/
def Keeps (room : Nat) (I : S → Prop) (f : Field S) : Prop :=
  ∀ key given, Readable room given → MergeKeeps I (f.take key given)

variable {name : String}

theorem keeps_text {get : S → String} {put : S → String → S} (h : ∀ s x, I s → I (put s x)) :
    (Field.text name get put).Keeps room I := by
  intro key given hgiven
  cases given with
  | str x => exact .set fun s hs => h s x hs
  | _ => exact .keep _ _ _ _

theorem keeps_flag {get : S → Bool} {put : S → Bool → S} (h : ∀ s x, I s → I (put s x)) :
    (Field.flag name get put).Keeps room I := by
  intro key given hgiven
  cases given with
  | bool x => exact .set fun s hs => h s x hs
  | _ => exact .keep _ _ _ _

theorem keeps_whole {get : S → Int} {put : S → Int → S}
    (h : ∀ s n, Short n → I s → I (put s n)) : (Field.whole name get put).Keeps room I := by
  intro key given hgiven
  cases given with
  | int n =>
    cases hgiven with
    | int hn => exact .set fun s hs => h s n hn hs
  | _ => exact .keep _ _ _ _

theorem takeReal_keeps {get : S → Float} {put : S → Float → S} (h : ∀ s x, I s → I (put s x))
    (key : String) (given : Json) : MergeKeeps I (takeReal get put key given) := by
  cases given with
  | int n => exact .bind (.ofExcept _) fun x => .set fun s hs => h s x hs
  | float x => exact .set fun s hs => h s x hs
  | _ => exact .keep _ _ _ _

theorem keeps_items {get : S → List Json} {put : S → List Json → S}
    (h : ∀ s items, (∀ v ∈ items, Readable room v) → I s → I (put s items)) :
    (Field.items name get put).Keeps (room + 1) I := by
  intro key given hgiven
  cases given with
  | arr items =>
    cases hgiven with
    | arr hitems => exact .set fun s hs => h s items hitems hs
  | _ => exact .keep _ _ _ _

theorem keeps_table {get : S → Entries Json} {put : S → Entries Json → S}
    (h : ∀ s entries, (∀ e ∈ entries, Readable room e.2) → I s →
      I (put s ((get s).putAll entries))) :
    (Field.table name get put).Keeps (room + 1) I := by
  intro key given hgiven
  cases given with
  | obj entries =>
    cases hgiven with
    | obj _ hentries => exact .set fun s hs => h s entries hentries hs
  | _ => exact .keep _ _ _ _

end Field

theorem mergeEntries_keeps {fields : List (Field S)} (hfields : ∀ f ∈ fields, f.Keeps room I)
    (label : String) {entries : Entries Json} (hentries : ∀ e ∈ entries, Readable room e.2) :
    MergeKeeps I (mergeEntries fields label entries) := by
  induction entries with
  | nil => exact fun _ hm => hm
  | cons entry rest ih =>
    obtain ⟨key, given⟩ := entry
    have hrest := ih fun e he => hentries e (List.mem_cons_of_mem _ he)
    rw [mergeEntries]
    cases hfind : fields.find? (·.isKey key) with
    | none => exact .bind (.warn _) fun _ => hrest
    | some f =>
      exact .bind (hfields f (List.mem_of_find?_eq_some hfind) _ _ (hentries _ List.mem_cons_self))
        fun _ => hrest

/-! ## Sections -/

theorem ownMachineFields_keep (room : Nat) :
    ∀ f ∈ ownMachineFields, f.Keeps room OwnMachineStorable := by
  intro f hf
  simp only [ownMachineFields, List.mem_cons, List.not_mem_nil, or_false] at hf
  rcases hf with rfl | rfl | rfl | rfl | rfl
  · exact Field.keeps_text fun s _ hs => ⟨hs.temperature, hs.maxTokens⟩
  · exact Field.keeps_text fun s _ hs => ⟨hs.temperature, hs.maxTokens⟩
  · -- a temperature that is no whole number stays so
    rintro key given - ⟨⟨endpoint, model, temperature, maxTokens, enabled⟩, warnings⟩ hm
    obtain ⟨x, hx⟩ := hm.temperature
    cases hx
    exact Field.takeReal_keeps (fun s y hs => ⟨⟨y, rfl⟩, hs.maxTokens⟩) key given _ hm
  · exact Field.keeps_whole fun s _ hn hs => ⟨hs.temperature, hn⟩
  · exact Field.keeps_flag fun s _ hs => ⟨hs.temperature, hs.maxTokens⟩

theorem providerFields_keep :
    ∀ f ∈ providerFields, f.Keeps (entryRoom + 1) ProvidersStorable := by
  intro f hf
  simp only [providerFields, List.mem_cons, List.not_mem_nil, or_false] at hf
  rcases hf with rfl | rfl | rfl | rfl | rfl
  · exact Field.keeps_text fun s _ hs => ⟨hs.ownMachine, hs.fallback, hs.keys, hs.models⟩
  · exact Field.keeps_items fun s _ hitems hs => ⟨hs.ownMachine, hitems, hs.keys, hs.models⟩
  · exact Field.keeps_table fun s _ _ hs => ⟨hs.ownMachine, hs.fallback, hs.keys, hs.models⟩
  · exact Field.keeps_table fun s entries hentries hs => ⟨hs.ownMachine, hs.fallback,
      Entries.nodup_putAll hs.keys entries, Entries.forall_putAll hs.models hentries⟩
  · intro key given hgiven
    cases given with
    | obj entries =>
      cases hgiven with
      | obj _ hentries =>
        exact .within (J := OwnMachineStorable) (fun s hs => hs.ownMachine)
          (fun s t hs ht => ⟨ht, hs.fallback, hs.keys, hs.models⟩)
          (mergeEntries_keeps (ownMachineFields_keep _) key hentries)
    | _ => exact .keep _ _ _ _

theorem takeLifetime_keeps {scaled : Int → Except Fault (Number Float)} {scaledReal : Float → Float}
    (hscaled : ∀ n m, Short n → scaled n = .ok (.whole m) → Short m) (key : String) {given : Json}
    (hgiven : Readable room given) :
    MergeKeeps CachingStorable (takeLifetime scaled scaledReal key given) := by
  refine .bind (fun _ hm => hm) fun current => ?_
  split
  · rename_i n _
    cases hgiven with
    | int hn =>
      intro m hm
      rw [bind_apply, Run.ofExcept]
      cases hl : scaled n with
      | error e => exact hm
      | ok l => exact ⟨hm.maxSize, fun k hk => hscaled n k hn (by rw [hl]; exact congrArg _ hk)⟩
  · exact .warn _
  · refine .bind (.ofExcept _) fun l => ?_
    have hreal {x : Float} : MergeKeeps CachingStorable
        (Merge.set fun s => { s with lifetime := .real x }) :=
      .set fun s hs => ⟨hs.maxSize, fun k hk => by cases hk⟩
    cases l with
    | real x => exact hreal
    | whole k => exact .bind (.ofExcept _) fun x => hreal
  · exact .set fun s hs => ⟨hs.maxSize, fun k hk => by cases hk⟩
  · exact .warn _

theorem cachingFields_keep (room : Nat) : ∀ f ∈ cachingFields, f.Keeps room CachingStorable := by
  intro f hf
  simp only [cachingFields, List.mem_cons, List.not_mem_nil, or_false] at hf
  rcases hf with rfl | rfl | rfl | rfl
  · intro key given hgiven
    refine takeLifetime_keeps (fun n m _ h => ?_) key hgiven
    cases hreal : Merge.real n 1000 with
    | error e =>
      rw [hreal] at h
      cases h
    | ok x =>
      rw [hreal] at h
      cases h
  · exact Field.keeps_flag fun s _ hs => ⟨hs.maxSize, hs.lifetime⟩
  · exact Field.keeps_whole fun s _ hn hs => ⟨hn, hs.lifetime⟩
  · intro key given hgiven
    refine takeLifetime_keeps (fun n m hn h => ?_) key hgiven
    cases h
    exact hn

theorem projectFields_keep (room : Nat) : ∀ f ∈ projectFields, f.Keeps room ProjectStorable := by
  intro f hf
  simp only [projectFields, List.mem_cons, List.not_mem_nil, or_false] at hf
  rcases hf with rfl | rfl | rfl
  · exact Field.keeps_whole fun s _ hn hs => ⟨hn, hs.maxFileSize⟩
  · exact Field.keeps_whole fun s _ hn hs => ⟨hs.chunkSize, hn⟩
  · exact Field.keeps_flag fun s _ hs => ⟨hs.chunkSize, hs.maxFileSize⟩

/-! ## Documents -/

/-- The entries of each section keep a configuration storable. -/
theorem sections_keep {p : String × (Entries Json → Merge (Config Float) Unit)}
    (hp : p ∈ sections) {entries : Entries Json}
    (hentries : ∀ e ∈ entries, Readable (entryRoom + 1) e.2) :
    MergeKeeps Storable (p.2 entries) := by
  simp only [sections, List.mem_cons, List.not_mem_nil, or_false] at hp
  rcases hp with rfl | rfl | rfl | rfl | rfl | rfl
  · exact .within (J := ProvidersStorable) (fun c hc => hc.providers)
      (fun c t hc ht => ⟨ht, hc.caching, hc.project⟩)
      (mergeEntries_keeps providerFields_keep _ hentries)
  · exact .within (J := CachingStorable) (fun c hc => hc.caching)
      (fun c t hc ht => ⟨hc.providers, ht, hc.project⟩)
      (mergeEntries_keeps (cachingFields_keep _) _ hentries)
  · exact fun m hm => ⟨hm.providers, hm.caching, hm.project⟩
  · exact fun m hm => ⟨hm.providers, hm.caching, hm.project⟩
  · exact .within (J := ProjectStorable) (fun c hc => hc.project)
      (fun c t hc ht => ⟨hc.providers, hc.caching, ht⟩)
      (mergeEntries_keeps (projectFields_keep _) _ hentries)
  · exact fun m hm => ⟨hm.providers, hm.caching, hm.project⟩

theorem mergeSections_keeps {entries : Entries Json}
    (hentries : ∀ e ∈ entries, Readable (entryRoom + 2) e.2) :
    MergeKeeps Storable (mergeSections entries) := by
  induction entries with
  | nil => exact fun _ hm => hm
  | cons entry rest ih =>
    obtain ⟨name, given⟩ := entry
    have hrest := ih fun e he => hentries e (List.mem_cons_of_mem _ he)
    have hgiven := hentries _ List.mem_cons_self
    unfold mergeSections
    dsimp only
    split
    · rename_i merge entries hfound
      cases hgiven with
      | obj _ hbelow =>
        exact .bind (sections_keep (Entries.mem_of_get? hfound) hbelow) fun _ => hrest
    · exact .bind (.warn _) fun _ => hrest
    · exact .bind (.warn _) fun _ => hrest

theorem mergeDocument_keeps (path : String) {j : Json} (hj : Readable depthLimit j) :
    MergeKeeps Storable (mergeDocument path j) := by
  unfold mergeDocument
  split
  · cases hj with
    | obj _ hentries => exact mergeSections_keeps hentries
  · exact .warn _

theorem mergeFile_keeps (d : Disk) (file : Path) : MergeKeeps Storable (mergeFile d file) := by
  unfold mergeFile
  dsimp only
  split
  · split
    · exact .warn _
    · exact fun _ hm => hm
  · split
    · rename_i j hread
      exact mergeDocument_keeps _ (readable_of_read hread)
    · exact .warn _
    · exact fun _ hm => hm
    · exact fun _ hm => hm

/-! ## Loading -/

theorem storable_initial (d : Disk) (path : Option String) :
    Storable { initial d with path } where
  providers := {
    ownMachine := ⟨⟨_, rfl⟩, show Short 4000 by decide⟩
    fallback := fun v hv => by
      simp only [initial, standard, List.mem_cons, List.not_mem_nil, or_false] at hv
      rcases hv with rfl | rfl
      · exact .str _ _
      · exact .str _ _
    keys := List.nodup_nil
    models := fun e he => by cases he }
  caching := ⟨show Short 1000 by decide, fun n hn => by cases hn; decide⟩
  project := ⟨show Short 4000 by decide, show Short 8000 by decide⟩

theorem storable_withOwnMachine {c : Config Float} (hc : Storable c) :
    Storable (withOwnMachine c) := by
  unfold withOwnMachine
  split
  · exact ⟨⟨⟨hc.providers.ownMachine.temperature, hc.providers.ownMachine.maxTokens⟩,
      hc.providers.fallback, hc.providers.keys, hc.providers.models⟩, hc.caching, hc.project⟩
  · exact hc

/-- What the environment decides on can be stored in any case. -/
theorem storable_withEnvironment {env : Environment} {c c' : Config Float} (hc : Storable c)
    (h : withEnvironment env c = .ok c') : Storable c' := by
  have hown : OwnMachineStorable (ownMachineFrom env c.providers.ownMachine) := by
    unfold ownMachineFrom
    split
    · exact ⟨hc.providers.ownMachine.temperature, hc.providers.ownMachine.maxTokens⟩
    · exact hc.providers.ownMachine
  have hcaching : CachingStorable (c.caching.from env) := by
    unfold Caching.from
    split
    · exact ⟨hc.caching.maxSize, hc.caching.lifetime⟩
    · exact hc.caching
  unfold withEnvironment at h
  dsimp only at h
  split at h
  · cases h
    exact storable_withOwnMachine ⟨⟨hown, hc.providers.fallback, hc.providers.keys,
      hc.providers.models⟩, hcaching, hc.project⟩
  · cases h

/-- A configuration is loaded in three steps. -/
theorem loaded [EnvFile.Reader] {d : Disk} {env : Environment} {configPath envPath : Option String}
    {console console' : Console} {c : Config Float}
    (h : load d env configPath envPath console = (.ok c, console')) : ∃ env' merged,
      environment d env envPath = .ok env' ∧
      mergeFileIfThere d (pathOr d configPath fileName) { value := { initial d with
        path := some (pathOr d configPath fileName).toString } } = (.ok (), merged) ∧
      withEnvironment env' merged.value = .ok c := by
  unfold load at h
  split at h
  · cases h
  rename_i env' henv
  dsimp only at h
  split at h
  · cases h
  rename_i hmerged
  split at h
  · rename_i c' hc
    cases h
    exact ⟨env', _, henv, Prod.ext hmerged rfl, hc⟩
  · cases h

theorem load_ok [EnvFile.Reader] {d : Disk} {env : Environment} {configPath envPath : Option String}
    {console console' : Console} {c : Config Float}
    (h : load d env configPath envPath console = (.ok c, console')) : ∃ env' merged,
      mergeFileIfThere d (pathOr d configPath fileName) { value := { initial d with
        path := some (pathOr d configPath fileName).toString } } = (.ok (), merged) ∧
      withEnvironment env' merged.value = .ok c := by
  obtain ⟨env', merged, -, hmerged, hc⟩ := loaded h
  exact ⟨env', merged, hmerged, hc⟩

/-- A configuration that was loaded can be stored. -/
theorem storable_of_load [EnvFile.Reader] {d : Disk} {env : Environment}
    {configPath envPath : Option String}
    {console console' : Console} {c : Config Float}
    (h : load d env configPath envPath console = (.ok c, console')) : Storable c := by
  obtain ⟨env', merged, hmerged, hc⟩ := load_ok h
  have hkeeps : MergeKeeps Storable (mergeFileIfThere d (pathOr d configPath fileName)) := by
    unfold mergeFileIfThere
    refine .bind (.ofExcept _) fun isThere => ?_
    split
    · exact mergeFile_keeps d _
    · exact fun _ hm => hm
  have hstorable := hkeeps { value := { initial d with
    path := some (pathOr d configPath fileName).toString } } (storable_initial d _)
  rw [hmerged] at hstorable
  exact storable_withEnvironment hstorable hc

/-- What is written of a configuration that can be stored is read again. -/
theorem readable_toJson {c : Config Float} (hc : Storable c) : Readable depthLimit (toJson c) := by
  obtain ⟨x, hx⟩ := hc.providers.ownMachine.temperature
  have hown : Readable (entryRoom + 1) (.obj
      [("endpoint", .str c.providers.ownMachine.endpoint),
       ("model", .str c.providers.ownMachine.model),
       ("temperature", numberJson c.providers.ownMachine.temperature),
       ("max_tokens", .int c.providers.ownMachine.maxTokens),
       ("enabled", .bool c.providers.ownMachine.enabled)]) := by
    refine .obj (by simp [Entries.names]) ?_
    simp only [List.forall_mem_cons, List.not_mem_nil, false_imp_iff, implies_true, and_true, hx]
    exact ⟨.str _ _, .str _ _, .float _ _, .int hc.providers.ownMachine.maxTokens, .bool _ _⟩
  have hlifetime : Readable (entryRoom + 1) (numberJson c.caching.lifetime) := by
    cases hl : c.caching.lifetime with
    | whole n => exact .int (hc.caching.lifetime n hl)
    | real y => exact .float _ _
  show Readable (entryRoom + 3) (toJson c)
  refine .obj (by simp [Entries.names]) ?_
  simp only [List.forall_mem_cons, List.not_mem_nil, false_imp_iff, implies_true, and_true]
  refine ⟨?_, ?_, ?_, ?_, ?_, ?_⟩ <;> refine .obj (by simp [Entries.names]) ?_ <;>
    simp only [List.forall_mem_cons, List.not_mem_nil, false_imp_iff, implies_true, and_true]
  · exact ⟨.str _ _, .arr hc.providers.fallback, .obj hc.providers.keys hc.providers.models, hown⟩
  · exact ⟨.bool _ _, .int hc.caching.maxSize, hlifetime⟩
  · exact ⟨.float _ _, .float _ _, .bool _ _⟩
  · exact ⟨.float _ _, .bool _ _, .bool _ _⟩
  · exact ⟨.int hc.project.chunkSize, .int hc.project.maxFileSize, .bool _ _⟩
  · exact ⟨.str _ _, .str _ _, .str _ _, .str _ _, .float _ _⟩

end Cartridge.Config
