import Cartridge.Proofs.Config.Disclosure
import Cartridge.Proofs.Config.Typing
import Cartridge.Proofs.Toolchain.Twins

/-!
# Documents that differ in keys

Two documents with the same keys of providers, whatever these are, make configurations that differ
in these keys alone, and the same warnings but for tables that warnings show. No warning shows a key
unless something else than a table is given for the keys after some were given.

* `veiledDocument`: a document of whose keys is only told which of them count as none.
* `Warning.veiled`, `Safe`: what is hidden of warnings, or that there is nothing to hide.
* `settle_alike`: entries about providers.
* `takeSection_matched`, `mergeDocument_matched`: sections and documents.
-/

namespace Cartridge.Config

open Json Run

/-! ## Keys -/

/-- A value with its entries changed, if it is a table. -/
def onTable (change : Entries Json → Entries Json) : Json → Json
  | .obj entries => .obj (change entries)
  | other => other

/-- The value is a table. -/
def IsTable (v : Json) : Prop := ∃ entries, v = .obj entries

/-- The value of a field, where of keys is only told whether they count as none. -/
def veilField (name : String) (value : Json) : Json :=
  if name = "api_keys" then onTable (Entries.mapped blanked) value else value

/-- A value that is given under a key, with keys veiled. -/
def veilEntry (key : String) (given : Json) : Json := veilField (nameOf key) given

/-- A value that is given for a section, with keys veiled. -/
def veilSection (name : String) : Json → Json :=
  onTable fun entries => if name = "providers" then revised veilEntry entries else entries

/-- A document of whose keys is only told whether they count as none. -/
def veiledDocument : Json → Json := onTable (revised veilSection)

/-- Values that are the same with their entries changed are tables, or the same. -/
theorem onTable_eq {change : Entries Json → Entries Json} {v v' : Json}
    (h : onTable change v = onTable change v') :
    (v = v' ∧ ¬ IsTable v) ∨
      ∃ entries entries', v = .obj entries ∧ v' = .obj entries' ∧
        change entries = change entries' := by
  cases v with
  | obj entries =>
    cases v' with
    | obj entries' => exact .inr ⟨entries, entries', rfl, rfl, Json.obj.inj h⟩
    | _ => cases h
  | _ =>
    cases v' with
    | obj entries' => cases h
    | _ => exact .inl ⟨h, fun ⟨_, hentries⟩ => by cases hentries⟩

theorem veilField_of_ne {name : String} (h : name ≠ "api_keys") (value : Json) :
    veilField name value = value := if_neg h

theorem veilField_keys (value : Json) :
    veilField "api_keys" value = onTable (Entries.mapped blanked) value := if_pos rfl

section Revised

variable {change : String → Json → Json}

theorem get?_revised (entries : Entries Json) (name : String) :
    (revised change entries).get? name = (entries.get? name).map (change name) :=
  Entries.get?_mappedBy change entries name

theorem revised_put (entries : Entries Json) (name : String) (value : Json) :
    revised change (entries.put name value) =
      (revised change entries).put name (change name value) :=
  Entries.mappedBy_put change entries name value

end Revised

/-! ## Warnings -/

/-- A warning without the table that it may show. -/
def Warning.veiled : Warning → Warning
  | .wrongKind key wanted given kept =>
    .wrongKind key wanted given (if wanted = "dict" then "" else kept)
  | other => other

/-- The table that a warning shows. -/
def Warning.table? : Warning → Option String
  | .wrongKind _ wanted _ kept => if wanted = "dict" then some kept else none
  | _ => none

/-- What is hidden of warnings are the tables that they show. -/
def Loud (hide : Warning → Warning) : Prop :=
  ∀ place given kept kept',
    hide (.wrongKind place "dict" given kept) = hide (.wrongKind place "dict" given kept')

theorem loud_veiled : Loud Warning.veiled := fun _ _ _ _ => rfl

/-! ## What warnings may show -/

/-- The entry is for keys. -/
def ForKeys (e : String × Json) : Prop := nameOf e.1 = "api_keys"

/-- If the first entry sets keys, the other one is a table if it is for keys as well. -/
def KeysBefore (e e' : String × Json) : Prop :=
  ForKeys e → ForKeys e' → (∃ key rest, e.2 = .obj (key :: rest)) → IsTable e'.2

/-- No keys can be shown by warnings about entries: there are none when the entries begin, or no
entry for keys is anything else than a table. -/
def Silent (table entries : Entries Json) : Prop :=
  table.get? "api_keys" = some (.obj []) ∨ ∀ e ∈ entries, ForKeys e → IsTable e.2

/-- What warnings about entries show of keys is hidden, or there is nothing to be shown. -/
def Safe (hide : Warning → Warning) (table entries : Entries Json) : Prop :=
  Loud hide ∨ entries.Pairwise KeysBefore ∧ Silent table entries

variable {hide : Warning → Warning} {table table' : Entries Json}

/-! ## Outcomes -/

theorem Outcome.andThen_eq_ok {α β : Type} {o : Outcome α} {f : α → Outcome β} {b : β}
    (h : (o.andThen f).result = .ok b) : ∃ a, o.result = .ok a ∧ (f a).result = .ok b := by
  obtain ⟨result, said⟩ := o
  cases result with
  | error e => cases h
  | ok a => exact ⟨a, rfl, h⟩

/-- Two outcomes that differ in keys alone, and in what is hidden of warnings. -/
structure OutcomesAlike (hide : Warning → Warning) (o o' : Outcome (Entries Json)) : Prop where
  result : o.result.map (revised veilField) = o'.result.map (revised veilField)
  said : o.said.map hide = o'.said.map hide

namespace OutcomesAlike

variable {o o' : Outcome (Entries Json)}

theorem andThen {f f' : Entries Json → Outcome (Entries Json)} (h : OutcomesAlike hide o o')
    (hf : ∀ table table', o.result = .ok table → o'.result = .ok table' →
      revised veilField table = revised veilField table' →
      OutcomesAlike hide (f table) (f' table')) :
    OutcomesAlike hide (o.andThen f) (o'.andThen f') := by
  obtain ⟨result, said⟩ := o
  obtain ⟨result', said'⟩ := o'
  obtain ⟨hresult, hsaid⟩ := h
  unfold Outcome.andThen
  obtain ⟨table, table', rfl, rfl, htable⟩ | ⟨e, rfl, rfl⟩ := map_eq_map hresult
  · obtain ⟨hafter, hmore⟩ := hf table table' rfl rfl htable
    refine ⟨hafter, ?_⟩
    dsimp only at hsaid ⊢
    rw [List.map_append, List.map_append, hmore, hsaid]
  · exact ⟨hresult, hsaid⟩

end OutcomesAlike

/-! ## Entries -/

theorem nameOf_keys_ne_local {key : String} (h : nameOf key = "api_keys") :
    nameOf key ≠ "local" := by
  rw [h]
  decide

/-- A value that is given for keys. -/
theorem replyPlain_alike {place key : String} {current current' given given' : Json}
    (hcurrent : veilField "api_keys" current = veilField "api_keys" current')
    (hgiven : veilField "api_keys" given = veilField "api_keys" given')
    (hhide : ¬ IsTable given → ∀ keys keys', current = .obj keys → current' = .obj keys' →
      hide (.wrongKind place "dict" given.kindName current.shown) =
        hide (.wrongKind place "dict" given.kindName current'.shown)) :
    (replyPlain place key current given).result.map (veilField "api_keys") =
        (replyPlain place key current' given').result.map (veilField "api_keys") ∧
      (replyPlain place key current given).said.map hide =
        (replyPlain place key current' given').said.map hide := by
  have hplaced := congrArg (Except.ok (ε := Fault)) hcurrent
  rw [veilField_keys, veilField_keys] at hcurrent hgiven
  obtain ⟨rfl, hnot⟩ | ⟨keys, keys', rfl, rfl, hkeys⟩ := onTable_eq hcurrent
  · obtain ⟨rfl, -⟩ | ⟨new, new', rfl, rfl, -⟩ := onTable_eq hgiven
    · exact ⟨rfl, rfl⟩
    · cases current with
      | obj keys => exact absurd ⟨keys, rfl⟩ hnot
      | _ => exact ⟨rfl, rfl⟩
  · obtain ⟨rfl, hnot⟩ | ⟨new, new', rfl, rfl, hnew⟩ := onTable_eq hgiven
    · cases given with
      | obj new => exact absurd ⟨new, rfl⟩ hnot
      | _ => exact ⟨hplaced, congrArg (fun w => [w]) (hhide hnot keys keys' rfl rfl)⟩
    · have htables : (Entries.putAll keys new).mapped blanked =
          (Entries.putAll keys' new').mapped blanked := by
        rw [Entries.mapped_putAll, Entries.mapped_putAll, hkeys, hnew]
      exact ⟨congrArg (fun keys => Except.ok (Json.obj keys)) htables, rfl⟩

variable {label key : String} {given given' : Json}

theorem get?_eq_of_revised (h : revised veilField table = revised veilField table') {name : String}
    (hname : name ≠ "api_keys") : table.get? name = table'.get? name := by
  have hget := congrArg (Entries.get? · name) h
  rw [get?_revised, get?_revised] at hget
  cases hleft : table.get? name <;> cases hright : table'.get? name <;>
    simp_all [veilField_of_ne hname]

theorem map_put_alike {name : String} {r r' : Except Fault Json}
    (h : r.map (veilField name) = r'.map (veilField name))
    (htable : revised veilField table = revised veilField table') :
    (r.map (table.put name)).map (revised veilField) =
      (r'.map (table'.put name)).map (revised veilField) := by
  have hput (v v' : Json) (hv : veilField name v = veilField name v') :
      revised veilField (table.put name v) = revised veilField (table'.put name v') := by
    rw [revised_put, revised_put, htable, hv]
  cases r with
  | error e =>
    cases r' with
    | error e' => exact congrArg Except.error (Except.error.inj h)
    | ok v' => cases h
  | ok v =>
    cases r' with
    | error e' => cases h
    | ok v' => exact congrArg Except.ok (hput v v' (Except.ok.inj h))

/-- One entry. -/
theorem accept_alike (htable : revised veilField table = revised veilField table')
    (hgiven : veilEntry key given = veilEntry key given')
    (hhide : ForKeys (key, given) → ¬ IsTable given → ∀ keys keys',
      table.get? "api_keys" = some (.obj keys) → table'.get? "api_keys" = some (.obj keys') →
      hide (.wrongKind (label ++ "." ++ key) "dict" given.kindName (Json.obj keys).shown) =
        hide (.wrongKind (label ++ "." ++ key) "dict" given.kindName (Json.obj keys').shown)) :
    OutcomesAlike hide (accept reply label key given table)
      (accept reply label key given' table') := by
  unfold accept
  by_cases hkey : nameOf key = "api_keys"
  · rw [veilEntry, veilEntry, hkey] at hgiven
    have hget := congrArg (Entries.get? · "api_keys") htable
    rw [get?_revised, get?_revised] at hget
    rw [hkey]
    cases hcurrent : table.get? "api_keys" with
    | none =>
      rw [hcurrent] at hget
      rw [Option.map_eq_none_iff.mp hget.symm]
      exact ⟨congrArg Except.ok htable, rfl⟩
    | some current =>
      rw [hcurrent] at hget
      obtain ⟨current', hcurrent', hveiled⟩ := Option.map_eq_some_iff.mp hget.symm
      have hwrong (htable : ¬ IsTable given) (keys keys' : Entries Json)
          (hkeys : current = .obj keys) (hkeys' : current' = .obj keys') :
          hide (.wrongKind (label ++ "." ++ key) "dict" given.kindName current.shown) =
            hide (.wrongKind (label ++ "." ++ key) "dict" given.kindName current'.shown) := by
        subst hkeys hkeys'
        exact hhide hkey htable keys keys' hcurrent hcurrent'
      obtain ⟨hresult, hsaid⟩ := replyPlain_alike hveiled.symm hgiven hwrong
      rw [hcurrent']
      dsimp only
      rw [reply_of_ne (nameOf_keys_ne_local hkey), reply_of_ne (nameOf_keys_ne_local hkey)]
      exact ⟨map_put_alike hresult htable, hsaid⟩
  · have hsame : given = given' := by
      rwa [veilEntry, veilEntry, veilField_of_ne hkey, veilField_of_ne hkey] at hgiven
    subst hsame
    rw [← get?_eq_of_revised htable hkey]
    cases table.get? (nameOf key) with
    | none => exact ⟨congrArg Except.ok htable, rfl⟩
    | some current =>
      exact ⟨map_put_alike rfl htable, rfl⟩

/-- There are no keys before an entry sets some. -/
theorem no_keys_of_accept {after : Entries Json} (hnone : table.get? "api_keys" = some (.obj []))
    (hset : ForKeys (key, given) → ¬ ∃ first rest, given = .obj (first :: rest))
    (h : (accept reply label key given table).result = .ok after) :
    after.get? "api_keys" = some (.obj []) := by
  unfold accept at h
  by_cases hkey : nameOf key = "api_keys"
  · have hreply : (reply (label ++ "." ++ key) key (.obj []) given).result = .ok (.obj []) := by
      rw [reply_of_ne (nameOf_keys_ne_local hkey)]
      cases given with
      | obj new =>
        cases new with
        | nil => rfl
        | cons first rest => exact absurd ⟨first, rest, rfl⟩ (hset hkey)
      | _ => rfl
    rw [hkey, hnone] at h
    dsimp only [Outcome.map] at h
    rw [hreply] at h
    rw [← Except.ok.inj h, Entries.get?_put_self]
  · cases hcurrent : table.get? (nameOf key) with
    | none =>
      rw [hcurrent] at h
      rw [← Except.ok.inj h, hnone]
    | some current =>
      rw [hcurrent] at h
      dsimp only [Outcome.map] at h
      cases hresult : (reply (label ++ "." ++ key) key current given).result with
      | error e =>
        rw [hresult] at h
        cases h
      | ok v =>
        rw [hresult] at h
        rw [← Except.ok.inj h, Entries.get?_put_of_ne _ _ (Ne.symm hkey), hnone]

theorem Safe.accept {entries after : Entries Json} (h : Safe hide table ((key, given) :: entries))
    (hafter : (accept reply label key given table).result = .ok after) :
    Safe hide after entries := by
  obtain hloud | ⟨hpairs, hsilent⟩ := h
  · exact .inl hloud
  · obtain ⟨hfirst, hrest⟩ := List.pairwise_cons.mp hpairs
    refine .inr ⟨hrest, ?_⟩
    obtain hnone | htables := hsilent
    · by_cases hset : ForKeys (key, given) ∧ ∃ first rest, given = .obj (first :: rest)
      · exact .inr fun e he hkeys => hfirst e he hset.1 hkeys hset.2
      · exact .inl (no_keys_of_accept hnone (fun hkeys hgiven => hset ⟨hkeys, hgiven⟩) hafter)
    · exact .inr fun e he => htables e (List.mem_cons_of_mem _ he)

/-- What is said of an entry is the same once what has to be is hidden. -/
theorem Safe.hidden {entries : Entries Json} (h : Safe hide table ((key, given) :: entries))
    (htable : revised veilField table = revised veilField table') (hkeys : ForKeys (key, given))
    (hgiven : ¬ IsTable given) (place kind : String) {keys keys' : Entries Json}
    (hcurrent : table.get? "api_keys" = some (.obj keys))
    (hcurrent' : table'.get? "api_keys" = some (.obj keys')) :
    hide (.wrongKind place "dict" kind (Json.obj keys).shown) =
      hide (.wrongKind place "dict" kind (Json.obj keys').shown) := by
  obtain hloud | ⟨-, hnone | htables⟩ := h
  · exact hloud _ _ _ _
  · have hget := congrArg (Entries.get? · "api_keys") htable
    rw [get?_revised, get?_revised, hnone, hcurrent'] at hget
    rw [hnone] at hcurrent
    obtain rfl : keys = [] := (Json.obj.inj (Option.some.inj hcurrent)).symm
    cases keys' with
    | nil => rfl
    | cons first rest => cases hget
  · exact absurd (htables _ List.mem_cons_self hkeys) hgiven

/-- Entries that differ in keys alone make tables that differ in keys alone, and the same is said of
them but for what is hidden. -/
theorem settle_alike {own own' rest : Entries Json} (hsafe : Safe hide table (own ++ rest))
    (htable : revised veilField table = revised veilField table')
    (hown : revised veilEntry own = revised veilEntry own') :
    OutcomesAlike hide (settle reply label own table) (settle reply label own' table') ∧
      ∀ after, (settle reply label own table).result = .ok after → Safe hide after rest := by
  induction own generalizing own' table table' with
  | nil =>
    obtain rfl : own' = [] := by simpa [revised] using hown.symm
    refine ⟨⟨congrArg Except.ok htable, rfl⟩, ?_⟩
    rintro _ ⟨⟩
    exact hsafe
  | cons entry own ih =>
    obtain ⟨key, given⟩ := entry
    cases own' with
    | nil => cases hown
    | cons entry' own' =>
      obtain ⟨key', given'⟩ := entry'
      obtain ⟨hentry, hothers⟩ := List.cons.inj hown
      obtain ⟨hkey, hgiven⟩ := Prod.mk.inj hentry
      obtain rfl : key = key' := hkey
      have hfirst : OutcomesAlike hide (accept reply label key given table)
          (accept reply label key given' table') :=
        accept_alike htable hgiven fun hkeys hnot keys keys' => hsafe.hidden htable hkeys hnot _ _
      rw [settle, settle]
      refine ⟨hfirst.andThen fun after after' hafter _ hsame => ?_, fun after hafter => ?_⟩
      · exact (ih (hsafe.accept hafter) hsame hothers).1
      · obtain ⟨next, hnext, hafter⟩ := Outcome.andThen_eq_ok hafter
        exact (ih (hsafe.accept hnext) rfl rfl).2 after hafter

/-! ## Sections -/

/-- The entries about providers that a section has. -/
def providerEntries (name : String) (given : Json) : Entries Json :=
  match given with
  | .obj entries => if name = "providers" then entries else []
  | _ => []

/-- The entries about providers that sections have, one section after another. -/
def allProviderEntries (sections_ : Entries Json) : Entries Json :=
  sections_.flatMap fun s => providerEntries s.1 s.2

/-- The warnings are the same once what has to be is hidden. -/
def WarningsAlike (hide : Warning → Warning) (m m' : Merging (Config Float)) : Prop :=
  m.warnings.map hide = m'.warnings.map hide

/-- Two configurations that differ in keys alone, with warnings that are the same once what has to
be is hidden; so they are after the entries about providers that still come. -/
structure MergingsAlike (hide : Warning → Warning) (entries : Entries Json)
    (m m' : Merging (Config Float)) : Prop where
  value : m.value.veiled = m'.value.veiled
  warnings : WarningsAlike hide m m'
  safe : Safe hide (Topic.providers.values m.value.providers) entries

variable {rest : Entries Json} {t : Topic} {m m' : Merging (Config Float)}

/-- Something that is passed over with a warning. -/
theorem passes_matched {x : Merge (Config Float) Unit} {w : Warning} (h : Passes x (· = w)) :
    Matched (WarningsAlike hide) (MergingsAlike hide rest) Eq (MergingsAlike hide rest) x x := by
  intro m m' hm
  obtain ⟨_, rfl, hx⟩ := h m
  obtain ⟨_, rfl, hx'⟩ := h m'
  rw [hx, hx']
  exact .ok rfl { hm with warnings := congrArg (hide _ :: ·) hm.warnings }

/-- What comes of a section is what is told of its table. -/
theorem within_paired {β : Type} {V : Entries Json → β} {x y : Merge t.Part Unit}
    {o o' : Outcome (Entries Json)} (hx : Told t.values x ⟨t.of m.value, m.warnings⟩ o)
    (hy : Told t.values y ⟨t.of m'.value, m'.warnings⟩ o') (hwarnings : WarningsAlike hide m m')
    (hresult : o.result.map V = o'.result.map V) (hsaid : o.said.map hide = o'.said.map hide)
    (hafter : ∀ p p', o.result = .ok (t.values p) → V (t.values p) = V (t.values p') →
      (t.put m.value p).veiled = (t.put m'.value p').veiled ∧
        Safe hide (Topic.providers.values (t.put m.value p).providers) rest) :
    Paired (WarningsAlike hide) Eq (MergingsAlike hide rest) (Merge.within t.of t.put x m)
      (Merge.within t.of t.put y m') := by
  obtain ⟨hxresult, hxwarnings⟩ := hx
  obtain ⟨hyresult, hywarnings⟩ := hy
  unfold Merge.within Run.on
  dsimp only
  generalize x ⟨t.of m.value, m.warnings⟩ = first at hxresult hxwarnings
  generalize y ⟨t.of m'.value, m'.warnings⟩ = second at hyresult hywarnings
  obtain ⟨r, p, warnings⟩ := first
  obtain ⟨r', p', warnings'⟩ := second
  have hwarned : warnings.map hide = warnings'.map hide := by
    rw [show warnings = _ from hxwarnings, show warnings' = _ from hywarnings, List.map_append,
      List.map_append, hsaid, show m.warnings.map hide = _ from hwarnings]
  rw [← hxresult, ← hyresult] at hresult
  have hends : r.map (fun _ => V (t.values p)) = r'.map fun _ => V (t.values p') := by
    cases r <;> cases r' <;> exact hresult
  obtain ⟨_, _, rfl, rfl, hveiled⟩ | ⟨e, rfl, rfl⟩ := map_eq_map hends
  · obtain ⟨hvalue, hsafe⟩ := hafter p p' hxresult.symm hveiled
    exact .ok rfl ⟨hvalue, hwarned, hsafe⟩
  · exact .error hwarned

/-- A section that has nothing to do with keys. -/
theorem takeOther_matched {name : String} (hname : sectionTopics.get? name = some t)
    (hof : ∀ c : Config Float, t.of c.veiled = t.of c)
    (hput : ∀ (c : Config Float) p, (t.put c p).veiled = t.put c.veiled p)
    (hproviders : ∀ (c : Config Float) p, (t.put c p).providers = c.providers)
    (entries : Entries Json) :
    Matched (WarningsAlike hide) (MergingsAlike hide rest) Eq (MergingsAlike hide rest)
      (takeSection name (.obj entries)) (takeSection name (.obj entries)) := by
  intro m m' h
  have hpart : t.of m.value = t.of m'.value := by
    rw [← hof m.value, h.value, hof m'.value]
  rw [takeSection_obj hname]
  refine within_paired (V := id) (t.mergeEntries_settle name entries _)
    (t.mergeEntries_settle name entries _) h.warnings ?_ ?_ ?_
  · rw [hpart]
  · rw [hpart]
  · intro p p' _ hvalues
    obtain rfl : p = p' := t.values_inj hvalues
    exact ⟨by rw [hput, hput, h.value], by rw [hproviders]; exact h.safe⟩

/-- The section about providers. -/
theorem takeProviders_matched {entries entries' : Entries Json}
    (hentries : revised veilEntry entries = revised veilEntry entries') :
    Matched (WarningsAlike hide) (MergingsAlike hide (entries ++ rest)) Eq (MergingsAlike hide rest)
      (takeSection "providers" (.obj entries)) (takeSection "providers" (.obj entries')) := by
  intro m m' h
  have hvalues (p : Providers) : revised veilField (Topic.providers.values p) =
      Topic.providers.values { p with apiKeys := p.apiKeys.mapped blanked } := rfl
  have htable : revised veilField (Topic.providers.values m.value.providers) =
      revised veilField (Topic.providers.values m'.value.providers) := by
    rw [hvalues, hvalues]
    exact congrArg (fun c : Config Float => Topic.providers.values c.providers) h.value
  have hsettled : OutcomesAlike hide
      (settle reply "providers" entries (Topic.providers.values m.value.providers))
      (settle reply "providers" entries' (Topic.providers.values m'.value.providers)) ∧ _ :=
    settle_alike h.safe htable hentries
  obtain ⟨⟨hresult, hsaid⟩, hsafe⟩ := hsettled
  have hname : sectionTopics.get? "providers" = some .providers := rfl
  rw [takeSection_obj hname, takeSection_obj hname]
  refine within_paired (Topic.providers.mergeEntries_settle "providers" entries _)
    (Topic.providers.mergeEntries_settle "providers" entries' _) h.warnings hresult hsaid ?_
  intro p p' hp hveiled
  have hsame := Topic.providers.values_inj
    ((hvalues p).symm.trans (hveiled.trans (hvalues p')))
  refine ⟨?_, hsafe _ hp⟩
  exact congrArg₂ (fun (c : Config Float) p => { c with providers := p }) h.value hsame

theorem lookup_sections_eq_none {name : String} (h : sectionTopics.get? name = none) :
    sections.lookup name = none := by
  have hnames : Entries.names sections = Entries.names sectionTopics := rfl
  have hnone := Entries.not_mem_of_get? h
  rw [← hnames] at hnone
  exact Entries.get?_of_not_mem hnone

theorem takeSection_matched {name : String} {given given' : Json}
    (h : veilSection name given = veilSection name given') :
    Matched (WarningsAlike hide) (MergingsAlike hide (providerEntries name given ++ rest)) Eq
      (MergingsAlike hide rest) (takeSection name given) (takeSection name given') := by
  cases hname : sectionTopics.get? name with
  | none =>
    have hother : name ≠ "providers" := by
      rintro rfl
      cases hname
    have hpasses (given : Json) : Passes (takeSection name given) (· = .unknownSection name) := by
      simp only [takeSection, lookup_sections_eq_none hname]
      exact fun m => ⟨_, rfl, rfl⟩
    have hsame : given = given' := by
      obtain ⟨rfl, -⟩ | ⟨entries, entries', rfl, rfl, hentries⟩ := onTable_eq h
      · rfl
      · rw [if_neg hother, if_neg hother] at hentries
        rw [hentries]
    have hentries : providerEntries name given = [] := by
      unfold providerEntries
      split
      · exact if_neg hother
      · rfl
    rw [hentries, ← hsame]
    exact passes_matched (hpasses given)
  | some t =>
    have hmem := Entries.mem_of_get? hname
    simp only [sectionTopics, List.mem_cons, Prod.mk.injEq, List.not_mem_nil, or_false] at hmem
    obtain ⟨rfl, hnot⟩ | ⟨entries, entries', rfl, rfl, hentries⟩ := onTable_eq h
    · cases given with
      | obj entries => exact absurd ⟨entries, rfl⟩ hnot
      | _ => exact passes_matched (takeSection_not_section hname rfl)
    · rcases hmem with ⟨rfl, rfl⟩ | ⟨rfl, rfl⟩ | ⟨rfl, rfl⟩ | ⟨rfl, rfl⟩ | ⟨rfl, rfl⟩ | ⟨rfl, rfl⟩
      · exact takeProviders_matched hentries
      all_goals
        obtain rfl : entries = entries' := hentries
        exact takeOther_matched hname (fun _ => rfl) (fun _ _ => rfl) (fun _ _ => rfl) entries

theorem mergeSections_matched {entries entries' : Entries Json}
    (h : revised veilSection entries = revised veilSection entries') :
    Matched (WarningsAlike hide) (MergingsAlike hide (allProviderEntries entries)) Eq
      (MergingsAlike hide []) (mergeSections entries) (mergeSections entries') := by
  induction entries generalizing entries' with
  | nil =>
    obtain rfl : entries' = [] := by simpa [revised] using h.symm
    exact .done rfl
  | cons entry rest ih =>
    obtain ⟨name, given⟩ := entry
    cases entries' with
    | nil => cases h
    | cons entry' rest' =>
      obtain ⟨name', given'⟩ := entry'
      obtain ⟨hentry, hothers⟩ := List.cons.inj h
      obtain ⟨hname, hgiven⟩ := Prod.mk.inj hentry
      obtain rfl : name = name' := hname
      rw [mergeSections_step, mergeSections_step]
      exact .bind (takeSection_matched hgiven) fun _ _ _ => ih hothers

/-- The entries about providers of a document. -/
def documentEntries : Json → Entries Json
  | .obj sections_ => allProviderEntries sections_
  | _ => []

theorem mergeDocument_matched (path : String) {j j' : Json}
    (h : veiledDocument j = veiledDocument j') :
    Matched (WarningsAlike hide) (MergingsAlike hide (documentEntries j)) Eq
      (MergingsAlike hide []) (mergeDocument path j) (mergeDocument path j') := by
  obtain ⟨rfl, hnot⟩ | ⟨entries, entries', rfl, rfl, hentries⟩ := onTable_eq h
  · cases j with
    | obj entries => exact absurd ⟨entries, rfl⟩ hnot
    | _ => exact passes_matched (w := .notObject path) fun m => ⟨_, rfl, rfl⟩
  · exact mergeSections_matched hentries

end Cartridge.Config
