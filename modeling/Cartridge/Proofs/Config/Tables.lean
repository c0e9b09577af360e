import Cartridge.Proofs.Config.Entry

/-!
# Sections as tables

A section is a table: under the name of each field stands the value that the field holds. Entries
are merged into all sections in one way, which such tables are enough to tell: a value takes the
place of one of the same kind, and what is said of any other depends on nothing but that place.

* `Topic.values`, `Topic.values_inj`: the table of a section, which tells all of it.
* `fits`, `replacement`, `reply`: what comes of a value that is given for a field.
* `settle`: what entries make of a table, and what is said meanwhile.
* `Topic.mergeEntries_settle`: so it is with the entries of every section.
-/

namespace Cartridge.Config

open Json Run

/-! ## Tables -/

/-- The sections of a configuration, and the block about the user's own machine in the first. -/
inductive Topic where
  | providers
  | caching
  | budget
  | quality
  | project
  | tools
  | ownMachine
  deriving DecidableEq

namespace Topic

/-- What a section holds. -/
def Part : Topic → Type
  | providers => Providers
  | caching => Caching Float
  | budget => Budget Float
  | quality => Quality Float
  | project => ProjectRules
  | tools => Tools
  | ownMachine => Provider.LocalService

def fields : (t : Topic) → List (Field t.Part)
  | providers => providerFields
  | caching => cachingFields
  | budget => budgetFields
  | quality => qualityFields
  | project => projectFields
  | tools => toolFields
  | ownMachine => ownMachineFields

end Topic

/-- What the user's own machine is set to. -/
def ownMachineValues (s : Provider.LocalService) : Entries Json :=
  [("endpoint", .str s.endpoint), ("model", .str s.model),
   ("temperature", numberJson s.temperature), ("max_tokens", .int s.maxTokens),
   ("enabled", .bool s.enabled)]

namespace Topic

/-- The values of a section under the names of its fields. -/
def values : (t : Topic) → t.Part → Entries Json
  | providers, (p : Providers) =>
    [("primary", .str p.primary), ("fallback", .arr p.fallback), ("api_keys", .obj p.apiKeys),
     ("models", .obj p.models), ("local", .obj (ownMachineValues p.ownMachine))]
  | caching, (c : Caching Float) =>
    [("enabled", .bool c.enabled), ("max_size", .int c.maxSize),
     ("ttl_seconds", numberJson c.lifetime)]
  | budget, (b : Budget Float) =>
    [("max_cost_per_transpilation", .float b.perConversion), ("daily_budget", .float b.perDay),
     ("prefer_local", .bool b.preferLocal)]
  | quality, (q : Quality Float) =>
    [("min_score", .float q.minScore), ("require_validation", .bool q.review),
     ("enable_learning", .bool q.learning)]
  | project, (r : ProjectRules) =>
    [("chunk_size", .int r.chunkSize), ("max_file_size", .int r.maxFileSize),
     ("enable_modular_build", .bool r.modular)]
  | tools, (k : Tools) =>
    [("gbdk_path", .str k.libraryPath), ("transpiler", .str k.translator),
     ("ts2c_command", .str k.ts2cCommand), ("gbdk_url", .str k.libraryUrl),
     ("request_timeout", .float k.timeout)]
  | ownMachine, s => ownMachineValues s

/-- The names of the fields of a section. -/
def names : Topic → List String
  | providers => ["primary", "fallback", "api_keys", "models", "local"]
  | caching => ["enabled", "max_size", "ttl_seconds"]
  | budget => ["max_cost_per_transpilation", "daily_budget", "prefer_local"]
  | quality => ["min_score", "require_validation", "enable_learning"]
  | project => ["chunk_size", "max_file_size", "enable_modular_build"]
  | tools => ["gbdk_path", "transpiler", "ts2c_command", "gbdk_url", "request_timeout"]
  | ownMachine => ["endpoint", "model", "temperature", "max_tokens", "enabled"]

theorem names_values (t : Topic) (s : t.Part) : (t.values s).names = t.names := by
  cases t <;> rfl

theorem nodup_names (t : Topic) : t.names.Nodup := by
  cases t <;> decide

end Topic

theorem numberJson_inj {n n' : Number Float} (h : numberJson n = numberJson n') : n = n' := by
  cases n <;> cases n' <;> simp_all [numberJson]

theorem ownMachineValues_inj {s s' : Provider.LocalService}
    (h : ownMachineValues s = ownMachineValues s') : s = s' := by
  obtain ⟨endpoint, model, temperature, maxTokens, enabled⟩ := s
  obtain ⟨endpoint', model', temperature', maxTokens', enabled'⟩ := s'
  simp only [ownMachineValues, List.cons.injEq, Prod.mk.injEq, Json.str.injEq, Json.int.injEq,
    Json.bool.injEq, true_and, and_true] at h
  obtain ⟨rfl, rfl, htemperature, rfl, rfl⟩ := h
  rw [numberJson_inj htemperature]

/-- The table of a section tells all of it. -/
theorem Topic.values_inj (t : Topic) {s s' : t.Part} (h : t.values s = t.values s') : s = s' := by
  cases t with
  | providers =>
    obtain ⟨primary, fallback, apiKeys, models, own⟩ := s
    obtain ⟨primary', fallback', apiKeys', models', own'⟩ := s'
    simp only [values, List.cons.injEq, Prod.mk.injEq, Json.str.injEq, Json.arr.injEq,
      Json.obj.injEq, true_and, and_true] at h
    obtain ⟨rfl, rfl, rfl, rfl, hown⟩ := h
    rw [ownMachineValues_inj hown]
  | caching =>
    obtain ⟨enabled, maxSize, lifetime⟩ := s
    obtain ⟨enabled', maxSize', lifetime'⟩ := s'
    simp only [values, List.cons.injEq, Prod.mk.injEq, Json.bool.injEq, Json.int.injEq, true_and,
      and_true] at h
    obtain ⟨rfl, rfl, hlifetime⟩ := h
    rw [numberJson_inj hlifetime]
  | budget =>
    obtain ⟨perConversion, perDay, preferLocal⟩ := s
    obtain ⟨perConversion', perDay', preferLocal'⟩ := s'
    simp only [values, List.cons.injEq, Prod.mk.injEq, Json.float.injEq, Json.bool.injEq, true_and,
      and_true] at h
    obtain ⟨rfl, rfl, rfl⟩ := h
    rfl
  | quality =>
    obtain ⟨minScore, review, learning⟩ := s
    obtain ⟨minScore', review', learning'⟩ := s'
    simp only [values, List.cons.injEq, Prod.mk.injEq, Json.float.injEq, Json.bool.injEq, true_and,
      and_true] at h
    obtain ⟨rfl, rfl, rfl⟩ := h
    rfl
  | project =>
    obtain ⟨chunkSize, maxFileSize, modular⟩ := s
    obtain ⟨chunkSize', maxFileSize', modular'⟩ := s'
    simp only [values, List.cons.injEq, Prod.mk.injEq, Json.int.injEq, Json.bool.injEq, true_and,
      and_true] at h
    obtain ⟨rfl, rfl, rfl⟩ := h
    rfl
  | tools =>
    obtain ⟨libraryPath, translator, ts2cCommand, libraryUrl, timeout⟩ := s
    obtain ⟨libraryPath', translator', ts2cCommand', libraryUrl', timeout'⟩ := s'
    simp only [values, List.cons.injEq, Prod.mk.injEq, Json.str.injEq, Json.float.injEq, true_and,
      and_true] at h
    obtain ⟨rfl, rfl, rfl, rfl, rfl⟩ := h
    rfl
  | ownMachine => exact ownMachineValues_inj h

/-! ## Values that are given for a field -/

/-- The name of the field that a key stands for. One key has a name of its own. -/
def nameOf (key : String) : String := if key = "ttl" then "ttl_seconds" else fieldName key

/-- Whether a value may take the place of another: it is of the same kind, or a whole number where
any number is wanted. -/
def fits : Json → Json → Bool
  | .bool _, .bool _ | .int _, .int _ | .float _, .int _ | .float _, .float _ => true
  | .str _, .str _ | .arr _, .arr _ | .obj _, .obj _ => true
  | _, _ => false

/-- What stands in the place of a value once one that fits was taken. A table is added to, and one
key gives milliseconds. -/
def replacement (key : String) : Json → Json → Except Fault Json
  | .int _, .int n => if key = "ttl" then (Merge.real n 1000).map .float else .ok (.int n)
  | .float _, .int n => (Merge.real n (if key = "ttl" then 1000 else 1)).map .float
  | .float _, .float x => .ok (.float (if key = "ttl" then x / 1000.0 else x))
  | .obj old, .obj new => .ok (.obj (Entries.putAll old new))
  | _, given => .ok given

/-- What comes of entries, and what is said meanwhile, latest first. -/
structure Outcome (α : Type) where
  result : Except Fault α
  said : List Warning

namespace Outcome

variable {α β : Type}

def map (f : α → β) (o : Outcome α) : Outcome β := ⟨o.result.map f, o.said⟩

def andThen (o : Outcome α) (f : α → Outcome β) : Outcome β :=
  match o.result with
  | .ok a => ⟨(f a).result, (f a).said ++ o.said⟩
  | .error e => ⟨.error e, o.said⟩

end Outcome

/-- What comes of a value that is given under a key for a field that holds another; `place` is how
warnings call it. -/
def replyPlain (place key : String) (current given : Json) : Outcome Json :=
  if fits current given then ⟨replacement key current given, []⟩
  else ⟨.ok current, [.wrongKind place current.kindName given.kindName current.shown]⟩

/-- What one entry makes of a table. -/
def accept (reply : String → String → Json → Json → Outcome Json) (label key : String)
    (given : Json) (table : Entries Json) : Outcome (Entries Json) :=
  match table.get? (nameOf key) with
  | none => ⟨.ok table, [.unknownKey (label ++ "." ++ key)]⟩
  | some current => (reply (label ++ "." ++ key) key current given).map (table.put (nameOf key))

/-- What entries make of a table, one after another. -/
def settle (reply : String → String → Json → Json → Outcome Json) (label : String) :
    Entries Json → Entries Json → Outcome (Entries Json)
  | [], table => ⟨.ok table, []⟩
  | (key, given) :: rest, table =>
    (accept reply label key given table).andThen (settle reply label rest)

/-- The table in which a warning shows the user's own machine. -/
def shownBlock : Json → String
  | .obj block =>
    "LocalLLMConfig(" ++ Text.joined ", " (block.map fun e => e.1 ++ "=" ++ e.2.shown) ++ ")"
  | other => other.shown

/-- What comes of a value that is given for a field which may be a block with fields of its own. -/
def reply (place key : String) (current given : Json) : Outcome Json :=
  if nameOf key = "local" then
    match current, given with
    | .obj block, .obj entries => (settle replyPlain place entries block).map .obj
    | _, _ => ⟨.ok current, [.wrongKind place "LocalLLMConfig" given.kindName (shownBlock current)]⟩
  else replyPlain place key current given

theorem reply_of_ne {key : String} (h : nameOf key ≠ "local") (place : String)
    (current given : Json) : reply place key current given = replyPlain place key current given :=
  if_neg h

theorem reply_block {key : String} (h : nameOf key = "local") (place : String)
    (block entries : Entries Json) :
    reply place key (.obj block) (.obj entries) = (settle replyPlain place entries block).map .obj :=
  if_pos h

theorem reply_not_block {key : String} (h : nameOf key = "local") (place : String)
    (block : Entries Json) {given : Json} (hgiven : fits (.obj block) given = false) :
    reply place key (.obj block) given =
      ⟨.ok (.obj block), [.wrongKind place "LocalLLMConfig" given.kindName
        (shownBlock (.obj block))]⟩ := by
  unfold reply
  rw [if_pos h]
  cases given with
  | obj entries => cases hgiven
  | _ => rfl

/-! ## Fields -/

variable {S : Type} {values : S → Entries Json}
  {answer : String → String → Json → Json → Outcome Json}

/-- What comes of a merging is what is told of the table of what is merged into. -/
structure Told (values : S → Entries Json) (x : Merge S Unit) (m : Merging S)
    (o : Outcome (Entries Json)) : Prop where
  result : (x m).1.map (fun _ => values (x m).2.value) = o.result
  warnings : (x m).2.warnings = o.said ++ m.warnings

theorem Told.ok {x : Merge S Unit} {m : Merging S} {o : Outcome (Entries Json)}
    (h : Told values x m o) {table : Entries Json} (ho : o.result = .ok table) :
    ∃ s, x m = (.ok (), ⟨s, o.said ++ m.warnings⟩) ∧ values s = table := by
  obtain ⟨hresult, hwarnings⟩ := h
  generalize x m = after at hresult hwarnings
  obtain ⟨r, s, warnings⟩ := after
  rw [ho] at hresult
  cases r with
  | ok _ =>
    obtain rfl : warnings = o.said ++ m.warnings := hwarnings
    exact ⟨s, rfl, Except.ok.inj hresult⟩
  | error e => cases hresult

theorem Told.congr {x y : Merge S Unit} {m : Merging S} {o : Outcome (Entries Json)}
    (h : Told values y m o) (hxy : x m = y m) : Told values x m o := by
  constructor <;> rw [hxy]
  · exact h.result
  · exact h.warnings

theorem Told.bind {x y : Merge S Unit} {m : Merging S} {o : Outcome (Entries Json)}
    {f : Entries Json → Outcome (Entries Json)} (hx : Told values x m o)
    (hy : ∀ m', Told values y m' (f (values m'.value))) :
    Told values (x >>= fun _ => y) m (o.andThen f) := by
  obtain ⟨result, said⟩ := o
  obtain ⟨rfl, hwarnings⟩ := hx
  rw [Outcome.andThen]
  constructor <;> rw [bind_apply]
  all_goals
    generalize x m = first at hwarnings ⊢
    obtain ⟨r, m'⟩ := first
    cases r
  · rfl
  · exact (hy m').result
  · exact hwarnings
  · show (y m').2.warnings = _
    rw [(hy m').warnings, show m'.warnings = _ from hwarnings, ← List.append_assoc]
    rfl

namespace Field

/-- A field takes values under a key as is told of the value that the key stands for. -/
def TellsAt (values : S → Entries Json) (answer : String → String → Json → Json → Outcome Json)
    (key : String) (f : Field S) : Prop :=
  ∀ place given m, ∃ current, (values m.value).get? (nameOf key) = some current ∧
    Told values (f.take place given) m
      ((answer place key current given).map ((values m.value).put (nameOf key)))

/-- A field under a name takes values as is told of the value that is there. -/
structure Tells (values : S → Entries Json) (answer : String → String → Json → Json → Outcome Json)
    (f : Field S) (name : String) : Prop where
  isNamed : f.IsNamed name
  tellsAt : ∀ key, nameOf key = name → f.TellsAt values answer key

variable {name : String}

theorem text_tells {get : S → String} {put : S → String → S}
    (hget : ∀ s, (values s).get? name = some (.str (get s)))
    (hput : ∀ s x, values (put s x) = (values s).put name (.str x)) :
    (Field.text name get put).Tells values replyPlain name := by
  refine ⟨isNamed _ _, ?_⟩
  rintro key rfl place given m
  refine ⟨.str (get m.value), hget _, ?_⟩
  cases given with
  | str x => exact ⟨congrArg Except.ok (hput _ _), rfl⟩
  | _ => exact ⟨congrArg Except.ok (Entries.put_of_get? (hget _)).symm, rfl⟩

theorem flag_tells {get : S → Bool} {put : S → Bool → S}
    (hget : ∀ s, (values s).get? name = some (.bool (get s)))
    (hput : ∀ s x, values (put s x) = (values s).put name (.bool x)) :
    (Field.flag name get put).Tells values replyPlain name := by
  refine ⟨isNamed _ _, ?_⟩
  rintro key rfl place given m
  refine ⟨.bool (get m.value), hget _, ?_⟩
  cases given with
  | bool x => exact ⟨congrArg Except.ok (hput _ _), rfl⟩
  | _ => exact ⟨congrArg Except.ok (Entries.put_of_get? (hget _)).symm, rfl⟩

theorem items_tells {get : S → List Json} {put : S → List Json → S}
    (hget : ∀ s, (values s).get? name = some (.arr (get s)))
    (hput : ∀ s x, values (put s x) = (values s).put name (.arr x)) :
    (Field.items name get put).Tells values replyPlain name := by
  refine ⟨isNamed _ _, ?_⟩
  rintro key rfl place given m
  refine ⟨.arr (get m.value), hget _, ?_⟩
  cases given with
  | arr new => exact ⟨congrArg Except.ok (hput _ _), rfl⟩
  | _ => exact ⟨congrArg Except.ok (Entries.put_of_get? (hget _)).symm, rfl⟩

theorem table_tells {get : S → Entries Json} {put : S → Entries Json → S}
    (hget : ∀ s, (values s).get? name = some (.obj (get s)))
    (hput : ∀ s x, values (put s x) = (values s).put name (.obj x)) :
    (Field.table name get put).Tells values replyPlain name := by
  refine ⟨isNamed _ _, ?_⟩
  rintro key rfl place given m
  refine ⟨.obj (get m.value), hget _, ?_⟩
  cases given with
  | obj new => exact ⟨congrArg Except.ok (hput _ _), rfl⟩
  | _ => exact ⟨congrArg Except.ok (Entries.put_of_get? (hget _)).symm, rfl⟩

/-- A key for another field than the one with a key of its own. -/
theorem ne_ttl {key : String} (h : nameOf key ≠ "ttl_seconds") : key ≠ "ttl" := by
  rintro rfl
  exact h rfl

theorem whole_tells {get : S → Int} {put : S → Int → S} (hname : name ≠ "ttl_seconds")
    (hget : ∀ s, (values s).get? name = some (.int (get s)))
    (hput : ∀ s x, values (put s x) = (values s).put name (.int x)) :
    (Field.whole name get put).Tells values replyPlain name := by
  refine ⟨isNamed _ _, ?_⟩
  rintro key rfl place given m
  refine ⟨.int (get m.value), hget _, ?_⟩
  cases given with
  | int n =>
    have hreply : replyPlain place key (.int (get m.value)) (.int n) = ⟨.ok (.int n), []⟩ := by
      rw [replyPlain, fits, if_pos rfl, replacement, if_neg (ne_ttl hname)]
    rw [hreply]
    exact ⟨congrArg Except.ok (hput _ _), rfl⟩
  | _ => exact ⟨congrArg Except.ok (Entries.put_of_get? (hget _)).symm, rfl⟩

/-- A number of any kind is taken for a number. -/
theorem takeReal_tells (get : S → Float) (put : S → Float → S) {key : String} (hkey : key ≠ "ttl")
    {m : Merging S} (hget : (values m.value).get? name = some (.float (get m.value)))
    (hput : ∀ x, values (put m.value x) = (values m.value).put name (.float x)) (place : String)
    (given : Json) :
    Told values (takeReal get put place given) m
      ((replyPlain place key (.float (get m.value)) given).map ((values m.value).put name)) := by
  cases given with
  | int n =>
    have hreply : replyPlain place key (.float (get m.value)) (.int n) =
        ⟨(Merge.real n 1).map .float, []⟩ := by
      rw [replyPlain, fits, if_pos rfl, replacement, if_neg hkey]
    have htake : takeReal get put place (.int n) m =
        match Merge.real n 1 with
        | .ok x => (.ok (), { m with value := put m.value x })
        | .error e => (.error e, m) := by
      refine (ofExcept_bind (Merge.real n 1) (fun x => Merge.set (put · x)) m).trans ?_
      cases Merge.real n 1 <;> rfl
    rw [hreply]
    constructor <;> rw [htake]
    · cases Merge.real n 1 with
      | ok x => exact congrArg Except.ok (hput x)
      | error e => rfl
    · cases Merge.real n 1 <;> rfl
  | float x =>
    have hreply : replyPlain place key (.float (get m.value)) (.float x) = ⟨.ok (.float x), []⟩ := by
      rw [replyPlain, fits, if_pos rfl, replacement, if_neg hkey]
    rw [hreply]
    exact ⟨congrArg Except.ok (hput x), rfl⟩
  | _ => exact ⟨congrArg Except.ok (Entries.put_of_get? hget).symm, rfl⟩

theorem real_tells {get : S → Float} {put : S → Float → S} (hname : name ≠ "ttl_seconds")
    (hget : ∀ s, (values s).get? name = some (.float (get s)))
    (hput : ∀ s x, values (put s x) = (values s).put name (.float x)) :
    (Field.real name get put).Tells values replyPlain name := by
  refine ⟨isNamed _ _, ?_⟩
  rintro key rfl place given m
  exact ⟨_, hget _, takeReal_tells get put (ne_ttl hname) (hget _) (hput _) place given⟩

/-- Nothing but a block has fields of its own. -/
theorem TellsAt.reply {f : Field S} {key : String} (h : f.TellsAt values replyPlain key)
    (hlocal : nameOf key ≠ "local") : f.TellsAt values Config.reply key := by
  intro place given m
  obtain ⟨current, hcurrent, htold⟩ := h place given m
  refine ⟨current, hcurrent, ?_⟩
  rwa [reply_of_ne hlocal]

theorem Tells.reply {f : Field S} (h : f.Tells values replyPlain name) (hlocal : name ≠ "local") :
    f.Tells values Config.reply name :=
  ⟨h.isNamed, fun key hkey => (h.tellsAt key hkey).reply (by rwa [hkey])⟩

end Field

/-- The number of seconds that a whole number gives where any number is kept. -/
def secondsOf : Number Float → Except Fault Json
  | .real x => .ok (.float x)
  | .whole k => (Merge.real k 1).map .float

/-- The time for which results are kept is a number of its own kind. -/
theorem takeLifetime_tells {scaled : Int → Except Fault (Number Float)} {scaledReal : Float → Float}
    {key : String}
    (hwhole : ∀ k n, replacement key (.int k) (.int n) = (scaled n).map numberJson)
    (hreal : ∀ y n, replacement key (.float y) (.int n) = (scaled n).bind secondsOf)
    (hfloat : ∀ y x, replacement key (.float y) (.float x) = .ok (.float (scaledReal x)))
    (place : String) (given : Json) (m : Merging (Caching Float)) :
    Told Topic.caching.values (takeLifetime scaled scaledReal place given) m
      ((replyPlain place key (numberJson m.value.lifetime) given).map
        ((Topic.caching.values m.value).put "ttl_seconds")) := by
  obtain ⟨⟨enabled, maxSize, lifetime⟩, warnings⟩ := m
  cases lifetime with
  | whole k =>
    cases given with
    | int n =>
      have hreply : replyPlain place key (numberJson (.whole k)) (.int n) =
          ⟨(scaled n).map numberJson, []⟩ := by
        rw [numberJson, replyPlain, fits, if_pos rfl, hwhole]
      have htake : takeLifetime scaled scaledReal place (.int n)
          ⟨⟨enabled, maxSize, .whole k⟩, warnings⟩ =
          match scaled n with
          | .ok l => (.ok (), ⟨⟨enabled, maxSize, l⟩, warnings⟩)
          | .error e => (.error e, ⟨⟨enabled, maxSize, .whole k⟩, warnings⟩) := by
        refine (ofExcept_bind (scaled n) _ _).trans ?_
        cases scaled n <;> rfl
      rw [hreply]
      constructor <;> rw [htake] <;> cases scaled n <;> rfl
    | _ => exact ⟨rfl, rfl⟩
  | real y =>
    cases given with
    | int n =>
      have hreply : replyPlain place key (numberJson (.real y)) (.int n) =
          ⟨(scaled n).bind secondsOf, []⟩ := by
        rw [numberJson, replyPlain, fits, if_pos rfl, hreal]
      have htake : takeLifetime scaled scaledReal place (.int n)
          ⟨⟨enabled, maxSize, .real y⟩, warnings⟩ =
          match scaled n with
          | .ok (.real x) => (.ok (), ⟨⟨enabled, maxSize, .real x⟩, warnings⟩)
          | .ok (.whole k) =>
            match Merge.real k 1 with
            | .ok x => (.ok (), ⟨⟨enabled, maxSize, .real x⟩, warnings⟩)
            | .error e => (.error e, ⟨⟨enabled, maxSize, .real y⟩, warnings⟩)
          | .error e => (.error e, ⟨⟨enabled, maxSize, .real y⟩, warnings⟩) := by
        refine (ofExcept_bind (scaled n) _ _).trans ?_
        cases scaled n with
        | error e => rfl
        | ok l =>
          cases l with
          | real x => rfl
          | whole k =>
            refine (ofExcept_bind (Merge.real k 1) _ _).trans ?_
            show _ = match Merge.real k 1 with
              | .ok x => _
              | .error e => _
            cases Merge.real k 1 <;> rfl
      rw [hreply]
      cases hscaled : scaled n with
      | error e => constructor <;> rw [htake, hscaled] <;> rfl
      | ok l =>
        cases l with
        | real x => constructor <;> rw [htake, hscaled] <;> rfl
        | whole k =>
          cases hreal : Merge.real k 1 <;> constructor <;> rw [htake, hscaled] <;>
            simp only [Except.bind, secondsOf, hreal] <;> rfl
    | float x =>
      have hreply : replyPlain place key (numberJson (.real y)) (.float x) =
          ⟨.ok (.float (scaledReal x)), []⟩ := by
        rw [numberJson, replyPlain, fits, if_pos rfl, hfloat]
      rw [hreply]
      exact ⟨rfl, rfl⟩
    | _ => exact ⟨rfl, rfl⟩

/-! ## Entries -/

/-- Fields which together are all that a table shows. -/
structure Tabled (values : S → Entries Json) (answer : String → String → Json → Json → Outcome Json)
    (names : List String) (fields : List (Field S)) : Prop where
  names_eq : ∀ s, (values s).names = names
  known : ∀ key, nameOf key ∈ names → ∃ f ∈ fields, f.isKey key = true
  tellsAt : ∀ f ∈ fields, ∀ key, f.isKey key = true → f.TellsAt values answer key

namespace Tabled

variable {names : List String} {fields : List (Field S)}

theorem exists_name (h : List.Forall₂ (Field.Tells values answer) fields names) {f : Field S}
    (hf : f ∈ fields) : ∃ name ∈ names, f.Tells values answer name := by
  induction h with
  | nil => cases hf
  | cons htells _ ih =>
    rcases List.mem_cons.mp hf with rfl | hf
    · exact ⟨_, List.mem_cons_self, htells⟩
    · obtain ⟨name, hname, htells⟩ := ih hf
      exact ⟨name, List.mem_cons_of_mem _ hname, htells⟩

theorem exists_field (h : List.Forall₂ (Field.Tells values answer) fields names) {name : String}
    (hname : name ∈ names) : ∃ f ∈ fields, f.Tells values answer name := by
  induction h with
  | nil => cases hname
  | cons htells _ ih =>
    rcases List.mem_cons.mp hname with rfl | hname
    · exact ⟨_, List.mem_cons_self, htells⟩
    · obtain ⟨f, hf, htells⟩ := ih hname
      exact ⟨f, List.mem_cons_of_mem _ hf, htells⟩

/-- Fields with names of their own, one for each name of a table. -/
theorem of_forall₂ (hnames : ∀ s, (values s).names = names) (httl : "ttl_seconds" ∉ names)
    (hkey : "ttl" ∉ names) (h : List.Forall₂ (Field.Tells values answer) fields names) :
    Tabled values answer names fields where
  names_eq := hnames
  known key hmem := by
    have hname : nameOf key = fieldName key := by
      refine if_neg ?_
      rintro rfl
      exact httl hmem
    obtain ⟨f, hf, htells⟩ := exists_field h hmem
    exact ⟨f, hf, (htells.isNamed key).mpr hname.symm⟩
  tellsAt f hf key hisKey := by
    obtain ⟨name, hname, htells⟩ := exists_name h hf
    have hfield : fieldName key = name := (htells.isNamed key).mp hisKey
    refine htells.tellsAt key ?_
    rw [nameOf, if_neg, hfield]
    rintro rfl
    rw [← hfield] at hname
    exact hkey hname

/-- Tables without blocks. -/
theorem reply (h : Tabled values replyPlain names fields) (hlocal : "local" ∉ names) :
    Tabled values Config.reply names fields where
  names_eq := h.names_eq
  known := h.known
  tellsAt f hf key hkey place given m := by
    obtain ⟨current, hcurrent, _⟩ := h.tellsAt f hf key hkey place given m
    have hname : nameOf key ∈ names := by
      rw [← h.names_eq m.value]
      exact List.mem_map_of_mem (Entries.mem_of_get? hcurrent)
    exact (h.tellsAt f hf key hkey).reply (fun heq => hlocal (heq ▸ hname)) place given m

/-- One entry does to a section what is told of its table. -/
theorem takeEntry (h : Tabled values answer names fields) (label key : String) (given : Json)
    (m : Merging S) : Told values (takeEntry fields label key given) m
      (accept answer label key given (values m.value)) := by
  unfold Config.takeEntry accept
  cases hfound : fields.find? (·.isKey key) with
  | none =>
    have hunknown : nameOf key ∉ (values m.value).names := by
      rw [h.names_eq]
      intro hmem
      obtain ⟨f, hf, hkey⟩ := h.known key hmem
      exact List.find?_eq_none.mp hfound f hf hkey
    rw [Entries.get?_of_not_mem hunknown]
    exact ⟨rfl, rfl⟩
  | some f =>
    have hkey : f.isKey key = true := by simpa using List.find?_some hfound
    obtain ⟨current, hcurrent, htold⟩ :=
      h.tellsAt f (List.mem_of_find?_eq_some hfound) key hkey (label ++ "." ++ key) given m
    rw [hcurrent]
    exact htold

/-- Entries do to a section what is told of its table. -/
theorem mergeEntries (h : Tabled values answer names fields) (label : String)
    (entries : Entries Json) (m : Merging S) : Told values (mergeEntries fields label entries) m
      (settle answer label entries (values m.value)) := by
  induction entries generalizing m with
  | nil => exact ⟨rfl, rfl⟩
  | cons entry rest ih =>
    obtain ⟨key, given⟩ := entry
    rw [mergeEntries_cons, settle]
    exact (h.takeEntry label key given m).bind ih

end Tabled

/-! ## Sections -/

theorem ownMachine_tabled :
    Tabled ownMachineValues replyPlain Topic.ownMachine.names ownMachineFields := by
  refine .of_forall₂ (fun _ => rfl) (by decide) (by decide) ?_
  refine .cons (Field.text_tells (fun _ => rfl) fun _ _ => rfl) ?_
  refine .cons (Field.text_tells (fun _ => rfl) fun _ _ => rfl) ?_
  refine .cons ⟨Field.isNamed _ _, ?temperature⟩ ?_
  case temperature =>
    intro key hname place given m
    have hkey : key ≠ "ttl" := Field.ne_ttl (by rw [hname]; decide)
    rw [hname]
    obtain ⟨⟨endpoint, model, temperature, maxTokens, enabled⟩, warnings⟩ := m
    cases temperature with
    | real x =>
      refine ⟨.float x, rfl, ?_⟩
      refine Told.congr (y := Field.takeReal (fun _ => x) (fun s y =>
        { s with temperature := .real y }) place given) ?_ rfl
      exact Field.takeReal_tells _ _ hkey rfl (fun _ => rfl) place given
    | whole n =>
      refine ⟨.int n, rfl, ?_⟩
      cases given with
      | int k =>
        have hreply : replyPlain place key (.int n) (.int k) = ⟨.ok (.int k), []⟩ := by
          rw [replyPlain, fits, if_pos rfl, replacement, if_neg hkey]
        rw [hreply]
        exact ⟨rfl, rfl⟩
      | _ => exact ⟨rfl, rfl⟩
  refine .cons (Field.whole_tells (by decide) (fun _ => rfl) fun _ _ => rfl) ?_
  exact .cons (Field.flag_tells (fun _ => rfl) fun _ _ => rfl) .nil

theorem joined_block (endpoint model temperature maxTokens enabled : String) :
    "LocalLLMConfig(" ++ Text.joined ", " ["endpoint" ++ "=" ++ endpoint, "model" ++ "=" ++ model,
      "temperature" ++ "=" ++ temperature, "max_tokens" ++ "=" ++ maxTokens,
      "enabled" ++ "=" ++ enabled] ++ ")" =
    "LocalLLMConfig(endpoint=" ++ endpoint ++ ", model=" ++ model ++ ", temperature=" ++
      temperature ++ ", max_tokens=" ++ maxTokens ++ ", enabled=" ++ enabled ++ ")" := by
  have hopening : "LocalLLMConfig(endpoint=" = "LocalLLMConfig(" ++ ("endpoint" ++ "=") := rfl
  have hmodel : ", model=" = ", " ++ ("model" ++ "=") := rfl
  have htemperature : ", temperature=" = ", " ++ ("temperature" ++ "=") := rfl
  have hmaxTokens : ", max_tokens=" = ", " ++ ("max_tokens" ++ "=") := rfl
  have henabled : ", enabled=" = ", " ++ ("enabled" ++ "=") := rfl
  rw [hopening, hmodel, htemperature, hmaxTokens, henabled]
  simp only [Text.joined, String.intercalate_cons_cons, String.intercalate_singleton,
    String.append_assoc, -String.reduceAppend]

theorem shownBlock_ownMachineValues (s : Provider.LocalService) :
    shownBlock (.obj (ownMachineValues s)) = shownOwnMachine s := by
  obtain ⟨endpoint, model, temperature, maxTokens, enabled⟩ := s
  cases temperature <;> exact joined_block _ _ _ _ _

theorem providers_tabled :
    Tabled Topic.providers.values reply Topic.providers.names providerFields := by
  refine .of_forall₂ (fun _ => rfl) (by decide) (by decide) ?_
  refine .cons (.reply (Field.text_tells (fun _ => rfl) fun _ _ => rfl) (by decide)) ?_
  refine .cons (.reply (Field.items_tells (fun _ => rfl) fun _ _ => rfl) (by decide)) ?_
  refine .cons (.reply (Field.table_tells (fun _ => rfl) fun _ _ => rfl) (by decide)) ?_
  refine .cons (.reply (Field.table_tells (fun _ => rfl) fun _ _ => rfl) (by decide)) ?_
  refine .cons ⟨Field.isNamed _ _, ?block⟩ .nil
  intro key hname place given m
  refine ⟨.obj (ownMachineValues m.value.ownMachine), by rw [hname]; rfl, ?_⟩
  rw [hname]
  cases given with
  | obj entries =>
    obtain ⟨hresult, hwarnings⟩ := ownMachine_tabled.mergeEntries place entries
      ⟨m.value.ownMachine, m.warnings⟩
    rw [reply_block hname]
    refine ⟨?_, hwarnings⟩
    show Except.map _ (mergeEntries ownMachineFields place entries _).1 = Except.map _ (Except.map _ _)
    rw [← hresult]
    cases (mergeEntries ownMachineFields place entries ⟨m.value.ownMachine, m.warnings⟩).1 <;> rfl
  | _ =>
    rw [reply_not_block hname _ _ rfl, shownBlock_ownMachineValues]
    exact ⟨rfl, rfl⟩

theorem caching_tabled :
    Tabled Topic.caching.values replyPlain Topic.caching.names cachingFields where
  names_eq _ := rfl
  known := by
    intro key hmem
    unfold nameOf at hmem
    split at hmem
    · exact ⟨_, List.mem_cons_self, by simpa⟩
    · simp only [Topic.names, List.mem_cons, List.not_mem_nil, or_false] at hmem
      rcases hmem with h | h | h
      · exact ⟨cachingFields[1], List.getElem_mem _, (Field.isNamed _ _ _).mpr h⟩
      · exact ⟨cachingFields[2], List.getElem_mem _, (Field.isNamed _ _ _).mpr h⟩
      · exact ⟨cachingFields[3], List.getElem_mem _, (Field.isNamed _ _ _).mpr h⟩
  tellsAt := by
    have hother {key name : String} (hname : name ≠ "ttl") (h : fieldName key = name) :
        nameOf key = name ∧ key ≠ "ttl" := by
      have hkey : key ≠ "ttl" := by
        rintro rfl
        exact hname h.symm
      exact ⟨(if_neg hkey).trans h, hkey⟩
    unfold cachingFields
    refine List.forall_mem_cons.mpr ⟨?_, List.forall_mem_cons.mpr ⟨?_,
      List.forall_mem_cons.mpr ⟨?_, List.forall_mem_singleton.mpr ?_⟩⟩⟩
    · intro key hkey place given m
      obtain rfl : key = "ttl" := by simpa using hkey
      refine ⟨_, rfl, takeLifetime_tells (fun _ n => ?_) (fun _ n => ?_) (fun _ x => ?_) _ _ _⟩
      · rw [replacement, if_pos rfl]
        cases Merge.real n 1000 <;> rfl
      · rw [replacement, if_pos rfl]
        cases Merge.real n 1000 <;> rfl
      · rw [replacement, if_pos rfl]
    · intro key hkey
      exact (Field.flag_tells (fun _ => rfl) fun _ _ => rfl).tellsAt key
        (hother (by decide) ((Field.isNamed _ _ _).mp hkey)).1
    · intro key hkey
      exact (Field.whole_tells (by decide) (fun _ => rfl) fun _ _ => rfl).tellsAt key
        (hother (by decide) ((Field.isNamed _ _ _).mp hkey)).1
    · intro key hkey place given m
      obtain ⟨hname, hkey⟩ := hother (by decide) ((Field.isNamed _ _ _).mp hkey)
      rw [hname]
      refine ⟨_, rfl, takeLifetime_tells (fun _ n => ?_) (fun _ n => ?_) (fun _ x => ?_) _ _ _⟩
      · rw [replacement, if_neg hkey]
        rfl
      · rw [replacement, if_neg hkey]
        rfl
      · rw [replacement, if_neg hkey]
        rfl

theorem budget_tabled :
    Tabled Topic.budget.values replyPlain Topic.budget.names budgetFields := by
  refine .of_forall₂ (fun _ => rfl) (by decide) (by decide) ?_
  refine .cons (Field.real_tells (by decide) (fun _ => rfl) fun _ _ => rfl) ?_
  refine .cons (Field.real_tells (by decide) (fun _ => rfl) fun _ _ => rfl) ?_
  exact .cons (Field.flag_tells (fun _ => rfl) fun _ _ => rfl) .nil

theorem quality_tabled :
    Tabled Topic.quality.values replyPlain Topic.quality.names qualityFields := by
  refine .of_forall₂ (fun _ => rfl) (by decide) (by decide) ?_
  refine .cons (Field.real_tells (by decide) (fun _ => rfl) fun _ _ => rfl) ?_
  refine .cons (Field.flag_tells (fun _ => rfl) fun _ _ => rfl) ?_
  exact .cons (Field.flag_tells (fun _ => rfl) fun _ _ => rfl) .nil

theorem project_tabled :
    Tabled Topic.project.values replyPlain Topic.project.names projectFields := by
  refine .of_forall₂ (fun _ => rfl) (by decide) (by decide) ?_
  refine .cons (Field.whole_tells (by decide) (fun _ => rfl) fun _ _ => rfl) ?_
  refine .cons (Field.whole_tells (by decide) (fun _ => rfl) fun _ _ => rfl) ?_
  exact .cons (Field.flag_tells (fun _ => rfl) fun _ _ => rfl) .nil

theorem tools_tabled : Tabled Topic.tools.values replyPlain Topic.tools.names toolFields := by
  refine .of_forall₂ (fun _ => rfl) (by decide) (by decide) ?_
  refine .cons (Field.text_tells (fun _ => rfl) fun _ _ => rfl) ?_
  refine .cons (Field.text_tells (fun _ => rfl) fun _ _ => rfl) ?_
  refine .cons (Field.text_tells (fun _ => rfl) fun _ _ => rfl) ?_
  refine .cons (Field.text_tells (fun _ => rfl) fun _ _ => rfl) ?_
  exact .cons (Field.real_tells (by decide) (fun _ => rfl) fun _ _ => rfl) .nil

theorem Topic.tabled : (t : Topic) → Tabled t.values reply t.names t.fields
  | providers => providers_tabled
  | caching => caching_tabled.reply (by decide)
  | budget => budget_tabled.reply (by decide)
  | quality => quality_tabled.reply (by decide)
  | project => project_tabled.reply (by decide)
  | tools => tools_tabled.reply (by decide)
  | ownMachine => ownMachine_tabled.reply (by decide)

/-- What the entries of a section make of it is told of its table. -/
theorem Topic.mergeEntries_settle (t : Topic) (label : String) (entries : Entries Json)
    (m : Merging t.Part) : Told t.values (mergeEntries t.fields label entries) m
      (settle reply label entries (t.values m.value)) := t.tabled.mergeEntries label entries m

end Cartridge.Config
