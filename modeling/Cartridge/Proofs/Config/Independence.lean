import Cartridge.Proofs.Config.Tables

/-!
# Entries for different fields

Entries for different fields of a section do not disturb each other. What a field holds in the end
comes of its own entry and of what it held before, so the order of the entries does not matter, nor
do the entries that are rejected; each of those is reported once.

* `own?`, `Apart`: the entry for a field, where no two entries are for the same one.
* `settledBy`: the table in which each field has what comes of its own entry.
* `settle_settledBy`: entries for different fields end with that table.
* `Orderly`, `Rearranged`, `rejected`, `accepted`: entries for different fields, their orders, and
  which of them change nothing.
* `mergeEntries_orderly`: so it is with the entries of every section.
-/

namespace Cartridge.Config

open Json Run

/-! ## The entry for a field -/

/-- The entry for a field. -/
def own? (name : String) (es : Entries Json) : Option (String × Json) :=
  es.find? fun e => nameOf e.1 = name

/-- No two entries are for one of some fields. -/
def Apart (names : List String) (es : Entries Json) : Prop :=
  es.Pairwise fun e e' => nameOf e.1 = nameOf e'.1 → nameOf e.1 ∉ names

theorem own?_cons_of_ne {name : String} {e : String × Json} (h : nameOf e.1 ≠ name)
    (es : Entries Json) : own? name (e :: es) = own? name es :=
  List.find?_cons_of_neg (by simpa using h)

theorem own?_cons_self (e : String × Json) (es : Entries Json) :
    own? (nameOf e.1) (e :: es) = some e :=
  List.find?_cons_of_pos (by simp)

namespace Apart

variable {names : List String} {es es' : Entries Json} {name : String}

theorem own?_eq_some_iff (h : Apart names es) (hname : name ∈ names) {e : String × Json} :
    own? name es = some e ↔ e ∈ es ∧ nameOf e.1 = name := by
  constructor
  · intro hown
    exact ⟨List.mem_of_find?_eq_some hown, by simpa using List.find?_some hown⟩
  · rintro ⟨hmem, rfl⟩
    induction es with
    | nil => cases hmem
    | cons first rest ih =>
      obtain ⟨hfirst, hrest⟩ := List.pairwise_cons.mp h
      rcases List.mem_cons.mp hmem with rfl | hmem
      · exact own?_cons_self e rest
      · rw [own?_cons_of_ne, ih hrest hmem]
        intro heq
        exact hfirst e hmem heq (heq ▸ hname)

theorem perm (h : Apart names es) (hperm : es.Perm es') : Apart names es' :=
  hperm.pairwise h fun hab heq => heq ▸ hab heq.symm

/-- The entry for a field is the same in every order. -/
theorem own?_perm (h : Apart names es) (hname : name ∈ names) (hperm : es.Perm es') :
    own? name es = own? name es' := by
  refine Option.ext fun e => ?_
  rw [h.own?_eq_some_iff hname, (h.perm hperm).own?_eq_some_iff hname, hperm.mem_iff]

theorem filter (h : Apart names es) (p : String × Json → Bool) : Apart names (es.filter p) :=
  List.Pairwise.filter p h

theorem own?_filter (h : Apart names es) (hname : name ∈ names) (p : String × Json → Bool) :
    own? name (es.filter p) = (own? name es).filter p := by
  refine Option.ext fun e => ?_
  rw [(h.filter p).own?_eq_some_iff hname, List.mem_filter, Option.filter_eq_some_iff,
    h.own?_eq_some_iff hname]
  tauto

end Apart

/-! ## What comes of entries for different fields -/

/-- The table in which each field has what comes of its own entry. -/
def settledBy (value : Json → String × Json → Json) (es table : Entries Json) : Entries Json :=
  table.map fun field => (field.1, ((own? field.1 es).map (value field.2)).getD field.2)

theorem settledBy_congr {value value' : Json → String × Json → Json} {es es' table : Entries Json}
    (h : ∀ field ∈ table, ((own? field.1 es).map (value field.2)).getD field.2 =
      ((own? field.1 es').map (value' field.2)).getD field.2) :
    settledBy value es table = settledBy value' es' table :=
  List.map_congr_left fun field hfield => by rw [h field hfield]

theorem Apart.settledBy_perm {table es es' : Entries Json} (h : Apart table.names es)
    (value : Json → String × Json → Json) (hperm : es.Perm es') :
    settledBy value es' table = settledBy value es table :=
  settledBy_congr fun _ hfield => by rw [h.own?_perm (List.mem_map_of_mem hfield) hperm]

/-- Entries that leave their fields as they are may be left out. -/
theorem Apart.settledBy_filter {table es : Entries Json} (h : Apart table.names es)
    {value : Json → String × Json → Json} {p : String × Json → Bool}
    (hp : ∀ e ∈ es, ∀ field ∈ table, nameOf e.1 = field.1 → p e = false →
      value field.2 e = field.2) :
    settledBy value (es.filter p) table = settledBy value es table := by
  refine settledBy_congr fun field hfield => ?_
  rw [h.own?_filter (List.mem_map_of_mem hfield)]
  cases hown : own? field.1 es with
  | none => rfl
  | some e =>
    obtain ⟨he, hname⟩ := (h.own?_eq_some_iff (List.mem_map_of_mem hfield)).mp hown
    cases hpe : p e with
    | true => rw [Option.filter_some_pos hpe]
    | false =>
      rw [Option.filter_some_neg (by simpa using hpe)]
      exact (hp e he field hfield hname hpe).symm

/-- What is said of an entry depends only on what its field holds. -/
theorem said_accept_congr (answer : String → String → Json → Json → Outcome Json)
    (label key : String) (given : Json) {table table' : Entries Json}
    (h : table'.get? (nameOf key) = table.get? (nameOf key)) :
    (accept answer label key given table').said = (accept answer label key given table).said := by
  rw [accept, accept, h]
  cases table.get? (nameOf key) <;> rfl

section

variable {answer : String → String → Json → Json → Outcome Json}
  {value : Json → String × Json → Json} {key : String} {given current : Json}
  {rest table : Entries Json}

theorem settledBy_cons_of_unknown (h : nameOf key ∉ table.names) :
    settledBy value ((key, given) :: rest) table = settledBy value rest table := by
  refine settledBy_congr fun field hfield => ?_
  rw [own?_cons_of_ne]
  rintro heq
  exact h (heq ▸ List.mem_map_of_mem hfield)

/-- The entry for a field leaves to the others what it did not change. -/
theorem settledBy_cons (hnodup : table.names.Nodup)
    (hcurrent : table.get? (nameOf key) = some current) (hown : own? (nameOf key) rest = none) :
    settledBy value ((key, given) :: rest) table =
      settledBy value rest (table.put (nameOf key) (value current (key, given))) := by
  rw [Entries.put_of_mem hnodup (List.mem_map_of_mem (Entries.mem_of_get? hcurrent)), settledBy,
    settledBy, List.map_map]
  refine List.map_congr_left fun field hfield => ?_
  obtain ⟨name, held⟩ := field
  dsimp only [Function.comp]
  by_cases hname : name = nameOf key
  · subst hname
    obtain rfl : held = current :=
      Option.some.inj ((Entries.get?_of_mem hnodup hfield).symm.trans hcurrent)
    rw [own?_cons_self (key, given), if_pos rfl, hown]
    rfl
  · rw [own?_cons_of_ne (Ne.symm hname), if_neg hname]

/-- Entries for different fields give each field what comes of its own entry. -/
theorem settle_settledBy (label : String) {es : Entries Json} (hnodup : table.names.Nodup)
    (hapart : Apart table.names es)
    (hanswer : ∀ e ∈ es, ∀ current, table.get? (nameOf e.1) = some current →
      (answer (label ++ "." ++ e.1) e.1 current e.2).result = .ok (value current e)) :
    (settle answer label es table).result = .ok (settledBy value es table) ∧
      (settle answer label es table).said.length =
        (es.map fun e => (accept answer label e.1 e.2 table).said.length).sum := by
  induction es generalizing table with
  | nil => exact ⟨congrArg Except.ok (List.map_id table).symm, rfl⟩
  | cons e rest ih =>
    obtain ⟨key, given⟩ := e
    obtain ⟨hfirst, hrest⟩ := List.pairwise_cons.mp hapart
    have hlater := fun e he => hanswer e (List.mem_cons_of_mem _ he)
    rw [settle, List.map_cons, List.sum_cons]
    cases hcurrent : table.get? (nameOf key) with
    | none =>
      have hunknown : nameOf key ∉ table.names := Entries.not_mem_of_get? hcurrent
      have hsettle : (accept answer label key given table).result = .ok table := by
        rw [accept, hcurrent]
      obtain ⟨hresult, hsaid⟩ := ih hnodup hrest hlater
      rw [Outcome.andThen, hsettle, settledBy_cons_of_unknown hunknown]
      exact ⟨hresult, by rw [List.length_append, hsaid, Nat.add_comm]⟩
    | some current =>
      have hknown : nameOf key ∈ table.names := List.mem_map_of_mem (Entries.mem_of_get? hcurrent)
      have hnames : (table.put (nameOf key) (value current (key, given))).names = table.names := by
        rw [Entries.names_put, if_pos hknown]
      have hnodup' : (table.put (nameOf key) (value current (key, given))).names.Nodup := by
        rwa [hnames]
      have hother (e : String × Json) (he : e ∈ rest) : nameOf e.1 ≠ nameOf key :=
        fun heq => hfirst e he heq.symm hknown
      have hsettle : (accept answer label key given table).result =
          .ok (table.put (nameOf key) (value current (key, given))) := by
        rw [accept, hcurrent]
        exact congrArg (Except.map _) (hanswer (key, given) List.mem_cons_self current hcurrent)
      have hown : own? (nameOf key) rest = none := by
        refine List.find?_eq_none.mpr fun e he => ?_
        simpa using hother e he
      obtain ⟨hresult, hsaid⟩ := ih hnodup' (hnames ▸ hrest) fun e he current' hcurrent' => hlater e he current' (by
          rwa [Entries.get?_put_of_ne _ _ (hother e he)] at hcurrent')
      rw [Outcome.andThen, hsettle, settledBy_cons hnodup hcurrent hown]
      refine ⟨hresult, ?_⟩
      rw [List.length_append, hsaid, Nat.add_comm]
      congr 2
      refine List.map_congr_left fun e he => ?_
      rw [said_accept_congr _ _ _ _ (Entries.get?_put_of_ne _ _ (hother e he))]

end

/-! ## Values that are taken and values that are rejected -/

/-- What a field holds after its entry: the value of the entry takes the place where it fits. -/
def taken (current : Json) (e : String × Json) : Json :=
  if fits current e.2 then
    match replacement e.1 current e.2 with
    | .ok new => new
    | .error _ => current
  else current

/-- An entry is rejected when no field has its name, or its value does not fit. -/
def refused (table : Entries Json) (e : String × Json) : Bool :=
  match table.get? (nameOf e.1) with
  | none => true
  | some current => !fits current e.2

theorem refused_eq {table : Entries Json} {e : String × Json} {current : Json}
    (hcurrent : table.get? (nameOf e.1) = some current) :
    refused table e = !fits current e.2 := by
  rw [refused, hcurrent]

theorem fits_of_refused {table : Entries Json} (hnodup : table.names.Nodup) {e field : String × Json}
    (hfield : field ∈ table) (hname : nameOf e.1 = field.1) (h : refused table e = true) :
    fits field.2 e.2 = false := by
  rw [refused_eq (hname ▸ Entries.get?_of_mem hnodup hfield)] at h
  simpa using h

theorem length_said_replyPlain (place key : String) (current given : Json) :
    (replyPlain place key current given).said.length = if !fits current given then 1 else 0 := by
  unfold replyPlain
  cases fits current given <;> rfl

/-- Entries for different fields, none with a number that is too large for its field. -/
structure Orderly (table es : Entries Json) : Prop where
  apart : Apart table.names es
  bounded : ∀ e ∈ es, ∀ current, table.get? (nameOf e.1) = some current →
    fits current e.2 = true → ∃ new, replacement e.1 current e.2 = .ok new

namespace Orderly

variable {table es es' : Entries Json}

theorem perm (h : Orderly table es) (hperm : es.Perm es') : Orderly table es' where
  apart := h.apart.perm hperm
  bounded e he := h.bounded e (hperm.mem_iff.mpr he)

theorem filter (h : Orderly table es) (p : String × Json → Bool) : Orderly table (es.filter p) where
  apart := h.apart.filter p
  bounded e he := h.bounded e (List.mem_of_mem_filter he)

theorem replyPlain (h : Orderly table es) {e : String × Json} (he : e ∈ es) {current : Json}
    (hcurrent : table.get? (nameOf e.1) = some current) (place : String) :
    (replyPlain place e.1 current e.2).result = .ok (taken current e) := by
  unfold Config.replyPlain taken
  by_cases hfits : fits current e.2 = true
  · obtain ⟨new, hnew⟩ := h.bounded e he current hcurrent hfits
    rw [if_pos hfits, if_pos hfits, hnew]
  · rw [if_neg hfits, if_neg hfits]

theorem said_accept (label : String) (table : Entries Json) (e : String × Json) :
    (accept Config.replyPlain label e.1 e.2 table).said.length =
      if refused table e then 1 else 0 := by
  cases hcurrent : table.get? (nameOf e.1) with
  | none => rw [accept, refused, hcurrent]; rfl
  | some current =>
    rw [accept, refused_eq hcurrent, hcurrent]
    exact length_said_replyPlain _ _ _ _

theorem settle (h : Orderly table es) (hnodup : table.names.Nodup) (label : String) :
    (settle Config.replyPlain label es table).result = .ok (settledBy taken es table) ∧
      (settle Config.replyPlain label es table).said.length =
        (es.filter (refused table)).length := by
  obtain ⟨hresult, hsaid⟩ := settle_settledBy label hnodup h.apart
    fun e he current hcurrent => h.replyPlain he hcurrent _
  refine ⟨hresult, hsaid.trans ?_⟩
  rw [List.map_congr_left fun e _ => said_accept label table e]
  clear hresult hsaid h
  induction es with
  | nil => rfl
  | cons e rest ih =>
    rw [List.map_cons, List.sum_cons, ih, List.filter_cons]
    cases refused table e with
    | true => exact Nat.add_comm _ _
    | false => exact Nat.zero_add _

theorem settledBy_perm (h : Orderly table es) (hperm : es.Perm es') :
    settledBy taken es' table = settledBy taken es table := h.apart.settledBy_perm taken hperm

/-- The rejected entries change nothing. -/
theorem settledBy_filter (h : Orderly table es) (hnodup : table.names.Nodup) :
    settledBy taken (es.filter fun e => !refused table e) table = settledBy taken es table := by
  refine h.apart.settledBy_filter fun e _ field hfield hname hrefused => ?_
  rw [taken, fits_of_refused hnodup hfield hname (by simpa using hrefused)]
  rfl

end Orderly

/-! ## Entries that give entries for a block -/

/-- The fields of a block and the entries that an entry gives for them. -/
def within? (current : Json) (e : String × Json) : Option (Entries Json × Entries Json) :=
  if nameOf e.1 = "local" then
    match current, e.2 with
    | .obj block, .obj inner => some (block, inner)
    | _, _ => none
  else none

/-- The fields of a block in a table and the entries that an entry gives for them. -/
def inner? (table : Entries Json) (e : String × Json) : Option (Entries Json × Entries Json) :=
  (table.get? (nameOf e.1)).bind (within? · e)

/-- What a field that may be a block holds after its entry. -/
def takenWithin (current : Json) (e : String × Json) : Json :=
  match within? current e with
  | some (block, inner) => .obj (settledBy taken inner block)
  | none => taken current e

/-- Entries for different fields, also within a block. -/
structure OrderlyWithin (table es : Entries Json) : Prop extends Orderly table es where
  within : ∀ e ∈ es, ∀ block inner, inner? table e = some (block, inner) → Orderly block inner

/-- An entry that is rejected, or those that it gives for a block and that are rejected. -/
def rejectedOf (table : Entries Json) (e : String × Json) : Entries Json :=
  if refused table e then [e]
  else
    match inner? table e with
    | some (block, inner) => inner.filter (refused block)
    | none => []

/-- The rejected entries, also within a block. -/
def rejected (table es : Entries Json) : Entries Json := es.flatMap (rejectedOf table)

/-- An entry that gives other entries for its block. -/
def withInner (table : Entries Json) (change : Entries Json → Entries Json → Entries Json)
    (e : String × Json) : String × Json :=
  match inner? table e with
  | some (block, inner) => (e.1, .obj (change block inner))
  | none => e

/-- The entries that are left without the rejected ones, also within a block. -/
def accepted (table es : Entries Json) : Entries Json :=
  (es.filter fun e => !refused table e).map
    (withInner table fun block inner => inner.filter fun e => !refused block e)

/-- Entries in another order, also within a block. -/
def Rearranged (table es es' : Entries Json) : Prop :=
  ∃ order : Entries Json → Entries Json, (∀ inner, List.Perm inner (order inner)) ∧
    (es.map (withInner table fun _ inner => order inner)).Perm es'

theorem within?_eq_some {current : Json} {e : String × Json} {block inner : Entries Json}
    (h : within? current e = some (block, inner)) :
    nameOf e.1 = "local" ∧ current = .obj block ∧ e.2 = .obj inner := by
  unfold within? at h
  split at h
  · rename_i hname
    split at h
    · rename_i hgiven
      cases h
      exact ⟨hname, rfl, hgiven⟩
    · cases h
  · cases h

theorem inner?_eq_some {table : Entries Json} {e : String × Json} {block inner : Entries Json}
    (h : inner? table e = some (block, inner)) :
    table.get? (nameOf e.1) = some (.obj block) ∧ within? (.obj block) e = some (block, inner) := by
  obtain ⟨current, hcurrent, hwithin⟩ := Option.bind_eq_some_iff.mp h
  obtain ⟨_, rfl, _⟩ := within?_eq_some hwithin
  exact ⟨hcurrent, hwithin⟩

/-- A table with fields of different names, of which the one for a block is a block. -/
structure Sound (table : Entries Json) : Prop where
  nodup : table.names.Nodup
  block : ∀ current, table.get? "local" = some current →
    ∃ block, current = .obj block ∧ (Entries.names block).Nodup

theorem Topic.sound (t : Topic) (s : t.Part) : Sound (t.values s) where
  nodup := by
    rw [names_values]
    exact t.nodup_names
  block current hcurrent := by
    cases t with
    | providers =>
      obtain rfl : Json.obj (ownMachineValues s.ownMachine) = current := Option.some.inj hcurrent
      exact ⟨_, rfl, ownMachine.nodup_names⟩
    | _ => cases hcurrent

theorem inner?_eq {table : Entries Json} {e : String × Json} {current : Json}
    (hcurrent : table.get? (nameOf e.1) = some current) :
    inner? table e = within? current e := by
  rw [inner?, hcurrent, Option.bind_some]

/-- A value for a block that is not an object does not fit it. -/
theorem fits_of_within? {block : Entries Json} {e : String × Json} (hlocal : nameOf e.1 = "local")
    (h : within? (.obj block) e = none) : fits (.obj block) e.2 = false := by
  obtain ⟨key, given⟩ := e
  unfold within? at h
  rw [if_pos hlocal] at h
  cases given with
  | obj inner => cases h
  | _ => rfl

theorem Sound.nodup_inner {table : Entries Json} (h : Sound table) {e : String × Json}
    {block inner : Entries Json} (hinner : inner? table e = some (block, inner)) :
    (Entries.names block).Nodup := by
  obtain ⟨hcurrent, hwithin⟩ := inner?_eq_some hinner
  obtain ⟨hlocal, _, _⟩ := within?_eq_some hwithin
  obtain ⟨_, hblock, hnodup⟩ := h.block _ (hlocal ▸ hcurrent)
  cases hblock
  exact hnodup

namespace OrderlyWithin

variable {table es es' : Entries Json}

/-- What comes of an entry, and how many are reported. -/
theorem reply (h : OrderlyWithin table es) (htable : Sound table) {e : String × Json} (he : e ∈ es)
    {current : Json} (hcurrent : table.get? (nameOf e.1) = some current) (place : String) :
    (reply place e.1 current e.2).result = .ok (takenWithin current e) ∧
      (Config.reply place e.1 current e.2).said.length = (rejectedOf table e).length := by
  rw [rejectedOf, refused_eq hcurrent, inner?_eq hcurrent, takenWithin]
  cases hwithin : within? current e with
  | some inside =>
    obtain ⟨block, inner⟩ := inside
    obtain ⟨hlocal, rfl, hgiven⟩ := within?_eq_some hwithin
    have hinside : inner? table e = some (block, inner) := (inner?_eq hcurrent).trans hwithin
    obtain ⟨hresult, hsaid⟩ :=
      (h.within e he block inner hinside).settle (htable.nodup_inner hinside) place
    rw [hgiven, reply_block hlocal]
    exact ⟨congrArg (Except.map _) hresult, hsaid⟩
  | none =>
    by_cases hlocal : nameOf e.1 = "local"
    · obtain ⟨block, rfl, _⟩ := htable.block current (hlocal ▸ hcurrent)
      have hfits := fits_of_within? hlocal hwithin
      rw [reply_not_block hlocal _ _ hfits, hfits, taken, hfits]
      exact ⟨rfl, rfl⟩
    · rw [reply_of_ne hlocal, h.replyPlain he hcurrent, length_said_replyPlain]
      refine ⟨rfl, ?_⟩
      cases fits current e.2 <;> rfl

/-- What comes of the entries, and how many are reported. -/
theorem settle (h : OrderlyWithin table es) (htable : Sound table) (label : String) :
    (settle Config.reply label es table).result = .ok (settledBy takenWithin es table) ∧
      (settle Config.reply label es table).said.length = (rejected table es).length := by
  obtain ⟨hresult, hsaid⟩ := settle_settledBy label htable.nodup h.apart
    fun e he current hcurrent => (h.reply htable he hcurrent _).1
  refine ⟨hresult, hsaid.trans ?_⟩
  rw [rejected, List.length_flatMap]
  refine congrArg List.sum (List.map_congr_left fun e he => ?_)
  cases hcurrent : table.get? (nameOf e.1) with
  | none => rw [accept, rejectedOf, refused, hcurrent]; rfl
  | some current =>
    rw [accept, hcurrent]
    exact (h.reply htable he hcurrent _).2

theorem perm (h : OrderlyWithin table es) (hperm : es.Perm es') : OrderlyWithin table es' where
  toOrderly := h.toOrderly.perm hperm
  within e he := h.within e (hperm.mem_iff.mpr he)

end OrderlyWithin

/-! ## Other entries for a block -/

section

variable {table es : Entries Json} {change : Entries Json → Entries Json → Entries Json}

theorem fst_withInner (e : String × Json) : (withInner table change e).1 = e.1 := by
  unfold withInner
  split <;> rfl

theorem inner?_withInner (e : String × Json) :
    inner? table (withInner table change e) =
      (inner? table e).map fun inside => (inside.1, change inside.1 inside.2) := by
  unfold withInner
  cases hinner : inner? table e with
  | none => exact hinner
  | some inside =>
    obtain ⟨block, inner⟩ := inside
    obtain ⟨hcurrent, hwithin⟩ := inner?_eq_some hinner
    obtain ⟨hlocal, _, _⟩ := within?_eq_some hwithin
    exact (inner?_eq (e := (e.1, .obj (change block inner))) hcurrent).trans (if_pos hlocal)

theorem own?_map_withInner (name : String) :
    own? name (es.map (withInner table change)) = (own? name es).map (withInner table change) := by
  rw [own?, List.find?_map, own?]
  congr 2
  funext e
  simp only [Function.comp, fst_withInner]

/-- What an entry gives for a block fits it whatever it is. -/
theorem refused_withInner (e : String × Json) :
    refused table (withInner table change e) = refused table e := by
  unfold withInner
  cases hinner : inner? table e with
  | none => rfl
  | some inside =>
    obtain ⟨block, inner⟩ := inside
    obtain ⟨hcurrent, hwithin⟩ := inner?_eq_some hinner
    obtain ⟨_, _, hgiven⟩ := within?_eq_some hwithin
    rw [refused_eq hcurrent, hgiven]
    exact refused_eq (e := (e.1, .obj (change block inner))) hcurrent

/-- None of the entries that are left is rejected. -/
theorem rejected_accepted (table es : Entries Json) : rejected table (accepted table es) = [] := by
  refine List.flatMap_eq_nil_iff.mpr fun e' he' => ?_
  obtain ⟨e, he, rfl⟩ := List.mem_map.mp he'
  have hrefused : refused table e = false := by simpa using (List.mem_filter.mp he).2
  rw [rejectedOf, refused_withInner, hrefused, inner?_withInner]
  cases inner? table e with
  | none => rfl
  | some inside =>
    refine (List.filter_filter ..).trans (List.filter_eq_nil_iff.mpr fun e _ => ?_)
    cases refused inside.1 e <;> simp

namespace OrderlyWithin

/-- A change of what is given for a block that stays in order. -/
theorem map_withInner (h : OrderlyWithin table es)
    (hchange : ∀ block inner, Orderly block inner → Orderly block (change block inner)) :
    OrderlyWithin table (es.map (withInner table change)) where
  apart := List.pairwise_map.mpr (h.apart.imp fun hab => by rwa [fst_withInner, fst_withInner])
  bounded := by
    intro e' he' current hcurrent hfits
    obtain ⟨e, he, rfl⟩ := List.mem_map.mp he'
    rw [fst_withInner] at hcurrent ⊢
    unfold withInner at hfits ⊢
    cases hinner : inner? table e with
    | none =>
      rw [hinner] at hfits
      exact h.bounded e he current hcurrent hfits
    | some inside =>
      obtain ⟨block, inner⟩ := inside
      obtain ⟨hblock, _⟩ := inner?_eq_some hinner
      obtain rfl : Json.obj block = current := Option.some.inj (hblock.symm.trans hcurrent)
      exact ⟨_, rfl⟩
  within := by
    intro e' he' block inner hinner
    obtain ⟨e, he, rfl⟩ := List.mem_map.mp he'
    rw [inner?_withInner] at hinner
    obtain ⟨⟨block, inner⟩, hinside, heq⟩ := Option.map_eq_some_iff.mp hinner
    cases heq
    exact hchange block inner (h.within e he block inner hinside)

/-- A change of what is given for a block that makes no difference to the block. -/
theorem settledBy_map_withInner (h : OrderlyWithin table es) (hnodup : table.names.Nodup)
    (hchange : ∀ e ∈ es, ∀ block inner, inner? table e = some (block, inner) →
      settledBy taken (change block inner) block = settledBy taken inner block) :
    settledBy takenWithin (es.map (withInner table change)) table =
      settledBy takenWithin es table := by
  refine settledBy_congr fun field hfield => ?_
  rw [own?_map_withInner, Option.map_map]
  congr 1
  refine Option.map_congr fun e hown => ?_
  obtain ⟨he, hname⟩ := (h.apart.own?_eq_some_iff (List.mem_map_of_mem hfield)).mp hown
  have hcurrent : table.get? (nameOf e.1) = some field.2 := by
    rw [hname, Entries.get?_of_mem hnodup hfield]
  have hinner : within? field.2 (withInner table change e) =
      (within? field.2 e).map fun inside => (inside.1, change inside.1 inside.2) := by
    rw [← inner?_eq (by rwa [fst_withInner]), inner?_withInner, inner?_eq hcurrent]
  show takenWithin field.2 (withInner table change e) = takenWithin field.2 e
  rw [takenWithin, takenWithin, hinner]
  cases hwithin : within? field.2 e with
  | none =>
    rw [withInner, inner?_eq hcurrent, hwithin]
    rfl
  | some inside =>
    exact congrArg Json.obj (hchange e he _ _ ((inner?_eq hcurrent).trans hwithin))

theorem filter (h : OrderlyWithin table es) (p : String × Json → Bool) :
    OrderlyWithin table (es.filter p) where
  toOrderly := h.toOrderly.filter p
  within e he := h.within e (List.mem_of_mem_filter he)

/-- The rejected entries change nothing. -/
theorem settledBy_accepted (h : OrderlyWithin table es) (htable : Sound table) :
    settledBy takenWithin (accepted table es) table = settledBy takenWithin es table := by
  rw [accepted, (h.filter _).settledBy_map_withInner htable.nodup]
  · refine h.apart.settledBy_filter fun e _ field hfield hname hrefused => ?_
    have hfits := fits_of_refused htable.nodup hfield hname (by simpa using hrefused)
    have hwithin : within? field.2 e = none := by
      refine Option.eq_none_iff_forall_ne_some.mpr fun inside hinside => ?_
      obtain ⟨_, hblock, hgiven⟩ := within?_eq_some hinside
      rw [hblock, hgiven] at hfits
      cases hfits
    rw [takenWithin, hwithin]
    dsimp only
    rw [taken, hfits]
    rfl
  · intro e he block inner hinner
    exact (h.within e (List.mem_of_mem_filter he) block inner hinner).settledBy_filter
      (htable.nodup_inner hinner)

theorem accepted (h : OrderlyWithin table es) : OrderlyWithin table (accepted table es) :=
  (h.filter _).map_withInner fun _ _ hinner => hinner.filter _

theorem rearranged {es' : Entries Json} (h : OrderlyWithin table es)
    (hes : Rearranged table es es') : OrderlyWithin table es' := by
  obtain ⟨order, horder, hperm⟩ := hes
  exact (h.map_withInner fun _ inner hinner => hinner.perm (horder inner)).perm hperm

theorem settledBy_rearranged {es' : Entries Json} (h : OrderlyWithin table es)
    (htable : Sound table) (hes : Rearranged table es es') :
    settledBy takenWithin es' table = settledBy takenWithin es table := by
  obtain ⟨order, horder, hperm⟩ := hes
  have hmapped : OrderlyWithin table (es.map (withInner table fun _ inner => order inner)) :=
    h.map_withInner fun _ inner hinner => hinner.perm (horder inner)
  rw [hmapped.apart.settledBy_perm takenWithin hperm]
  exact h.settledBy_map_withInner htable.nodup fun e he block inner hinside =>
    (h.within e he block inner hinside).settledBy_perm (horder inner)

end OrderlyWithin

end

/-! ## Sections -/

/-- Entries for different fields give each field of a section what comes of its own entry, in every
order, whether the rejected ones are there or not; each of those is reported once. -/
theorem mergeEntries_orderly (t : Topic) (label : String) (s : t.Part) (warnings : List Warning)
    {es : Entries Json} (h : OrderlyWithin (t.values s) es) :
    ∃ s' said, mergeEntries t.fields label es ⟨s, warnings⟩ = (.ok (), ⟨s', said ++ warnings⟩) ∧
      t.values s' = settledBy takenWithin es (t.values s) ∧
      (∀ es', Rearranged (t.values s) es es' → ∃ said',
        mergeEntries t.fields label es' ⟨s, warnings⟩ = (.ok (), ⟨s', said' ++ warnings⟩)) ∧
      mergeEntries t.fields label (accepted (t.values s) es) ⟨s, warnings⟩ =
        (.ok (), ⟨s', warnings⟩) ∧
      said.length = (rejected (t.values s) es).length := by
  have hends {es' : Entries Json} (h' : OrderlyWithin (t.values s) es')
      (hsame : settledBy takenWithin es' (t.values s) = settledBy takenWithin es (t.values s)) :
      ∃ s', mergeEntries t.fields label es' ⟨s, warnings⟩ =
          (.ok (), ⟨s', (settle reply label es' (t.values s)).said ++ warnings⟩) ∧
        t.values s' = settledBy takenWithin es (t.values s) := by
    rw [← hsame]
    exact (t.mergeEntries_settle label es' ⟨s, warnings⟩).ok (h'.settle (t.sound s) label).1
  obtain ⟨s', hmerge, hvalues⟩ := hends h rfl
  refine ⟨s', _, hmerge, hvalues, fun es' hes => ?_, ?_, (h.settle (t.sound s) label).2⟩
  · obtain ⟨s'', hmerge', hvalues'⟩ :=
      hends (h.rearranged hes) (h.settledBy_rearranged (t.sound s) hes)
    obtain rfl := t.values_inj (hvalues'.trans hvalues.symm)
    exact ⟨_, hmerge'⟩
  · obtain ⟨s'', hmerge', hvalues'⟩ := hends h.accepted (h.settledBy_accepted (t.sound s))
    obtain rfl := t.values_inj (hvalues'.trans hvalues.symm)
    have hsaid := (h.accepted.settle (t.sound s) label).2
    rw [rejected_accepted, List.length_nil, List.length_eq_zero_iff] at hsaid
    rw [hmerge', hsaid]
    rfl

/-- Two values of the wrong kind, one of them within a block, and an unknown name there. -/
def mixedEntries : Entries Json :=
  [("Local", .obj [("maxTokens", .int 50), ("colour", .null), ("enabled", .int 1)]),
    ("primary", .int 3), ("models", .obj [("claude", .str "haiku")])]

theorem mergeEntries_mixedEntries : OrderlyWithin (Topic.providers.values {}) mixedEntries ∧
    ∃ s' said, mergeEntries Topic.providers.fields "providers" mixedEntries ⟨{}, []⟩ =
      (.ok (), ⟨s', said⟩) ∧ said.length = 3 := by
  have horderly : OrderlyWithin (Topic.providers.values {}) mixedEntries := by
    refine ⟨⟨by unfold Apart; decide, ?_⟩, ?_⟩
    · intro e he current hcurrent hfits
      rcases List.mem_cons.mp he with rfl | he
      · obtain rfl := Option.some.inj hcurrent
        exact ⟨_, rfl⟩
      rcases List.mem_cons.mp he with rfl | he
      · obtain rfl := Option.some.inj hcurrent
        cases hfits
      · obtain rfl := List.mem_singleton.mp he
        obtain rfl := Option.some.inj hcurrent
        exact ⟨_, rfl⟩
    · intro e he block inner hinner
      rcases List.mem_cons.mp he with rfl | he
      · cases Option.some.inj hinner
        refine ⟨by unfold Apart; decide, ?_⟩
        intro e he current hcurrent hfits
        rcases List.mem_cons.mp he with rfl | he
        · obtain rfl := Option.some.inj hcurrent
          exact ⟨_, rfl⟩
        rcases List.mem_cons.mp he with rfl | he
        · cases hcurrent
        · obtain rfl := List.mem_singleton.mp he
          obtain rfl := Option.some.inj hcurrent
          cases hfits
      rcases List.mem_cons.mp he with rfl | he
      · cases hinner
      · obtain rfl := List.mem_singleton.mp he
        cases hinner
  refine ⟨horderly, ?_⟩
  obtain ⟨s', said, hmerge, _, _, _, hsaid⟩ :=
    mergeEntries_orderly .providers "providers" {} [] horderly
  exact ⟨s', said, by rw [hmerge, List.append_nil], hsaid⟩

end Cartridge.Config
