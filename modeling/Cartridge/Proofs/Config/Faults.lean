import Cartridge.Proofs.Config.Entry
import Cartridge.Proofs.Decimal.Overflow

/-!
# What breaks the loading of a configuration

The loading of a configuration fails in words only for its environment, and a file that cannot be
read, or is no document, gives a warning. But the warning is not given for everything: a file that
is no text, a document that goes too deep or has a number of too many digits, and a number that is
too large where a double is wanted break the loading off.

* `TooLarge`: the quotients that no double is near to.
* `Breaks`: when a merging is broken off, and what holds if it is not.
* `mergeEntries_breaks`, `mergeCaching_breaks`, `mergeSections_breaks`: the entries that do so.
* `load_foreseen`: what becomes of the loading of any configuration.
-/

namespace Cartridge.Config

open Json Run

/-! ## Numbers that are too large -/

/-- A quotient that no double is near to. -/
def TooLarge (num : Int) (den : Nat) : Prop := Decimal.limit ≤ (num.natAbs : ℚ) / den

/-- A whole number that no double is near to. -/
def Immense (given : Json) : Prop := ∃ n, given = .int n ∧ TooLarge n 1

/-- Some entry under one of some names has a value with a property. -/
def Among (names : List String) (Q : Json → Prop) (entries : Entries Json) : Prop :=
  ∃ e ∈ entries, fieldName e.1 ∈ names ∧ Q e.2

/-- Milliseconds are given, as a whole number. -/
def Milliseconds (key : String) (given : Json) : Prop := key = "ttl" ∧ ∃ n, given = .int n

/-- Too many milliseconds are given, or too many seconds after milliseconds were given. The property
says whether milliseconds were given before. -/
def Overtime (marked : Prop) (entries : Entries Json) : Prop :=
  (∃ n, ("ttl", .int n) ∈ entries ∧ TooLarge n 1000) ∨
    ∃ before key n after, entries = before ++ (key, .int n) :: after ∧
      fieldName key = "ttl_seconds" ∧ TooLarge n 1 ∧
      (marked ∨ ∃ e ∈ before, Milliseconds e.1 e.2)

/-- The settings of the user's own machine have a temperature that is too large. -/
def Overheated (given : Json) : Prop :=
  ∃ entries, given = .obj entries ∧ Among ["temperature"] Immense entries

/-- The entries of a section have a number that is too large. -/
def Excessive (name : String) (entries : Entries Json) : Prop :=
  name = "providers" ∧ Among ["local"] Overheated entries ∨
  name = "caching" ∧ Overtime False entries ∨
  name = "budget" ∧ Among ["max_cost_per_transpilation", "daily_budget"] Immense entries ∨
  name = "quality" ∧ Among ["min_score"] Immense entries ∨
  name = "toolchain" ∧ Among ["request_timeout"] Immense entries

/-- Some section of a document has a number that is too large. -/
def ExcessiveIn (sections : Entries Json) : Prop :=
  ∃ name entries, (name, .obj entries) ∈ sections ∧ Excessive name entries

theorem among_nil (names : List String) (Q : Json → Prop) : ¬ Among names Q [] := by
  rintro ⟨e, he, -⟩
  cases he

theorem among_cons {names : List String} {Q : Json → Prop} {key : String} {given : Json}
    {rest : Entries Json} :
    Among names Q ((key, given) :: rest) ↔
      (fieldName key ∈ names ∧ Q given) ∨ Among names Q rest := by
  unfold Among
  simp only [List.mem_cons, exists_eq_or_imp]

theorem overtime_nil (marked : Prop) : ¬ Overtime marked [] := by
  rintro (⟨n, hn, -⟩ | ⟨before, key, n, after, hentries, -⟩)
  · cases hn
  · simp at hentries

/-- What comes first marks what comes behind it. -/
theorem overtime_cons {marked : Prop} {key : String} {given : Json} {rest : Entries Json} :
    Overtime marked ((key, given) :: rest) ↔
      (∃ n, given = .int n ∧ (key = "ttl" ∧ TooLarge n 1000 ∨
        fieldName key = "ttl_seconds" ∧ marked ∧ TooLarge n 1)) ∨
      Overtime (marked ∨ Milliseconds key given) rest := by
  constructor
  · rintro (⟨n, hn, hlarge⟩ | ⟨before, k, n, after, hentries, hk, hlarge, hmarked⟩)
    · rcases List.mem_cons.mp hn with hfirst | hrest
      · cases hfirst
        exact .inl ⟨n, rfl, .inl ⟨rfl, hlarge⟩⟩
      · exact .inr (.inl ⟨n, hrest, hlarge⟩)
    · cases before with
      | nil =>
        cases hentries
        rcases hmarked with hmarked | ⟨e, he, -⟩
        · exact .inl ⟨n, rfl, .inr ⟨hk, hmarked, hlarge⟩⟩
        · cases he
      | cons e before =>
        cases hentries
        refine .inr (.inr ⟨before, k, n, after, rfl, hk, hlarge, ?_⟩)
        rcases hmarked with hmarked | ⟨e', he', hmilliseconds⟩
        · exact .inl (.inl hmarked)
        · rcases List.mem_cons.mp he' with rfl | hbefore
          · exact .inl (.inr hmilliseconds)
          · exact .inr ⟨e', hbefore, hmilliseconds⟩
  · rintro (⟨n, rfl, ⟨rfl, hlarge⟩ | ⟨hk, hmarked, hlarge⟩⟩ |
      ⟨n, hn, hlarge⟩ | ⟨before, k, n, after, rfl, hk, hlarge, hmarked⟩)
    · exact .inl ⟨n, List.mem_cons_self, hlarge⟩
    · exact .inr ⟨[], key, n, rest, rfl, hk, hlarge, .inl hmarked⟩
    · exact .inl ⟨n, List.mem_cons_of_mem _ hn, hlarge⟩
    · refine .inr ⟨(key, given) :: before, k, n, after, rfl, hk, hlarge, ?_⟩
      rcases hmarked with (hmarked | hmilliseconds) | ⟨e, he, hmilliseconds⟩
      · exact .inl hmarked
      · exact .inr ⟨_, List.mem_cons_self, hmilliseconds⟩
      · exact .inr ⟨e, List.mem_cons_of_mem _ he, hmilliseconds⟩

theorem excessiveIn_cons {name : String} {given : Json} {rest : Entries Json} :
    ExcessiveIn ((name, given) :: rest) ↔
      (∃ entries, given = .obj entries ∧ Excessive name entries) ∨ ExcessiveIn rest := by
  constructor
  · rintro ⟨n, entries, hmem, hexcessive⟩
    rcases List.mem_cons.mp hmem with hfirst | hrest
    · cases hfirst
      exact .inl ⟨entries, rfl, hexcessive⟩
    · exact .inr ⟨n, entries, hrest, hexcessive⟩
  · rintro (⟨entries, rfl, hexcessive⟩ | ⟨n, entries, hmem, hexcessive⟩)
    · exact ⟨name, entries, List.mem_cons_self, hexcessive⟩
    · exact ⟨n, entries, List.mem_cons_of_mem _ hmem, hexcessive⟩

/-! ## Merging -/

variable {S T α β : Type} {I J K : S → Prop} {P Q : Prop}

/-- From where one property holds, a merging is broken off by a number that is too large exactly
if a condition holds, and else leads to where another property holds. -/
def Breaks (I : S → Prop) (x : Merge S α) (J : S → Prop) (P : Prop) : Prop :=
  ∀ m, I m.value →
    ((x m).1 = .error .tooLarge ∧ P) ∨ ((∃ a, (x m).1 = .ok a) ∧ ¬ P ∧ J (x m).2.value)

namespace Breaks

theorem of_iff {x : Merge S α} (h : P ↔ Q) (hx : Breaks I x J P) : Breaks I x J Q := by
  rwa [← propext h]

theorem set {f : S → S} (h : ∀ s, I s → J (f s)) : Breaks I (Merge.set f) J False :=
  fun m hm => .inr ⟨⟨_, rfl⟩, not_false, h m.value hm⟩

theorem warn (w : Warning) : Breaks I (Merge.warn w) I False :=
  fun _ hm => .inr ⟨⟨_, rfl⟩, not_false, hm⟩

theorem keep (key wanted : String) (given : Json) (kept : S → String) :
    Breaks I (do Merge.keep key wanted given (kept (← Merge.value))) I False :=
  fun _ hm => .inr ⟨⟨_, rfl⟩, not_false, hm⟩

theorem real (num : Int) {den : Nat} (hden : 0 < den) :
    Breaks I (Run.ofExcept (Merge.real num den)) I (TooLarge num den) := by
  refine .of_iff (Decimal.ofRatio?_eq_none_iff num hden) fun m hm => ?_
  unfold Merge.real Run.ofExcept
  cases (Quantity.ofRatio? num den : Option Float) with
  | none => exact .inl ⟨rfl, rfl⟩
  | some x => exact .inr ⟨⟨x, rfl⟩, by simp, hm⟩

theorem bind {x : Merge S α} {f : α → Merge S β} (hx : Breaks I x J P)
    (hf : ∀ a, Breaks J (f a) K Q) : Breaks I (x >>= f) K (P ∨ Q) := by
  intro m hm
  rw [bind_apply]
  rcases hfirst : x m with ⟨r, m'⟩
  have hx := hx m hm
  rw [hfirst] at hx
  rcases hx with ⟨hr, hP⟩ | ⟨⟨a, hr⟩, hP, hJ⟩
  · cases hr
    exact .inl ⟨rfl, .inl hP⟩
  · cases hr
    rcases hf a m' hJ with ⟨hr, hQ⟩ | ⟨hr, hQ, hK⟩
    · exact .inl ⟨hr, .inr hQ⟩
    · exact .inr ⟨hr, not_or.mpr ⟨hP, hQ⟩, hK⟩

theorem within {I' J' : T → Prop} {view : S → T} {put : S → T → S} {x : Merge T Unit}
    (hview : ∀ s, I s → I' (view s)) (hput : ∀ s t, I s → J' t → J (put s t))
    (hx : Breaks I' x J' P) : Breaks I (Merge.within view put x) J P := by
  intro m hm
  rcases hx ⟨view m.value, m.warnings⟩ (hview _ hm) with ⟨hr, hP⟩ | ⟨hr, hP, hJ⟩
  · exact .inl ⟨hr, hP⟩
  · exact .inr ⟨hr, hP, hput _ _ hm hJ⟩

end Breaks

/-! ## Fields -/

namespace Field

variable {name : String}

/-- An entry breaks the merging off exactly if its value has a property. -/
def Breaks (I : S → Prop) (f : Field S) (Q : Json → Prop) : Prop :=
  ∀ key given, Config.Breaks I (f.take key given) I (Q given)

/-- No entry breaks the merging off. -/
def Calm (I : S → Prop) (f : Field S) : Prop := f.Breaks I fun _ => False

theorem calm_text {get : S → String} {put : S → String → S} (h : ∀ s x, I s → I (put s x)) :
    (Field.text name get put).Calm I := by
  intro key given
  cases given with
  | str x => exact .set fun s hs => h s x hs
  | _ => exact .keep _ _ _ _

theorem calm_flag {get : S → Bool} {put : S → Bool → S} (h : ∀ s x, I s → I (put s x)) :
    (Field.flag name get put).Calm I := by
  intro key given
  cases given with
  | bool x => exact .set fun s hs => h s x hs
  | _ => exact .keep _ _ _ _

theorem calm_whole {get : S → Int} {put : S → Int → S} (h : ∀ s n, I s → I (put s n)) :
    (Field.whole name get put).Calm I := by
  intro key given
  cases given with
  | int n => exact .set fun s hs => h s n hs
  | _ => exact .keep _ _ _ _

theorem calm_items {get : S → List Json} {put : S → List Json → S}
    (h : ∀ s items, I s → I (put s items)) : (Field.items name get put).Calm I := by
  intro key given
  cases given with
  | arr items => exact .set fun s hs => h s items hs
  | _ => exact .keep _ _ _ _

theorem calm_table {get : S → Entries Json} {put : S → Entries Json → S}
    (h : ∀ s entries, I s → I (put s entries)) : (Field.table name get put).Calm I := by
  intro key given
  cases given with
  | obj entries => exact .set fun s hs => h s _ hs
  | _ => exact .keep _ _ _ _

theorem takeReal_breaks {get : S → Float} {put : S → Float → S} (h : ∀ s x, I s → I (put s x))
    (key : String) (given : Json) :
    Config.Breaks I (takeReal get put key given) I (Immense given) := by
  cases given with
  | int n =>
    refine .of_iff ?_ (.bind (.real n (by decide)) fun x => .set fun s hs => h s x hs)
    simp [Immense]
  | float x => exact .of_iff (by simp [Immense]) (.set fun s hs => h s x hs)
  | _ => exact .of_iff (by simp [Immense]) (.keep _ _ _ _)

theorem breaks_real {get : S → Float} {put : S → Float → S} (h : ∀ s x, I s → I (put s x)) :
    (Field.real name get put).Breaks I Immense :=
  fun key given => takeReal_breaks h key given

end Field

/-- Entries break the merging off under some names only, and there if their value has a property. -/
def FieldsBreak (I : S → Prop) (fields : List (Field S)) (names : List String)
    (Q : Json → Prop) : Prop :=
  ∀ label key given,
    Breaks I (takeEntry fields label key given) I (fieldName key ∈ names ∧ Q given)

namespace FieldsBreak

variable {fields : List (Field S)} {names : List String} {Q : Json → Prop} {f : Field S}
  {name : String}

theorem nil : FieldsBreak I [] [] Q := fun _ _ _ => .of_iff (by simp) (.warn _)

theorem cons (hname : f.IsNamed name) (hf : f.Breaks I Q)
    (h : FieldsBreak I fields names Q) : FieldsBreak I (f :: fields) (name :: names) Q := by
  intro label key given
  rw [takeEntry_cons]
  by_cases hkey : f.isKey key = true
  · rw [if_pos hkey]
    exact .of_iff (by simp [(hname key).mp hkey]) (hf _ given)
  · rw [if_neg hkey]
    exact .of_iff (by simp [mt (hname key).mpr hkey]) (h label key given)

theorem calm (hname : f.IsNamed name) (hf : f.Calm I)
    (hnew : name ∉ names) (h : FieldsBreak I fields names Q) :
    FieldsBreak I (f :: fields) names Q := by
  intro label key given
  rw [takeEntry_cons]
  by_cases hkey : f.isKey key = true
  · rw [if_pos hkey]
    exact .of_iff (by simp [(hname key).mp hkey, hnew]) (hf _ given)
  · rw [if_neg hkey]
    exact h label key given

end FieldsBreak

theorem mergeEntries_breaks {fields : List (Field S)} {names : List String} {Q : Json → Prop}
    (h : FieldsBreak I fields names Q) (label : String) (entries : Entries Json) :
    Breaks I (mergeEntries fields label entries) I (Among names Q entries) := by
  induction entries with
  | nil => exact fun _ hm => .inr ⟨⟨_, rfl⟩, among_nil names Q, hm⟩
  | cons entry rest ih =>
    rw [mergeEntries_cons]
    exact .of_iff among_cons.symm (.bind (h label entry.1 entry.2) fun _ => ih)

/-! ## Sections -/

/-- The temperature of the user's own machine is no whole number. -/
def Tempered (s : Provider.LocalService) : Prop := ∃ x, s.temperature = .real x

theorem ownMachineFields_break :
    FieldsBreak Tempered ownMachineFields ["temperature"] Immense := by
  refine .calm (Field.isNamed _ _) (Field.calm_text fun _ _ hs => hs) (by simp) ?_
  refine .calm (Field.isNamed _ _) (Field.calm_text fun _ _ hs => hs) (by simp) ?_
  refine .cons (Field.isNamed _ _) ?temperature ?rest
  case temperature =>
    rintro key given ⟨⟨endpoint, model, temperature, maxTokens, enabled⟩, warnings⟩ hm
    obtain ⟨x, hx⟩ := hm
    cases hx
    exact Field.takeReal_breaks (fun s y hs => ⟨y, rfl⟩) key given _ ⟨x, rfl⟩
  case rest =>
    refine .calm (Field.isNamed _ _) (Field.calm_whole fun _ _ hs => hs) (by simp) ?_
    exact .calm (Field.isNamed _ _) (Field.calm_flag fun _ _ hs => hs) (by simp) .nil

theorem providerFields_break :
    FieldsBreak (fun p => Tempered p.ownMachine) providerFields ["local"] Overheated := by
  refine .calm (Field.isNamed _ _) (Field.calm_text fun _ _ hs => hs) (by simp) ?_
  refine .calm (Field.isNamed _ _) (Field.calm_items fun _ _ hs => hs) (by simp) ?_
  refine .calm (Field.isNamed _ _) (Field.calm_table fun _ _ hs => hs) (by simp) ?_
  refine .calm (Field.isNamed _ _) (Field.calm_table fun _ _ hs => hs) (by simp) ?_
  refine .cons (Field.isNamed _ _) ?_ .nil
  intro key given
  cases given with
  | obj entries =>
    have hmerge : Config.Breaks (fun p : Providers => Tempered p.ownMachine)
        (Merge.within (·.ownMachine) ({ · with ownMachine := · })
          (mergeEntries ownMachineFields key entries))
        (fun p => Tempered p.ownMachine) (Among ["temperature"] Immense entries) :=
      .within (fun _ hs => hs) (fun _ _ _ ht => ht)
        (mergeEntries_breaks ownMachineFields_break key entries)
    exact .of_iff (by simp [Overheated]) hmerge
  | _ => exact .of_iff (by simp [Overheated]) (.keep _ _ _ _)

theorem budgetFields_break : FieldsBreak (fun _ => True) budgetFields
    ["max_cost_per_transpilation", "daily_budget"] Immense := by
  refine .cons (Field.isNamed _ _) (Field.breaks_real fun _ _ hs => hs) ?_
  refine .cons (Field.isNamed _ _) (Field.breaks_real fun _ _ hs => hs) ?_
  exact .calm (Field.isNamed _ _) (Field.calm_flag fun _ _ hs => hs) (by simp) .nil

theorem qualityFields_break : FieldsBreak (fun _ => True) qualityFields ["min_score"] Immense := by
  refine .cons (Field.isNamed _ _) (Field.breaks_real fun _ _ hs => hs) ?_
  refine .calm (Field.isNamed _ _) (Field.calm_flag fun _ _ hs => hs) (by simp) ?_
  exact .calm (Field.isNamed _ _) (Field.calm_flag fun _ _ hs => hs) (by simp) .nil

theorem projectFields_break : FieldsBreak (fun _ => True) projectFields [] Immense := by
  refine .calm (Field.isNamed _ _) (Field.calm_whole fun _ _ hs => hs) (by simp) ?_
  refine .calm (Field.isNamed _ _) (Field.calm_whole fun _ _ hs => hs) (by simp) ?_
  exact .calm (Field.isNamed _ _) (Field.calm_flag fun _ _ hs => hs) (by simp) .nil

theorem toolFields_break :
    FieldsBreak (fun _ => True) toolFields ["request_timeout"] Immense := by
  refine .calm (Field.isNamed _ _) (Field.calm_text fun _ _ hs => hs) (by simp) ?_
  refine .calm (Field.isNamed _ _) (Field.calm_text fun _ _ hs => hs) (by simp) ?_
  refine .calm (Field.isNamed _ _) (Field.calm_text fun _ _ hs => hs) (by simp) ?_
  refine .calm (Field.isNamed _ _) (Field.calm_text fun _ _ hs => hs) (by simp) ?_
  exact .cons (Field.isNamed _ _) (Field.breaks_real fun _ _ hs => hs) .nil

/-! ## The section about caching -/

/-- The time for which results are kept is not whole exactly if milliseconds were given. -/
inductive Marked : Prop → Caching Float → Prop
  | real {marked : Prop} {c : Caching Float} {x : Float} (h : marked)
      (hlifetime : c.lifetime = .real x) : Marked marked c
  | whole {marked : Prop} {c : Caching Float} {n : Int} (h : ¬ marked)
      (hlifetime : c.lifetime = .whole n) : Marked marked c

theorem takeLifetime_calm (marked : Prop) (scaled : Int → Except Fault (Number Float))
    (scaledReal : Float → Float) (key : String) {given : Json} (h : ∀ n, given ≠ .int n) :
    Breaks (Marked marked) (takeLifetime scaled scaledReal key given) (Marked marked) False := by
  rintro ⟨⟨enabled, maxSize, lifetime⟩, ws⟩ hm
  cases hm with
  | whole hmarked hlifetime =>
    cases hlifetime
    cases given with
    | int n => exact absurd rfl (h n)
    | _ => exact .inr ⟨⟨_, rfl⟩, not_false, .whole hmarked rfl⟩
  | real hmarked hlifetime =>
    cases hlifetime
    cases given with
    | int n => exact absurd rfl (h n)
    | _ => exact .inr ⟨⟨_, rfl⟩, not_false, .real hmarked rfl⟩

/-- A whole number that is taken for a number that is not whole. -/
theorem takeLifetime_of_real {scaled : Int → Except Fault (Number Float)} {n : Int}
    {x : Except Fault Float} (h : scaled n = x.map .real) (scaledReal : Float → Float)
    (key : String) : takeLifetime scaled scaledReal key (.int n) =
      (Run.ofExcept x >>= fun y => Merge.set fun s => { s with lifetime := .real y }) := by
  funext ⟨⟨enabled, maxSize, lifetime⟩, ws⟩
  unfold takeLifetime
  rw [bind_apply]
  cases lifetime with
  | whole m =>
    dsimp only [Merge.value]
    rw [h]
    cases x <;> rfl
  | real y =>
    dsimp only [Merge.value]
    rw [h]
    cases x <;> rfl

/-- A whole number of milliseconds is taken in any case, and the time is not whole from then on. -/
theorem takeMilliseconds_breaks (marked : Prop) (key : String) (n : Int) :
    Breaks (Marked marked)
      (takeLifetime (fun n => (Merge.real n 1000).map .real) (· / 1000.0) key (.int n))
      (Marked True) (TooLarge n 1000) := by
  rw [takeLifetime_of_real rfl]
  exact .of_iff (by simp) (.bind (.real n (by decide)) fun x => .set fun s _ => .real trivial rfl)

/-- A whole number of seconds is taken as it is, unless the time is not whole already. -/
theorem takeSeconds_breaks (marked : Prop) (key : String) (n : Int) :
    Breaks (Marked marked) (takeLifetime (fun n => .ok (.whole n)) id key (.int n))
      (Marked marked) (marked ∧ TooLarge n 1) := by
  rintro ⟨⟨enabled, maxSize, lifetime⟩, ws⟩ hm
  cases hm with
  | whole hmarked hlifetime =>
    cases hlifetime
    exact .inr ⟨⟨_, rfl⟩, fun h => hmarked h.1, .whole hmarked rfl⟩
  | real hmarked hlifetime =>
    cases hlifetime
    have htaken : Breaks (fun _ => True)
        (Run.ofExcept (Merge.real n 1) >>= fun x =>
          Merge.set fun s => { s with lifetime := .real x })
        (Marked marked) (marked ∧ TooLarge n 1) := by
      refine .of_iff (P := TooLarge n 1 ∨ False) (by simp [hmarked]) ?_
      exact .bind (.real n (by decide)) fun x => .set fun s _ => .real hmarked rfl
    exact htaken _ trivial

/-- But for milliseconds, no entry changes whether the time is whole. -/
theorem otherCachingFields_break (marked : Prop) :
    FieldsBreak (Marked marked) cachingFields.tail ["ttl_seconds"]
      fun given => ∃ n, given = .int n ∧ marked ∧ TooLarge n 1 := by
  have hkept {c c' : Caching Float} (h : c'.lifetime = c.lifetime) (hc : Marked marked c) :
      Marked marked c' := by
    cases hc with
    | real hmarked hlifetime => exact .real hmarked (h.trans hlifetime)
    | whole hmarked hlifetime => exact .whole hmarked (h.trans hlifetime)
  have hseconds : (Field.named "ttl_seconds" (takeLifetime (fun n => .ok (.whole n)) id)).Breaks
      (Marked marked) fun given => ∃ n, given = .int n ∧ marked ∧ TooLarge n 1 := by
    intro key given
    by_cases hgiven : ∃ n, given = .int n
    · obtain ⟨n, rfl⟩ := hgiven
      exact .of_iff (by simp) (takeSeconds_breaks marked key n)
    · have hnone := not_exists.mp hgiven
      exact .of_iff (by simp [hnone]) (takeLifetime_calm marked _ _ key hnone)
  refine .calm (Field.isNamed _ _) (Field.calm_flag fun _ _ => hkept rfl) (by simp) ?_
  refine .calm (Field.isNamed _ _) (Field.calm_whole fun _ _ => hkept rfl) (by simp) ?_
  exact .cons (Field.isNamed _ _) hseconds .nil

theorem takeCaching_breaks (marked : Prop) (label key : String) (given : Json) :
    Breaks (Marked marked) (takeEntry cachingFields label key given)
      (Marked (marked ∨ Milliseconds key given))
      (∃ n, given = .int n ∧ (key = "ttl" ∧ TooLarge n 1000 ∨
        fieldName key = "ttl_seconds" ∧ marked ∧ TooLarge n 1)) := by
  have hfields : cachingFields = ⟨(· = "ttl"),
    takeLifetime (fun n => (Merge.real n 1000).map .real) (· / 1000.0)⟩ :: cachingFields.tail := rfl
  rw [hfields, takeEntry_cons]
  unfold Milliseconds
  by_cases hkey : key = "ttl"
  · have hname : fieldName "ttl" = "ttl" := by decide +kernel
    rw [if_pos (by simpa using hkey)]
    by_cases hgiven : ∃ n, given = .int n
    · obtain ⟨n, rfl⟩ := hgiven
      have hmarks : (marked ∨ key = "ttl" ∧ ∃ m, Json.int n = .int m) = True := by simp [hkey]
      rw [hmarks]
      exact .of_iff (by simp [hkey, hname]) (takeMilliseconds_breaks marked (label ++ "." ++ key) n)
    · have hnone := not_exists.mp hgiven
      have hmarks : (marked ∨ key = "ttl" ∧ ∃ m, given = .int m) = marked := by simp [hnone]
      rw [hmarks]
      exact .of_iff (by simp [hnone]) (takeLifetime_calm marked _ _ (label ++ "." ++ key) hnone)
  · have hmarks : (marked ∨ key = "ttl" ∧ ∃ m, given = .int m) = marked := by simp [hkey]
    rw [if_neg (by simpa using hkey), hmarks]
    refine .of_iff ?_ (otherCachingFields_break marked label key given)
    simp only [List.mem_singleton, hkey, false_and, false_or]
    constructor
    · rintro ⟨hname, n, rfl, hmarked, hlarge⟩
      exact ⟨n, rfl, hname, hmarked, hlarge⟩
    · rintro ⟨n, rfl, hname, hmarked, hlarge⟩
      exact ⟨hname, n, rfl, hmarked, hlarge⟩

theorem mergeCaching_breaks (label : String) (marked : Prop) (entries : Entries Json) :
    Breaks (Marked marked) (mergeEntries cachingFields label entries) (fun _ => True)
      (Overtime marked entries) := by
  induction entries generalizing marked with
  | nil => exact fun _ _ => .inr ⟨⟨_, rfl⟩, overtime_nil marked, trivial⟩
  | cons entry rest ih =>
    rw [mergeEntries_cons]
    exact .of_iff overtime_cons.symm
      (.bind (takeCaching_breaks marked label entry.1 entry.2) fun _ => ih _)

/-! ## Documents -/

/-- What holds of a configuration before the sections with some names are merged: the section about
caching was not merged yet if it is one of them. -/
structure Fresh (names : List String) (c : Config Float) : Prop where
  tempered : Tempered c.providers.ownMachine
  unmarked : "caching" ∈ names → Marked False c.caching

/-- A section breaks the merging off exactly if it has a number that is too large. -/
theorem sections_break {p : String × (Entries Json → Merge (Config Float) Unit)} (hp : p ∈ sections)
    {rest : List String} (hnew : p.1 ∉ rest) (entries : Entries Json) :
    Breaks (Fresh (p.1 :: rest)) (p.2 entries) (Fresh rest) (Excessive p.1 entries) := by
  simp only [sections, List.mem_cons, List.not_mem_nil, or_false] at hp
  rcases hp with rfl | rfl | rfl | rfl | rfl | rfl
  · refine .of_iff ?_ (.within (fun _ hc => hc.tempered)
      (fun _ _ hc ht => ⟨ht, fun h => hc.unmarked (List.mem_cons_of_mem _ h)⟩)
      (mergeEntries_breaks providerFields_break "providers" entries))
    simp [Excessive]
  · refine .of_iff ?_ (.within (fun _ hc => hc.unmarked List.mem_cons_self)
      (fun _ _ hc _ => ⟨hc.tempered, fun h => absurd h hnew⟩)
      (mergeCaching_breaks "caching" False entries))
    simp [Excessive]
  · refine .of_iff ?_ (.within (fun _ _ => trivial)
      (fun _ _ hc _ => ⟨hc.tempered, fun h => hc.unmarked (List.mem_cons_of_mem _ h)⟩)
      (mergeEntries_breaks budgetFields_break "budget" entries))
    simp [Excessive]
  · refine .of_iff ?_ (.within (fun _ _ => trivial)
      (fun _ _ hc _ => ⟨hc.tempered, fun h => hc.unmarked (List.mem_cons_of_mem _ h)⟩)
      (mergeEntries_breaks qualityFields_break "quality" entries))
    simp [Excessive]
  · refine .of_iff ?_ (.within (fun _ _ => trivial)
      (fun _ _ hc _ => ⟨hc.tempered, fun h => hc.unmarked (List.mem_cons_of_mem _ h)⟩)
      (mergeEntries_breaks projectFields_break "project" entries))
    simp [Excessive, Among]
  · refine .of_iff ?_ (.within (fun _ _ => trivial)
      (fun _ _ hc _ => ⟨hc.tempered, fun h => hc.unmarked (List.mem_cons_of_mem _ h)⟩)
      (mergeEntries_breaks toolFields_break "toolchain" entries))
    simp [Excessive]

theorem takeSection_breaks {name : String} {rest : List String} (hnew : name ∉ rest)
    (given : Json) :
    Breaks (Fresh (name :: rest)) (takeSection name given) (Fresh rest)
      (∃ entries, given = .obj entries ∧ Excessive name entries) := by
  have hless (c : Config Float) (hc : Fresh (name :: rest) c) : Fresh rest c :=
    ⟨hc.tempered, fun h => hc.unmarked (List.mem_cons_of_mem _ h)⟩
  have hwarn (w : Warning) : Breaks (Fresh (name :: rest)) (Merge.warn w) (Fresh rest) False :=
    fun m hm => .inr ⟨⟨_, rfl⟩, not_false, hless _ hm⟩
  unfold takeSection
  split
  · rename_i merge entries hfound
    refine .of_iff ?_ (sections_break (Entries.mem_of_get? hfound) hnew entries)
    simp
  · rename_i hother
    refine .of_iff ?_ (hwarn _)
    simp only [false_iff]
    rintro ⟨entries, hgiven, -⟩
    exact hother entries hgiven
  · rename_i hnone
    refine .of_iff ?_ (hwarn _)
    simp only [false_iff]
    rintro ⟨entries, -, h⟩
    rcases h with ⟨rfl, -⟩ | ⟨rfl, -⟩ | ⟨rfl, -⟩ | ⟨rfl, -⟩ | ⟨rfl, -⟩ <;> cases hnone

theorem mergeSections_breaks {entries : Entries Json} (hnodup : entries.names.Nodup) :
    Breaks (Fresh entries.names) (mergeSections entries) (Fresh []) (ExcessiveIn entries) := by
  induction entries with
  | nil =>
    refine fun m hm => .inr ⟨⟨_, rfl⟩, ?_, hm⟩
    rintro ⟨name, entries, h, -⟩
    cases h
  | cons entry rest ih =>
    obtain ⟨hnew, hnodup⟩ := List.nodup_cons.mp hnodup
    rw [mergeSections_step]
    exact .of_iff excessiveIn_cons.symm (.bind (takeSection_breaks hnew entry.2) fun _ => ih hnodup)

/-! ## Files -/

variable {d : Disk} {file : Path}

variable (d file) in
/-- A configuration file breaks the loading off with a fault. -/
inductive Breaking : Fault → Prop
  | hidden {e : Fault} (h : d.has file = .error e) : Breaking e
  | notText {bytes : ByteArray} {mode : Nat} (h : d.entry file = .ok (.file bytes mode))
      (hread : (FileTree.file bytes mode).allows .read = true)
      (htext : String.fromUTF8? bytes = none) : Breaking .notText
  | tooManyDigits {text : String} (h : d.readText file = .ok text)
      (hread : Json.read text = .error .oversized) : Breaking .tooManyDigits
  | tooDeep {text : String} (h : d.readText file = .ok text)
      (hread : Json.read text = .error .tooDeep) : Breaking .tooDeep
  | tooLarge {text : String} {sections : Entries Json} (h : d.readText file = .ok text)
      (hread : Json.read text = .ok (.obj sections)) (hlarge : ExcessiveIn sections) :
      Breaking .tooLarge

variable (d file) in
/-- A configuration file cannot be used, and the run goes on without it. -/
inductive Unusable : String → Prop
  | refused {e : Fault} (hthere : d.has file = .ok true) (h : d.readText file = .error e)
      (hrefusal : isRefusal e = true) : Unusable (e.about file.toString)
  | malformed {text : String} (h : d.readText file = .ok text)
      (hread : Json.read text = .error .malformed) : Unusable malformed

theorem has_of_entry {t : FileTree} (h : d.entry file = .ok t) : d.has file = .ok true := by
  rw [Disk.has, Disk.holds, h]

theorem entry_of_has (h : d.has file = .ok true) : ∃ t, d.entry file = .ok t := by
  unfold Disk.has Disk.holds at h
  cases hentry : d.entry file with
  | ok t => exact ⟨t, rfl⟩
  | error e =>
    rw [hentry] at h
    dsimp only at h
    split at h <;> cases h

theorem readText_of_entry {t : FileTree} (h : d.entry file = .ok t) :
    d.readText file = Disk.textOf t := by
  rw [Disk.readText, h]
  rfl

theorem has_of_readText {text : String} (h : d.readText file = .ok text) :
    d.has file = .ok true := by
  cases hentry : d.entry file with
  | ok t => exact has_of_entry hentry
  | error e =>
    rw [Disk.readText, hentry] at h
    cases h

theorem mergeFileIfThere_of_has (h : d.has file = .ok true) :
    mergeFileIfThere d file = mergeFile d file := by
  rw [mergeFileIfThere, h]
  rfl

/-- A file that cannot be used only gives a warning. -/
theorem mergeFileIfThere_of_unusable {reason : String} (h : Unusable d file reason)
    (m : Merging (Config Float)) : mergeFileIfThere d file m =
      (.ok (), { m with warnings := .unreadable file.toString reason :: m.warnings }) := by
  cases h with
  | refused hthere h hrefusal =>
    rw [mergeFileIfThere_of_has hthere, mergeFile, h]
    dsimp only
    rw [if_pos hrefusal]
    rfl
  | malformed h hread =>
    rw [mergeFileIfThere_of_has (has_of_readText h), mergeFile, h]
    dsimp only
    rw [hread]
    rfl

theorem mergeDocument_error_iff {j : Json} {text path : String} (hread : Json.read text = .ok j)
    {m : Merging (Config Float)} (hfresh : ∀ names, Fresh names m.value) (e : Fault) :
    (mergeDocument path j m).1 = .error e ↔
      e = .tooLarge ∧ ∃ sections, j = .obj sections ∧ ExcessiveIn sections := by
  cases j with
  | obj sections =>
    have hnodup : (Entries.names sections).Nodup := by
      cases readable_of_read hread with
      | obj hnodup _ => exact hnodup
    have hdocument : mergeDocument path (.obj sections) = mergeSections sections := rfl
    rw [hdocument]
    rcases mergeSections_breaks hnodup m (hfresh _) with ⟨hr, hlarge⟩ | ⟨⟨a, hr⟩, hlarge, -⟩
    · rw [hr]
      constructor
      · intro h
        cases h
        exact ⟨rfl, sections, rfl, hlarge⟩
      · rintro ⟨rfl, -⟩
        rfl
    · rw [hr]
      constructor
      · intro h
        cases h
      · rintro ⟨-, _, hsections, h⟩
        cases hsections
        exact absurd h hlarge
  | _ =>
    constructor
    · intro h
      cases h
    · rintro ⟨-, _, hsections, -⟩
      cases hsections

/-- What is read is refused, is no text, or is a text. -/
theorem textOf_cases (t : FileTree) :
    (∃ e, Disk.textOf t = .error e ∧ isRefusal e = true) ∨
      (∃ bytes mode, t = .file bytes mode ∧ t.allows .read = true ∧
        String.fromUTF8? bytes = none ∧ Disk.textOf t = .error .notText) ∨
      ∃ text, Disk.textOf t = .ok text := by
  cases hread : t.allows .read with
  | false => exact .inl ⟨.notAllowed, by rw [Disk.textOf.eq_def, hread]; rfl, rfl⟩
  | true =>
    cases t with
    | folder entries mode => exact .inl ⟨.isDirectory, by rw [Disk.textOf, hread]; rfl, rfl⟩
    | file bytes mode =>
      cases hbytes : String.fromUTF8? bytes with
      | none =>
        exact .inr (.inl ⟨bytes, mode, rfl, rfl, hbytes, by rw [Disk.textOf, hread, hbytes]; rfl⟩)
      | some s => exact .inr (.inr ⟨_, by rw [Disk.textOf, hread, hbytes]; rfl⟩)

theorem breaking_of_mergeFile {m : Merging (Config Float)} (hfresh : ∀ names, Fresh names m.value)
    {t : FileTree} (hentry : d.entry file = .ok t) {e : Fault}
    (h : (mergeFile d file m).1 = .error e) : Breaking d file e := by
  have hread := readText_of_entry hentry
  rcases textOf_cases t with
    ⟨e', htext, hrefusal⟩ | ⟨bytes, mode, rfl, hallows, hbytes, htext⟩ | ⟨text, htext⟩
  · rw [mergeFile, hread.trans htext] at h
    dsimp only at h
    rw [if_pos hrefusal] at h
    cases h
  · rw [mergeFile, hread.trans htext] at h
    cases h
    exact .notText hentry hallows hbytes
  · replace hread := hread.trans htext
    rw [mergeFile, hread] at h
    dsimp only at h
    cases hj : Json.read text with
    | ok j =>
      rw [hj] at h
      obtain ⟨rfl, sections, rfl, hlarge⟩ := (mergeDocument_error_iff hj hfresh e).mp h
      exact .tooLarge hread hj hlarge
    | error why =>
      rw [hj] at h
      cases why with
      | malformed => cases h
      | oversized =>
        cases h
        exact .tooManyDigits hread hj
      | tooDeep =>
        cases h
        exact .tooDeep hread hj

theorem mergeFileIfThere_error_iff {m : Merging (Config Float)}
    (hfresh : ∀ names, Fresh names m.value) (e : Fault) :
    (mergeFileIfThere d file m).1 = .error e ↔ Breaking d file e := by
  constructor
  · intro h
    cases hthere : d.has file with
    | error e' =>
      rw [mergeFileIfThere, hthere] at h
      cases h
      exact .hidden hthere
    | ok isThere =>
      cases isThere with
      | false =>
        rw [mergeFileIfThere, hthere] at h
        cases h
      | true =>
        obtain ⟨t, hentry⟩ := entry_of_has hthere
        rw [mergeFileIfThere_of_has hthere] at h
        exact breaking_of_mergeFile hfresh hentry h
  · intro h
    cases h with
    | hidden hthere =>
      rw [mergeFileIfThere, hthere]
      rfl
    | notText hentry hallows htext =>
      have htext : d.readText file = .error .notText := by
        rw [readText_of_entry hentry, Disk.textOf, hallows, htext]
        rfl
      rw [mergeFileIfThere_of_has (has_of_entry hentry), mergeFile, htext]
      rfl
    | tooManyDigits htext hread =>
      rw [mergeFileIfThere_of_has (has_of_readText htext), mergeFile, htext]
      dsimp only
      rw [hread]
      rfl
    | tooDeep htext hread =>
      rw [mergeFileIfThere_of_has (has_of_readText htext), mergeFile, htext]
      dsimp only
      rw [hread]
      rfl
    | tooLarge htext hread hlarge =>
      rw [mergeFileIfThere_of_has (has_of_readText htext), mergeFile, htext]
      dsimp only
      rw [hread]
      exact (mergeDocument_error_iff hread hfresh _).mpr ⟨rfl, _, rfl, hlarge⟩

/-! ## Loading -/

theorem fresh_initial (d : Disk) (path : Option String) (names : List String) :
    Fresh names { initial d with path } :=
  ⟨⟨_, rfl⟩, fun _ => .whole not_false rfl⟩

/-- What is loaded, by what the merging of the file came to. -/
def settled (env : Environment) (merged : Except Fault Unit) (c : Config Float) :
    Except (Stop Float) (Config Float) :=
  match merged with
  | .error e => .error (.broken e)
  | .ok () => (withEnvironment env c).mapError (.failed ∘ .configuration)

theorem settled_broken_iff (env : Environment) (merged : Except Fault Unit) (c : Config Float)
    (e : Fault) : settled env merged c = .error (.broken e) ↔ merged = .error e := by
  unfold settled
  cases merged with
  | error e' => simp
  | ok u => cases withEnvironment env c <;> simp [Except.mapError]

theorem settled_failed {env : Environment} {merged : Except Fault Unit} {c : Config Float}
    {why : Failure Float} (h : settled env merged c = .error (.failed why)) :
    ∃ wrong, why = .configuration wrong := by
  unfold settled at h
  cases merged with
  | error e => cases h
  | ok u =>
    cases hc : withEnvironment env c with
    | ok c' =>
      rw [hc] at h
      cases h
    | error wrong =>
      rw [hc] at h
      cases h
      exact ⟨wrong, rfl⟩

/-- With an environment, the loading is the merging of the file and what is settled then. -/
theorem load_of_environment [EnvFile.Reader] {env env' : Environment}
    {configPath envPath : Option String}
    (henv : environment d env envPath = .ok env') (console : Console) :
    let file := pathOr d configPath fileName
    let merged := mergeFileIfThere d file { value := { initial d with
      path := some file.toString } }
    load d env configPath envPath console = (settled env' merged.1 merged.2.value,
      console.warnAll (merged.2.warnings.reverse.map (·.message))) := by
  intro file merged
  have hmerged : merged = mergeFileIfThere d file { value := { initial d with
    path := some file.toString } } := rfl
  unfold load settled
  rw [henv]
  dsimp only
  rw [← hmerged]
  rcases merged with ⟨r, m⟩
  cases r with
  | error e => rfl
  | ok u =>
    dsimp only
    cases withEnvironment env' m.value <;> rfl

/-- The loading of a configuration is broken off by its environment file or by its file, or it
succeeds or fails for its environment. A file that cannot be used gives a warning, and nothing is
taken from it. -/
theorem load_foreseen [EnvFile.Reader] (d : Disk) (env : Environment)
    (configPath envPath : Option String)
    (console : Console) :
    let file := pathOr d configPath fileName
    let loaded := load d env configPath envPath console
    (∀ fault, loaded.1 = .error (.broken fault) ↔ environment d env envPath = .error fault ∨
      (∃ env', environment d env envPath = .ok env') ∧ Breaking d file fault) ∧
    (∀ why, loaded.1 = .error (.failed why) → ∃ wrong, why = .configuration wrong) ∧
    ∀ env' reason, environment d env envPath = .ok env' → Unusable d file reason →
      loaded = ((withEnvironment env' { initial d with path := some file.toString }).mapError
          (.failed ∘ .configuration),
        console.warn (Warning.unreadable file.toString reason).message) := by
  intro file loaded
  cases henv : environment d env envPath with
  | error e =>
    have hloaded : loaded = (.error (.broken e), console) := by
      show load d env configPath envPath console = _
      rw [load, henv]
    rw [hloaded]
    refine ⟨by simp, fun why h => ?_, by simp⟩
    cases h
  | ok env' =>
    have hloaded : loaded = _ := load_of_environment henv console
    rw [hloaded]
    refine ⟨fun fault => ?_, fun why h => settled_failed h, ?_⟩
    · rw [settled_broken_iff, mergeFileIfThere_error_iff (fresh_initial d _)]
      simp [file]
    · intro env'' reason henv hunusable
      cases henv
      rw [mergeFileIfThere_of_unusable hunusable]
      rfl

/-- A disk whose configuration file is no text. -/
def garbledDisk : Disk :=
  ⟨.folder [(fileName, .file ⟨#[255]⟩ FileTree.fileMode)] FileTree.folderMode, []⟩

/-- A configuration file that is no text does not give a warning. -/
theorem load_foreseen_of_garbled :
    (load garbledDisk [] none none {}).1 = .error (.broken .notText) :=
  ((load_foreseen garbledDisk [] none none {}).1 .notText).mpr
    (.inr ⟨⟨[], rfl⟩, .notText rfl rfl rfl⟩)

end Cartridge.Config
