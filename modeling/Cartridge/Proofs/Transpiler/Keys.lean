import Cartridge.Proofs.Transpiler.Memory
import Mathlib.Data.List.Nodup

/-!
# Keys of results

No two entries of the cache have the same key: a result that is kept replaces an earlier one under
its key. So an entry is found by its key alone, and a look-up drops one entry at most.

* `Cache.Distinct`: the entries have different keys.
* `Cache.find?_of_mem`: an entry is what is found under its key.
* `Cache.set_of_room`: where there is room, nothing is lost.
* `Cache.get_cases`: what a look-up finds and what it drops.
* `distinct_after`: the entries have different keys after any events.
-/

namespace Cartridge

namespace Cache

variable {R α : Type}

/-- No two entries have the same key. -/
def Distinct (c : Cache R α) : Prop := (c.entries.map (·.key)).Nodup

theorem find?_of_mem {c : Cache R α} (h : c.Distinct) {e : Stored R α} (he : e ∈ c.entries) :
    c.find? e.key = some e := by
  unfold find?
  cases hfind : c.entries.find? (·.key = e.key) with
  | none => simpa using List.find?_eq_none.mp hfind e he
  | some e' =>
    have hkey : e'.key = e.key := by simpa using List.find?_some hfind
    rw [List.inj_on_of_nodup_map h (List.mem_of_find?_eq_some hfind) he hkey]

theorem without_of_split {c : Cache R α} (h : c.Distinct) {before later : List (Stored R α)}
    {e : Stored R α} (hsplit : c.entries = before ++ e :: later) :
    c.without e.key = before ++ later := by
  unfold Distinct at h
  rw [hsplit, List.map_append, List.map_cons, List.nodup_middle, List.nodup_cons] at h
  have hothers (l : List (Stored R α)) (hl : ∀ a ∈ l, a ∈ before ++ later) :
      l.filter (·.key ≠ e.key) = l := by
    refine List.filter_eq_self.mpr fun a ha => decide_eq_true fun hkey => h.1 ?_
    rw [← List.map_append, ← hkey]
    exact List.mem_map_of_mem (hl a ha)
  unfold without
  rw [hsplit, List.filter_append, List.filter_cons, if_neg (by simp),
    hothers before fun a ha => List.mem_append_left _ ha,
    hothers later fun a ha => List.mem_append_right _ ha]

/-- Where there is room for one more entry, none is lost but that under the same key. -/
theorem set_of_room {c : Cache R α} (h : (c.entries.length : Int) < c.maxSize) (key : String)
    (value : α) (now : R) :
    c.set key value now = some { c with entries := c.without key ++ [⟨key, now, value⟩] } := by
  have hlength : (c.without key).length ≤ c.entries.length := List.length_filter_le _ _
  unfold set
  dsimp only
  rw [if_neg (by omega), List.length_append, List.length_singleton,
    show (c.without key).length + 1 - c.maxSize.toNat = 0 by omega, List.drop_zero]

variable [Quantity R]

/-- A look-up finds nothing, or an entry that is still good, and then leaves the cache as it is; or
it finds an expired entry and drops that one. -/
theorem get_cases {c : Cache R α} (h : c.Distinct) (key : String) (now : R) :
    (c.get key now = (none, c) ∧ ∀ e ∈ c.entries, e.key ≠ key) ∨
      (∃ e ∈ c.entries, e.key = key ∧ c.expired e.time now = false ∧
        c.get key now = (some e.value, c)) ∨
      ∃ before e later, c.entries = before ++ e :: later ∧ e.key = key ∧
        c.expired e.time now = true ∧ c.get key now = (none, { c with entries := before ++ later })
    := by
  unfold get
  cases hfind : c.find? key with
  | none =>
    refine .inl ⟨rfl, fun e he => ?_⟩
    simpa using List.find?_eq_none.mp hfind e he
  | some e =>
    have he : e ∈ c.entries := List.mem_of_find?_eq_some hfind
    have hkey : e.key = key := by simpa using List.find?_some hfind
    dsimp only
    cases hexpired : c.expired e.time now with
    | false => exact .inr (.inl ⟨e, he, hkey, hexpired, rfl⟩)
    | true =>
      obtain ⟨before, later, hsplit⟩ := List.append_of_mem he
      refine .inr (.inr ⟨before, e, later, hsplit, hkey, hexpired, ?_⟩)
      rw [if_pos rfl, ← hkey, without_of_split h hsplit]

theorem distinct_get {c : Cache R α} (h : c.Distinct) (key : String) (now : R) :
    (c.get key now).2.Distinct := by
  rcases get_cases h key now with ⟨hget, -⟩ | ⟨_, _, _, _, hget⟩ | ⟨before, e, later, hsplit, -, -,
    hget⟩
  · rwa [hget]
  · rwa [hget]
  · rw [hget]
    refine List.Nodup.sublist ?_ h
    rw [hsplit]
    exact ((List.Sublist.refl before).append (List.sublist_cons_self e later)).map _

omit [Quantity R] in
theorem distinct_set {c c' : Cache R α} {key : String} {value : α} {now : R} (h : c.Distinct)
    (hset : c.set key value now = some c') : c'.Distinct := by
  have hall : ((c.without key ++ [(⟨key, now, value⟩ : Stored R α)]).map (·.key)).Nodup := by
    rw [List.map_append, List.map_singleton, List.nodup_append]
    refine ⟨h.sublist (List.filter_sublist.map _), List.nodup_singleton _, ?_⟩
    intro a ha b hb hab
    obtain ⟨e, he, rfl⟩ := List.mem_map.mp ha
    have hkey := of_decide_eq_true (List.mem_filter.mp he).2
    exact hkey (hab.trans (List.mem_singleton.mp hb))
  unfold set at hset
  dsimp only at hset
  split at hset
  · cases hset
  · cases hset
    exact hall.sublist ((List.drop_sublist _ _).map _)

omit [Quantity R] in
theorem distinct_clear (c : Cache R α) : c.clear.Distinct := List.nodup_nil

end Cache

namespace Workbench

open Run

variable {R : Type} [Quantity R] [Inhabited R]

/-- The entries of the transpiler's cache have different keys. -/
def Distinct (w : Workbench R) : Prop := w.transpiler.cache.Distinct

omit [Quantity R] [Inhabited R] in
theorem distinct_of_memory {α : Type} {x : Task R α} (h : Keeps memory x) :
    Preserves Distinct x :=
  .of_keeps (J := fun m => m.1.Distinct) h fun _ => Iff.rfl

omit [Quantity R] [Inhabited R] in
theorem keep_distinct (key : String) (result : Conversion R) :
    Preserves Distinct (keep key result) := by
  intro w hw
  unfold keep
  dsimp only
  split
  · rename_i cache hset
    exact Cache.distinct_set hw hset
  · exact Cache.distinct_clear _

omit [Quantity R] [Inhabited R] in
theorem store_distinct (job : Job R) (result : Conversion R) :
    Preserves Distinct (store job result) := by
  unfold store
  split
  · exact keep_distinct _ _
  · exact distinct_of_memory (.done _)

theorem learn_distinct (source code : String) (target : Target) (quality : R) (provider : String) :
    Preserves Distinct (learn source code target quality provider) := by
  intro w hw
  unfold Distinct
  rwa [(learn_rest source code target quality provider w).1]

theorem settle_distinct (job : Job R) (answer : Option String) (duration cost : R) :
    Preserves Distinct (settle job answer duration cost) := by
  unfold settle
  split
  · exact distinct_of_memory (.stop _)
  · refine .bind (distinct_of_memory .get) fun w => .bind (distinct_of_memory (.ofExcept _)) ?_
    refine fun result => .bind (store_distinct _ _) fun _ => .bind (learn_distinct _ _ _ _ _) ?_
    refine fun _ => .bind (distinct_of_memory (say_keeps quiet_memory _)) fun _ => ?_
    exact .bind (distinct_of_memory (say_keeps quiet_memory _)) fun _ =>
      distinct_of_memory (.pure _)

omit [Inhabited R] in
theorem ask_distinct (job : Job R) : Preserves Distinct (ask job) :=
  .of_keeps (J := fun t => t.cache.Distinct) (ask_keeps job) fun _ => Iff.rfl

theorem charge_distinct (job : Job R) (answer : Option String) :
    Preserves Distinct (charge job answer) := by
  refine distinct_of_memory fun w => ?_
  unfold charge
  split <;> rfl

theorem tryOnce_distinct (job : Job R) (number : Nat) : Preserves Distinct (tryOnce job number) :=
  .bind (distinct_of_memory (announce_keeps quiet_memory _ _)) fun _ =>
    .bind (ask_distinct _) fun _ => .bind (distinct_of_memory .get) fun _ =>
      .bind (charge_distinct _ _) fun _ => settle_distinct _ _ _ _

theorem attempts_distinct (job : Job R) (left number : Nat) (last : Failure R) :
    Preserves Distinct (attempts job left number last) := by
  induction left generalizing number last with
  | zero =>
    unfold attempts
    split
    · exact .bind (distinct_of_memory (say_keeps quiet_memory _)) fun _ =>
        distinct_of_memory (.stop _)
    · exact distinct_of_memory (.stop _)
  | succ left ih =>
    have hpermit : Keeps memory (permit job) := by
      intro w
      rcases permit_apply job w with h | ⟨why, h⟩ <;> rw [h]
    have htry : Preserves Distinct (Run.attempt (tryOnce job number)) := tryOnce_distinct job number
    refine .bind (distinct_of_memory hpermit) fun _ => .bind htry fun outcome => ?_
    split
    · exact distinct_of_memory (.pure _)
    · exact distinct_of_memory (.stop _)
    · exact .bind (distinct_of_memory (afterFailure_keeps quiet_memory _ _ _)) fun _ => ih _ _

theorem consider_distinct (request : Request) :
    Preserves Distinct (consider request : Task R (Admission R)) := by
  intro w hw
  have hsame (console : Console) : (heard request w console).Distinct := by
    unfold Distinct heard
    rwa [opened_cache]
  have hconsidered := considered request w
  generalize consider request w = p at hconsidered ⊢
  obtain ⟨outcome, w'⟩ := p
  cases hconsidered with
  | refused _ console => exact hsame console
  | unwritable _ console => exact hsame console
  | known _ _ console => exact hsame console
  | new _ _ console hadmitted =>
    obtain rfl : w' = admitted request w console := hadmitted
    show (searched request w).Distinct
    unfold searched
    split
    · exact Cache.distinct_get hw _ _
    · exact hw

theorem transpile_distinct (request : Request) :
    Preserves Distinct (transpile request : Task R (Conversion R)) := by
  refine .bind (consider_distinct request) fun admission => ?_
  split
  · exact distinct_of_memory (.pure _)
  · exact .bind (distinct_of_memory (prepare_keeps quiet_memory _ _)) fun job =>
      attempts_distinct job _ _ _

theorem distinct_after {h : History R} (hstart : h.workbench.Distinct) (events : List (Event R)) :
    (h.after events).workbench.Distinct := by
  refine History.after_invariant (I := fun h => h.workbench.Distinct) ?_ events hstart
  intro h e hh
  cases e with
  | outside s => exact hh
  | request r => exact transpile_distinct r h.workbench hh

end Workbench

end Cartridge
