import Cartridge.Proofs.Transpiler.Keys
import Cartridge.Proofs.Transpiler.Reuse
import Mathlib.Data.List.Perm.Subperm

/-!
# Results in stock

As long as the cache has room and nothing in it expires, the result of every request that was
answered stays there. Such a request gets its result again and sends no prompt.

* `Stocked`: the cache holds the results of certain requests and nothing else.
* `stocked_next`: a request that is answered adds its result to the stock.
* `known_of_stocked`: the result of a request in stock is known.
* `openedOn`: a transpiler with the account of a day.
* `transpile_of_stocked`: a request in stock changes nothing but what is said and, on a new day, the
  account.
-/

namespace Cartridge

/-- The transpiler with the account of a day: a new one, if it is not the day of the last reset. -/
def Transpiler.openedOn {R : Type} [Quantity R] [Inhabited R] (t : Transpiler R) (today : String) :
    Transpiler R :=
  if today = t.day then t else { t with spent := Quantity.ofNat 0, day := today }

namespace Workbench

open Run

variable {R : Type} [Quantity R] [Inhabited R]

/-- No result in the cache is too old to be given a second time. -/
def Fresh (w : Workbench R) : Prop :=
  ∀ e ∈ w.transpiler.cache.entries, w.transpiler.cache.expired e.time w.session.clock = false

/-- The cache holds the results of some requests, and no others, each under the key of its
request. -/
structure Stocked (done : List (Request × Conversion R)) (w : Workbench R) : Prop where
  distinct : w.Distinct
  known : ∀ e ∈ w.transpiler.cache.entries, ∃ x ∈ done, x.1.key = e.key
  kept : ∀ x ∈ done, ∃ e ∈ w.transpiler.cache.entries, e.key = x.1.key ∧ again e.value = again x.2
  writable : ∀ x ∈ done, x.1.target.Writable

variable {done : List (Request × Conversion R)} {request : Request} {w w' : Workbench R}
  {result : Conversion R}

omit [Inhabited R] in
theorem Fresh.of_cache (h : w.Fresh) (hcache : w'.transpiler.cache = w.transpiler.cache)
    (hclock : w'.session.clock = w.session.clock) : w'.Fresh := by
  unfold Fresh
  rw [hcache, hclock]
  exact h

omit [Quantity R] [Inhabited R] in
theorem Stocked.of_cache (h : Stocked done w) (hcache : w'.transpiler.cache = w.transpiler.cache) :
    Stocked done w' := by
  refine ⟨?_, ?_, ?_, h.writable⟩
  · unfold Distinct
    rw [hcache]
    exact h.distinct
  · rw [hcache]
    exact h.known
  · rw [hcache]
    exact h.kept

omit [Quantity R] [Inhabited R] in
theorem stocked_of_empty (h : w.transpiler.cache.entries = []) : Stocked [] w where
  distinct := by
    unfold Distinct Cache.Distinct
    rw [h]
    exact List.nodup_nil
  known e he := by
    rw [h] at he
    cases he
  kept x hx := by cases hx
  writable x hx := by cases hx

omit [Quantity R] [Inhabited R] in
/-- The cache holds no more results than there were requests. -/
theorem Stocked.length_le (h : Stocked done w) :
    w.transpiler.cache.entries.length ≤ done.length := by
  have hsubset : w.transpiler.cache.entries.map (·.key) ⊆ done.map (·.1.key) := by
    intro key hkey
    obtain ⟨e, he, rfl⟩ := List.mem_map.mp hkey
    obtain ⟨x, hx, hxkey⟩ := h.known e he
    exact List.mem_map.mpr ⟨x, hx, hxkey⟩
  have hlength := (List.Nodup.subperm h.distinct hsubset).length_le
  rwa [List.length_map, List.length_map] at hlength

omit [Inhabited R] in
/-- The result of a request in stock is known. -/
theorem known_of_stocked (h : Stocked done w) (hfresh : w.Fresh) (hmem : (request, result) ∈ done)
    (huses : usesCache request w = true) :
    ∃ first, known? request w = some first ∧ again first = again result := by
  obtain ⟨e, he, hkey, hvalue⟩ := h.kept _ hmem
  have hfind : w.transpiler.cache.find? request.key = some e := by
    rw [← hkey]
    exact Cache.find?_of_mem h.distinct he
  refine ⟨e.value, ?_, hvalue⟩
  rw [known?, if_pos huses, Cache.get, hfind]
  dsimp only
  rw [if_neg (by rw [hfresh e he]; exact Bool.false_ne_true)]

/-- A request that is answered anew had no result that was known. -/
theorem known?_of_anew (h : transpile request w = (.ok result, w'))
    (hanew : result.fromCache = false) : known? request w = none := by
  cases hknown : known? request w with
  | none => rfl
  | some first =>
    obtain ⟨console, hconsider⟩ := consider_apply request w
    rw [hknown] at hconsider
    split at hconsider
    · split at hconsider
      · rw [transpile, bind_error hconsider] at h
        cases h
      · split at hconsider
        · rw [transpile, bind_ok hconsider] at h
          cases h
          cases hanew
        · rw [transpile, bind_error hconsider] at h
          cases h
    · rw [transpile, bind_error hconsider] at h
      cases h

/-- A request that is answered adds its result to the stock, if there is room and nothing has
expired. -/
theorem stocked_next (h : Stocked done w) (hfresh : w.Fresh) (huses : usesCache request w = true)
    (hroom : (done.length : Int) < w.transpiler.cache.maxSize)
    (hresult : transpile request w = (.ok result, w')) :
    Stocked (done ++ [(request, result)]) w' := by
  have hdistinct : w'.Distinct := by
    have hnext := transpile_distinct request w h.distinct
    rwa [hresult] at hnext
  have hwritable : ∀ x ∈ done ++ [(request, result)], x.1.target.Writable := by
    intro x hx
    rcases List.mem_append.mp hx with hx | hx
    · exact h.writable x hx
    · rw [List.mem_singleton.mp hx]
      exact writable_of_ok (congrArg Prod.fst hresult)
  have hremembers := transpile_remembers request w
  rw [hresult] at hremembers
  cases hremembers with
  | @again first hknown console =>
    rw [known?, if_pos huses] at hknown
    obtain ⟨-, e, he, hkey, hvalue, -⟩ := Cache.get_some hknown
    refine ⟨hdistinct, fun e (he : e ∈ (opened request w).transpiler.cache.entries) => ?_,
      fun x hx => ?_, hwritable⟩
    · rw [opened_cache] at he
      obtain ⟨x, hx, hxkey⟩ := h.known e he
      exact ⟨x, List.mem_append_left _ hx, hxkey⟩
    · show ∃ e ∈ (opened request w).transpiler.cache.entries, _
      rw [opened_cache]
      rcases List.mem_append.mp hx with hx | hx
      · exact h.kept x hx
      · rw [List.mem_singleton.mp hx]
        exact ⟨e, he, hkey, by rw [hvalue]; rfl⟩
  | anew hanew hkept =>
    have hnew := known?_of_anew hresult hanew
    rw [known?, if_pos huses] at hnew
    -- nothing is found, so nothing is replaced and nothing dropped
    obtain ⟨hsearched, hothers⟩ : searched request w = w.transpiler.cache ∧
        ∀ e ∈ w.transpiler.cache.entries, e.key ≠ request.key := by
      rw [searched, if_pos huses]
      rcases Cache.get_cases h.distinct request.key w.session.clock with ⟨hget, hothers⟩ |
        ⟨_, _, _, _, hget⟩ | ⟨before, e, later, hsplit, -, hexpired, -⟩
      · exact ⟨by rw [hget], hothers⟩
      · rw [hget] at hnew
        cases hnew
      · rw [hfresh e (by rw [hsplit]; simp)] at hexpired
        cases hexpired
    have hwithout : w.transpiler.cache.without request.key = w.transpiler.cache.entries :=
      List.filter_eq_self.mpr fun e he => decide_eq_true (hothers e he)
    rw [keyOf?, if_pos huses, hsearched, Kept, Cache.set_of_room (by have := h.length_le; omega),
      hwithout] at hkept
    have hentries : w'.transpiler.cache.entries =
        w.transpiler.cache.entries ++ [⟨request.key, w'.session.clock, result⟩] := by
      rw [← Option.some.inj hkept]
    refine ⟨hdistinct, fun e he => ?_, fun x hx => ?_, hwritable⟩
    · rw [hentries] at he
      rcases List.mem_append.mp he with he | he
      · obtain ⟨x, hx, hxkey⟩ := h.known e he
        exact ⟨x, List.mem_append_left _ hx, hxkey⟩
      · rw [List.mem_singleton.mp he]
        exact ⟨(request, result), by simp, rfl⟩
    · rw [hentries]
      rcases List.mem_append.mp hx with hx | hx
      · obtain ⟨e, he, hkey, hvalue⟩ := h.kept x hx
        exact ⟨e, List.mem_append_left _ he, hkey, hvalue⟩
      · rw [List.mem_singleton.mp hx]
        exact ⟨⟨request.key, w'.session.clock, result⟩, by simp, rfl, rfl⟩

theorem opened_eq_openedOn (h : request.target.problems.isEmpty = true) (w : Workbench R) :
    (opened request w).transpiler = w.transpiler.openedOn w.session.today := by
  unfold opened resets Transpiler.openedOn
  by_cases hday : w.session.today = w.transpiler.day
  · rw [if_neg (by simp [hday]), if_pos hday]
  · rw [if_pos (by simp [h, hday]), if_neg hday]

/-- A request in stock gets its result again, and nothing changes but what is said and, on a new
day, the account. -/
theorem transpile_of_stocked (h : Stocked done w) (hfresh : w.Fresh)
    (hmem : (request, result) ∈ done) (huses : usesCache request w = true)
    (htarget : request.target.problems.isEmpty = true)
    (hspent : Quantity.upTo w.transpiler.config.budget.perDay
      (w.transpiler.openedOn w.session.today).spent = false) :
    ∃ console, transpile request w = (.ok (again result),
      ⟨{ w.session with console }, w.transpiler.openedOn w.session.today⟩) := by
  obtain ⟨first, hknown, hvalue⟩ := known_of_stocked h hfresh hmem huses
  rw [← opened_eq_openedOn htarget] at hspent ⊢
  obtain ⟨console, hagain⟩ := transpile_of_known htarget hspent (h.writable _ hmem) hknown
  rw [hvalue] at hagain
  exact ⟨console, hagain⟩

end Workbench

end Cartridge
