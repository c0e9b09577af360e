import Cartridge.Quantity

/-!
# Cache

Results of earlier requests, the oldest first. An entry expires when it is older than the cache
allows; it is dropped when it is next asked for. When there are too many entries the oldest go.

* `get_eq`, `set_eq`: looking up and storing change nothing but the entries.
* `get_some`, `get_of_set`: what is found, and that what was just stored is.
* `mem_of_mem_get`, `mem_of_mem_set`: where the entries come from.
-/

namespace Cartridge

/-- A result with the time at which it was stored. -/
structure Stored (R α : Type) where
  key : String
  time : R
  value : α

/-- Results under keys, the oldest first. -/
structure Cache (R α : Type) where
  maxSize : Int
  /-- Seconds for which an entry is good; zero for ever. -/
  lifetime : Number R
  entries : List (Stored R α) := []

namespace Cache

variable {R α : Type} [Quantity R]

def size (c : Cache R α) : Nat := c.entries.length

/-- Whether an entry stored at `time` has expired by `now`. -/
def expired (c : Cache R α) (time now : R) : Bool :=
  !c.lifetime.isZero && c.lifetime.isBelow (now - time)

def find? (c : Cache R α) (key : String) : Option (Stored R α) := c.entries.find? (·.key = key)

def without (c : Cache R α) (key : String) : List (Stored R α) := c.entries.filter (·.key ≠ key)

/-- Looks a key up at a time; an expired entry is dropped. -/
def get (c : Cache R α) (key : String) (now : R) : Option α × Cache R α :=
  match c.find? key with
  | none => (none, c)
  | some entry =>
    if c.expired entry.time now then (none, { c with entries := c.without key })
    else (some entry.value, c)

/-- Stores a result under a key at a time, as the newest entry. The oldest entries go until there
are at most `maxSize`; a cache that would have to hold fewer than none has no such state. -/
def set (c : Cache R α) (key : String) (value : α) (now : R) : Option (Cache R α) :=
  let entries := c.without key ++ [⟨key, now, value⟩]
  if c.maxSize < 0 then none
  else some { c with entries := entries.drop (entries.length - c.maxSize.toNat) }

def clear (c : Cache R α) : Cache R α := { c with entries := [] }

theorem get_eq (c : Cache R α) (key : String) (now : R) :
    (c.get key now).2 = { c with entries := (c.get key now).2.entries } := by
  unfold get
  split
  · rfl
  · split <;> rfl

omit [Quantity R] in
theorem set_eq {c c' : Cache R α} {key : String} {value : α} {now : R}
    (h : c.set key value now = some c') : c' = { c with entries := c'.entries } := by
  unfold set at h
  dsimp only at h
  split at h
  · cases h
  · cases h
    rfl

theorem get_some {c : Cache R α} {key : String} {now : R} {value : α}
    (h : (c.get key now).1 = some value) :
    (c.get key now).2 = c ∧
      ∃ e ∈ c.entries, e.key = key ∧ e.value = value ∧ c.expired e.time now = false := by
  unfold get at h ⊢
  split at h
  · cases h
  · rename_i e hfind
    split at h
    · cases h
    · rename_i hgood
      cases h
      rw [if_neg hgood]
      have hkey : e.key = key := by simpa using List.find?_some hfind
      exact ⟨rfl, e, List.mem_of_find?_eq_some hfind, hkey, rfl, by simpa using hgood⟩

theorem mem_of_mem_get {c : Cache R α} {key : String} {now : R} {e : Stored R α}
    (h : e ∈ (c.get key now).2.entries) : e ∈ c.entries := by
  unfold get at h
  split at h
  · exact h
  · split at h
    · exact (List.mem_filter.mp h).1
    · exact h

section Set

variable {c c' : Cache R α} {key : String} {now : R} {value : α}

omit [Quantity R] in
theorem mem_of_mem_set {e : Stored R α} (hset : c.set key value now = some c')
    (h : e ∈ c'.entries) : e = ⟨key, now, value⟩ ∨ e ∈ c.entries ∧ e.key ≠ key := by
  unfold set at hset
  dsimp only at hset
  split at hset
  · cases hset
  · cases hset
    rcases List.mem_append.mp (List.mem_of_mem_drop h) with h | h
    · obtain ⟨he, hkey⟩ := List.mem_filter.mp h
      exact .inr ⟨he, of_decide_eq_true hkey⟩
    · exact .inl (List.mem_singleton.mp h)

omit [Quantity R] in
theorem find?_of_set (hset : c.set key value now = some c') (hsize : 0 < c.maxSize) :
    c'.find? key = some ⟨key, now, value⟩ := by
  unfold set at hset
  dsimp only at hset
  rw [if_neg (by omega)] at hset
  cases hset
  -- the newest entry is last, so it stays, and no other entry has its key
  have hdrop : ∀ n ≤ (c.without key).length,
      List.find? (·.key = key) ((c.without key ++ [(⟨key, now, value⟩ : Stored R α)]).drop n) =
        some ⟨key, now, value⟩ := by
    intro n hn
    have hothers : List.find? (·.key = key) ((c.without key).drop n) = none := by
      refine List.find?_eq_none.mpr fun e he => ?_
      simpa using (List.mem_filter.mp (List.mem_of_mem_drop he)).2
    rw [List.drop_append_of_le_length hn, List.find?_append, hothers]
    simp
  refine hdrop _ ?_
  rw [List.length_append, List.length_singleton]
  omega

/-- What was just stored is found, if the cache may hold anything and nothing expires at once. -/
theorem get_of_set (hset : c.set key value now = some c') (hsize : 0 < c.maxSize) {later : R}
    (hgood : c.expired now later = false) : (c'.get key later).1 = some value := by
  have hlifetime : c'.expired now later = false := by
    rw [set_eq hset]
    exact hgood
  unfold get
  rw [find?_of_set hset hsize]
  dsimp only
  rw [if_neg (by simp [hlifetime])]

end Set

end Cache

end Cartridge
