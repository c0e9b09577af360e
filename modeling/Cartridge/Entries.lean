/-!
# Entries in order

Values under names, in the order in which the names first came. Setting a name again changes the
value in its place.

* `get?_put_self`, `get?_put_of_ne`: what is found after an entry is set.
-/

namespace Cartridge

/-- Values under names, each name in the place where it first came. -/
abbrev Entries (α : Type) := List (String × α)

namespace Entries

variable {α : Type}

/-- The value of a name. -/
def get? (entries : Entries α) (name : String) : Option α := entries.lookup name

/-- Sets the value of a name: in its place if the name is there, else at the end. -/
def put : Entries α → String → α → Entries α
  | [], name, value => [(name, value)]
  | entry :: rest, name, value =>
    if entry.1 = name then (name, value) :: rest else entry :: put rest name value

/-- Sets several names one after another. -/
def putAll (entries new : Entries α) : Entries α := new.foldl (fun all e => all.put e.1 e.2) entries

def names (entries : Entries α) : List String := entries.map (·.1)

def has (entries : Entries α) (name : String) : Bool := (entries.get? name).isSome

def erase (entries : Entries α) (name : String) : Entries α := entries.filter (·.1 ≠ name)

theorem mem_of_get? {entries : Entries α} {name : String} {value : α}
    (h : entries.get? name = some value) : (name, value) ∈ entries := by
  induction entries with
  | nil => cases h
  | cons entry rest ih =>
    rw [get?, List.lookup_cons] at h
    split at h
    · rename_i hname
      cases h
      rw [beq_iff_eq.mp hname]
      exact List.mem_cons_self
    · exact List.mem_cons_of_mem _ (ih h)

theorem get?_put_self (entries : Entries α) (name : String) (value : α) :
    (entries.put name value).get? name = some value := by
  induction entries with
  | nil => simp [put, get?]
  | cons entry rest ih =>
    by_cases h : entry.1 = name
    · simp [put, get?, h]
    · obtain ⟨k, v⟩ := entry
      have hne : (name == k) = false := by simpa using fun e => h e.symm
      rw [put, if_neg h, get?, List.lookup_cons, hne]
      exact ih

theorem get?_put_of_ne (entries : Entries α) {name other : String} (value : α) (h : other ≠ name) :
    (entries.put name value).get? other = entries.get? other := by
  have hne : (other == name) = false := by simpa using h
  induction entries with
  | nil => rw [put, get?, List.lookup_cons, hne]; rfl
  | cons entry rest ih =>
    obtain ⟨k, v⟩ := entry
    by_cases hk : k = name
    · subst hk
      rw [put, if_pos rfl, get?, get?, List.lookup_cons, List.lookup_cons, hne]
    · rw [put, if_neg hk, get?, get?, List.lookup_cons, List.lookup_cons]
      split
      · rfl
      · exact ih

end Entries

end Cartridge
