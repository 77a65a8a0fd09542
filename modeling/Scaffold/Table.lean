/-!
Tables from names to values in order of first insertion. Inserting a name again keeps its
place and takes the new value, so every name occurs once.
-/

namespace Scaffold

structure Table (α : Type) where
  entries : List (String × α)
  distinct : (entries.map Prod.fst).Nodup
  deriving DecidableEq

namespace Table

variable {α : Type}

def empty : Table α := ⟨[], List.nodup_nil⟩

def keys (t : Table α) : List String := t.entries.map Prod.fst

def get? (t : Table α) (key : String) : Option α := t.entries.lookup key

def contains (t : Table α) (key : String) : Bool := t.keys.contains key

/-- The entries with the value of `key` replaced. -/
def replaced (key : String) (value : α) (entries : List (String × α)) : List (String × α) :=
  entries.map fun entry => if entry.1 = key then (entry.1, value) else entry

theorem keys_replaced (key : String) (value : α) (entries : List (String × α)) :
    (replaced key value entries).map Prod.fst = entries.map Prod.fst := by
  simp only [replaced, List.map_map]
  apply List.map_congr_left
  intro entry _
  by_cases same : entry.1 = key <;> simp [same]

def insert (t : Table α) (key : String) (value : α) : Table α :=
  if known : key ∈ t.keys then
    ⟨replaced key value t.entries, by rw [keys_replaced]; exact t.distinct⟩
  else
    ⟨t.entries ++ [(key, value)], by
      rw [List.map_append, List.nodup_append]
      refine ⟨t.distinct, by simp, ?_⟩
      intro name inside other last same
      simp only [List.map_cons, List.map_nil, List.mem_singleton] at last
      exact known (by rw [← last, ← same]; exact inside)⟩

theorem lookup_replaced (key : String) (value : α) (entries : List (String × α))
    (known : key ∈ entries.map Prod.fst) :
    (replaced key value entries).lookup key = some value := by
  induction entries with
  | nil => exact nomatch known
  | cons entry rest ih =>
    obtain ⟨name, old⟩ := entry
    by_cases same : name = key
    · simp [replaced, same]
    · have other : (key == name) = false := by simpa using fun h => same h.symm
      have inside : key ∈ rest.map Prod.fst := by
        rcases List.mem_cons.1 known with h | h
        · exact absurd h.symm same
        · exact h
      have step := ih inside
      simp only [replaced] at step
      simp [replaced, same, List.lookup_cons, other, step]

theorem lookup_replaced_of_ne {key other : String} (value : α) (entries : List (String × α))
    (different : other ≠ key) :
    (replaced key value entries).lookup other = entries.lookup other := by
  induction entries with
  | nil => rfl
  | cons entry rest ih =>
    obtain ⟨name, old⟩ := entry
    simp only [replaced] at ih
    by_cases same : name = key
    · have skipped : (other == key) = false := by simpa using different
      simp [replaced, same, List.lookup_cons, skipped, ih]
    · simp [replaced, same, List.lookup_cons, ih]

theorem lookup_eq_none_of_not_mem {key : String} {entries : List (String × α)}
    (absent : key ∉ entries.map Prod.fst) : entries.lookup key = none := by
  rw [List.lookup_eq_none_iff]
  intro entry member
  have different : key ≠ entry.1 := fun same =>
    absent (same ▸ List.mem_map_of_mem member)
  simpa using different

@[simp] theorem get?_insert_self (t : Table α) (key : String) (value : α) :
    (t.insert key value).get? key = some value := by
  unfold insert
  split
  next known => exact lookup_replaced key value t.entries known
  next unknown =>
    simp [get?, List.lookup_append, lookup_eq_none_of_not_mem unknown]

theorem get?_insert_of_ne (t : Table α) {key other : String} (value : α)
    (different : other ≠ key) : (t.insert key value).get? other = t.get? other := by
  unfold insert
  split
  next known => exact lookup_replaced_of_ne value t.entries different
  next unknown =>
    have skipped : (other == key) = false := by simpa using different
    simp [get?, List.lookup_append, List.lookup_cons, skipped]

def ofList (entries : List (String × α)) : Table α :=
  entries.foldl (fun t entry => t.insert entry.1 entry.2) empty

/-- All entries of `u`, inserted in their order. -/
def extend (t u : Table α) : Table α :=
  u.entries.foldl (fun t entry => t.insert entry.1 entry.2) t

end Table

end Scaffold
