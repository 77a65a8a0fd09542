import Mathlib.Tactic.Common
import Scaffold.Table

/-! What a table holds: a list of entries with different names is a table as it stands, and an
entry of a table is found under its name, one that was inserted later before the others. -/

namespace Scaffold.Table

variable {α : Type} {t : Table α} {key : String} {value : α}

theorem entries_foldl_insert {entries : List (String × α)}
    (distinct : (t.keys ++ entries.map Prod.fst).Nodup) :
    (entries.foldl (fun t entry => t.insert entry.1 entry.2) t).entries =
      t.entries ++ entries := by
  induction entries generalizing t with
  | nil => exact (List.append_nil _).symm
  | cons entry rest ih =>
    have unknown : entry.1 ∉ t.keys := fun known =>
      (List.nodup_append.1 distinct).2.2 _ known _ List.mem_cons_self rfl
    have added : (t.insert entry.1 entry.2).entries = t.entries ++ [entry] := by
      rw [insert, dif_neg unknown]
    have kept : ((t.insert entry.1 entry.2).keys ++ rest.map Prod.fst).Nodup := by
      rw [keys, added, List.map_append, List.append_assoc]
      exact distinct
    rw [List.foldl_cons, ih kept, added, List.append_assoc, List.singleton_append]

theorem entries_ofList {entries : List (String × α)}
    (distinct : (entries.map Prod.fst).Nodup) : (ofList entries).entries = entries :=
  entries_foldl_insert distinct

theorem get?_eq_some_iff : t.get? key = some value ↔ (key, value) ∈ t.entries := by
  constructor
  · intro found
    obtain ⟨front, back, split, _⟩ := List.lookup_eq_some_iff.1 found
    exact split ▸ List.mem_append_right front List.mem_cons_self
  · intro member
    obtain ⟨front, back, split⟩ := List.append_of_mem member
    refine List.lookup_eq_some_iff.2 ⟨front, back, split, fun entry before => ?_⟩
    have distinct := t.distinct
    rw [split, List.map_append] at distinct
    have apart := (List.nodup_append.1 distinct).2.2 _ (List.mem_map_of_mem before) key
      List.mem_cons_self
    exact bne_iff_ne.2 apart.symm

theorem mem_keys_iff : key ∈ t.keys ↔ ∃ value, t.get? key = some value := by
  constructor
  · intro member
    obtain ⟨entry, inside, rfl⟩ := List.mem_map.1 member
    exact ⟨entry.2, get?_eq_some_iff.2 inside⟩
  · rintro ⟨value, found⟩
    exact List.mem_map_of_mem (get?_eq_some_iff.1 found)

theorem get?_of_mem_front {front back : List (String × α)} (split : t.entries = front ++ back)
    {entry : String × α} (member : entry ∈ front) : t.get? entry.1 = some entry.2 := by
  apply get?_eq_some_iff.2
  rw [split]
  exact List.mem_append_left _ member

theorem lookup_cons (key : String) (value : α) (rest : List (String × α)) (other : String) :
    ((key, value) :: rest).lookup other =
      if other = key then some value else rest.lookup other := by
  rw [List.lookup_cons]
  split_ifs with same
  · rw [same, beq_self_eq_true]
  · rw [beq_false_of_ne same]

/-- A function of the values leaves the names as they are. -/
theorem lookup_map_snd {β : Type} (f : α → β) (entries : List (String × α)) (key : String) :
    (entries.map fun entry => (entry.1, f entry.2)).lookup key = (entries.lookup key).map f := by
  induction entries with
  | nil => rfl
  | cons entry rest ih =>
    rw [List.map_cons, List.lookup_cons, List.lookup_cons, ih]
    cases key == entry.1 <;> rfl

theorem get?_insert (t : Table α) (key : String) (value : α) (other : String) :
    (t.insert key value).get? other = if other = key then some value else t.get? other := by
  split_ifs with same
  · rw [same, get?_insert_self]
  · exact get?_insert_of_ne t value same

theorem get_foldl_insert {σ β : Type} (get : σ → String → Option β)
    {insert : σ → String → β → σ}
    (step : ∀ s name value other,
      get (insert s name value) other = if other = name then some value else get s other)
    (s : σ) {entries : List (String × β)} (distinct : (entries.map Prod.fst).Nodup)
    (key : String) :
    get (entries.foldl (fun s entry => insert s entry.1 entry.2) s) key =
      (entries.lookup key).or (get s key) := by
  induction entries generalizing s with
  | nil => rfl
  | cons entry rest ih =>
    rw [List.map_cons, List.nodup_cons] at distinct
    rw [List.foldl_cons, ih _ distinct.2, step, List.lookup_cons]
    by_cases same : key = entry.1
    · subst same
      rw [lookup_eq_none_of_not_mem distinct.1, beq_self_eq_true, if_pos rfl]
      rfl
    · rw [beq_false_of_ne same, if_neg same]

theorem get?_extend (t u : Table α) (key : String) :
    (t.extend u).get? key = (u.get? key).or (t.get? key) :=
  get_foldl_insert get? get?_insert t u.distinct key

end Scaffold.Table
