/-! # Maps in the order of insertion

A map is the list of its entries, in the order in which their keys were first put in. A value that
is put under a key again stays in the place of the first one. `entries_insert` says what is added
under a key that is free.
-/

namespace DeployManifest

/-- The entries of a map, each under a key of its own. -/
structure IndexMap (α : Type) where
  entries : List (String × α)
  distinct : (entries.map (·.1)).Nodup

namespace IndexMap

variable {α : Type}

def empty : IndexMap α := ⟨[], List.nodup_nil⟩

def keys (map : IndexMap α) : List String := map.entries.map (·.1)

def values (map : IndexMap α) : List α := map.entries.map (·.2)

def get? (map : IndexMap α) (key : String) : Option α :=
  (map.entries.find? (·.1 == key)).map (·.2)

def put (key : String) (value : α) : List (String × α) → List (String × α)
  | [] => [(key, value)]
  | (k, v) :: rest => if k = key then (k, value) :: rest else (k, v) :: put key value rest

theorem mem_keys_put {key other : String} {value : α} {entries : List (String × α)} :
    other ∈ (put key value entries).map (·.1) ↔ other = key ∨ other ∈ entries.map (·.1) := by
  induction entries with
  | nil => simp [put]
  | cons entry rest ih =>
    rw [put]
    split
    · rename_i same
      subst same
      simp
    · rw [List.map_cons, List.map_cons, List.mem_cons, ih, List.mem_cons, or_left_comm]

theorem nodup_put {key : String} {value : α} {entries : List (String × α)}
    (distinct : (entries.map (·.1)).Nodup) : ((put key value entries).map (·.1)).Nodup := by
  induction entries with
  | nil => simp [put]
  | cons entry rest ih =>
    obtain ⟨fresh, distinct'⟩ := List.nodup_cons.mp distinct
    rw [put]
    split
    · exact distinct
    · rename_i differs
      refine List.nodup_cons.mpr ⟨fun member => ?_, ih distinct'⟩
      exact (mem_keys_put.mp member).elim differs fresh

def insert (map : IndexMap α) (key : String) (value : α) : IndexMap α :=
  ⟨put key value map.entries, nodup_put map.distinct⟩

theorem get?_eq_none_iff {map : IndexMap α} {key : String} :
    map.get? key = none ↔ ∀ entry ∈ map.entries, entry.1 ≠ key := by
  simp [get?, List.find?_eq_none]

/-- Under a free key a value is put behind the others. -/
theorem entries_insert {map : IndexMap α} {key : String} (value : α)
    (free : map.get? key = none) :
    (map.insert key value).entries = map.entries ++ [(key, value)] := by
  rw [get?_eq_none_iff] at free
  change put key value map.entries = _
  generalize map.entries = entries at free ⊢
  induction entries with
  | nil => rfl
  | cons entry rest ih =>
    obtain ⟨differs, free⟩ := List.forall_mem_cons.mp free
    rw [put, if_neg differs, ih free, List.cons_append]

end IndexMap

end DeployManifest
