/-! # Maps with ordered keys

A map is the list of its entries in ascending order of the keys. The keys are texts, compared code
point by code point, where nothing else is said. `get?_insert` says what a look-up gives after an
entry has been put in.
-/

namespace DeployManifest

/-- The entries of a map, ascending in their keys. -/
abbrev KeyMap (α : Type) (κ : Type := String) := List (κ × α)

namespace KeyMap

variable {α κ : Type} [DecidableEq κ]

def get? (key : κ) : KeyMap α κ → Option α
  | [] => none
  | (k, v) :: rest => if k = key then some v else get? key rest

/-- Puts an entry in its place; an entry with the same key is replaced. -/
def insert [LT κ] [DecidableLT κ] (key : κ) (value : α) : KeyMap α κ → KeyMap α κ
  | [] => [(key, value)]
  | (k, v) :: rest =>
    if k = key then (key, value) :: rest
    else if key < k then (key, value) :: (k, v) :: rest
    else (k, v) :: insert key value rest

/-- The map of a list of entries; of entries with one key the last is kept. -/
def ofList [LT κ] [DecidableLT κ] (entries : List (κ × α)) : KeyMap α κ :=
  entries.foldl (fun map entry => insert entry.1 entry.2 map) []

def union (first second : KeyMap α) : KeyMap α :=
  second.foldl (fun map entry => insert entry.1 entry.2 map) first

theorem get?_insert [LT κ] [DecidableLT κ] (key other : κ) (value : α) (map : KeyMap α κ) :
    get? other (insert key value map) = if key = other then some value else get? other map := by
  induction map with
  | nil => simp [insert, get?]
  | cons entry rest ih =>
    obtain ⟨k, v⟩ := entry
    simp only [insert]
    split
    · rename_i same
      subst same
      simp only [get?]
      split <;> rfl
    · split
      · rfl
      · simp only [get?, ih]
        split
        · rename_i found
          rw [if_neg (fun same => ‹¬k = key› (found.trans same.symm))]
        · rfl

end KeyMap

end DeployManifest
