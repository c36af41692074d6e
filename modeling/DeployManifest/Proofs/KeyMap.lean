import DeployManifest.KeyMap
import Mathlib.Data.String.Basic
import Mathlib.Logic.Basic
import Mathlib.Order.Defs.Unbundled

/-! # Entries of maps

Where every entry of a map has the value that a function gives its key, nothing is lost when entries
with such values are put in: `IsGraph.insert` and `IsGraph.union` say which keys the map has then.
The keys of a map that is made by insertions ascend (`IsAscending.insert`), so they are distinct.
-/

namespace DeployManifest.KeyMap

/-! ### Order of the keys -/

section Ordered

variable {α κ : Type} {map : KeyMap α κ} {key : κ} {value : α}

/-- The keys of the map ascend. -/
def IsAscending [LT κ] (map : KeyMap α κ) : Prop :=
  map.Pairwise fun first second => first.1 < second.1

theorem IsAscending.nodup [LT κ] [Std.Irrefl ((· < ·) : κ → κ → Prop)]
    (ascending : map.IsAscending) : (map.map (·.1)).Nodup := by
  refine List.pairwise_map.mpr (ascending.imp ?_)
  intro first second less
  exact ne_of_irrefl less

variable [DecidableEq κ]

theorem get?_append (key : κ) (first second : KeyMap α κ) :
    get? key (first ++ second) = (get? key first).or (get? key second) := by
  induction first with
  | nil => rfl
  | cons entry first ih =>
    obtain ⟨k, v⟩ := entry
    rw [List.cons_append, get?, get?, ih]
    split <;> rfl

theorem get?_eq_none (others : ∀ entry ∈ map, entry.1 ≠ key) : get? key map = none := by
  induction map with
  | nil => rfl
  | cons entry map ih =>
    obtain ⟨k, v⟩ := entry
    obtain ⟨differs, others⟩ := List.forall_mem_cons.mp others
    rw [get?, if_neg differs, ih others]

theorem get?_of_mem (distinct : (map.map (·.1)).Nodup) {entry : κ × α} (member : entry ∈ map) :
    map.get? entry.1 = some entry.2 := by
  induction map with
  | nil => cases member
  | cons head rest ih =>
    obtain ⟨k, v⟩ := head
    obtain ⟨fresh, distinct⟩ := List.nodup_cons.mp distinct
    rw [get?]
    rcases List.mem_cons.mp member with rfl | later
    · exact if_pos rfl
    · rw [if_neg (fun same => fresh (List.mem_map.mpr ⟨entry, later, same.symm⟩)),
        ih distinct later]

variable [LT κ] [DecidableLT κ]

theorem forall_mem_insert {holds : κ × α → Prop} (here : holds (key, value))
    (others : ∀ entry ∈ map, holds entry) : ∀ entry ∈ map.insert key value, holds entry := by
  induction map with
  | nil => exact List.forall_mem_singleton.mpr here
  | cons head rest ih =>
    obtain ⟨k, v⟩ := head
    obtain ⟨first, behind⟩ := List.forall_mem_cons.mp others
    rw [KeyMap.insert]
    split
    · exact List.forall_mem_cons.mpr ⟨here, behind⟩
    · split
      · exact List.forall_mem_cons.mpr ⟨here, others⟩
      · exact List.forall_mem_cons.mpr ⟨first, ih behind⟩

theorem IsAscending.insert [IsTrans κ (· < ·)] [Std.Trichotomous ((· < ·) : κ → κ → Prop)]
    (ascending : map.IsAscending) (key : κ) (value : α) : (map.insert key value).IsAscending := by
  induction map with
  | nil => exact List.pairwise_singleton _ _
  | cons head rest ih =>
    obtain ⟨k, v⟩ := head
    obtain ⟨first, behind⟩ := List.pairwise_cons.mp ascending
    rw [KeyMap.insert]
    split
    · rename_i same
      subst same
      exact List.pairwise_cons.mpr ⟨first, behind⟩
    · rename_i differs
      split
      · rename_i less
        refine List.pairwise_cons.mpr ⟨List.forall_mem_cons.mpr ⟨less, ?_⟩, ascending⟩
        exact fun entry member => IsTrans.trans _ _ _ less (first entry member)
      · rename_i notLess
        have greater : k < key := by
          rcases trichotomous_of (· < ·) key k with less | same | greater
          · exact absurd less notLess
          · exact absurd same.symm differs
          · exact greater
        have later : ∀ entry ∈ KeyMap.insert key value rest, k < entry.1 :=
          forall_mem_insert greater first
        exact List.pairwise_cons.mpr ⟨later, ih behind⟩

end Ordered

variable {α : Type} {map first second : KeyMap α} {f : String → α} {key : String} {value : α}

/-- Of entries that are put in under distinct keys, none replaces another. -/
theorem get?_union (distinct : (second.map (·.1)).Nodup) (key : String) :
    (first.union second).get? key = (second.get? key).or (first.get? key) := by
  induction second generalizing first with
  | nil => rfl
  | cons head rest ih =>
    obtain ⟨k, v⟩ := head
    obtain ⟨fresh, distinct⟩ := List.nodup_cons.mp distinct
    change ((first.insert k v).union rest).get? key = _
    rw [ih distinct, get?_insert, get?]
    split
    · rename_i same
      subst same
      rw [get?_eq_none fun entry member same => fresh (List.mem_map.mpr ⟨entry, member, same⟩)]
      rfl
    · rfl

/-! ### Graphs -/

/-- The map has the keys that `names` holds of, each with its value under `f`. -/
def IsGraph (map : KeyMap α) (f : String → α) (names : String → Prop) : Prop :=
  ∀ entry, entry ∈ map ↔ names entry.1 ∧ entry.2 = f entry.1

theorem mem_insert (agrees : ∀ entry ∈ map, entry.2 = f entry.1) {key : String}
    {entry : String × α} : entry ∈ map.insert key (f key) ↔ entry = (key, f key) ∨ entry ∈ map := by
  induction map with
  | nil => simp [insert]
  | cons head rest ih =>
    obtain ⟨k, v⟩ := head
    obtain ⟨same, behind⟩ := List.forall_mem_cons.mp agrees
    obtain rfl : v = f k := same
    rw [insert]
    split
    · rename_i taken
      subst taken
      simp
    · split
      · simp
      · rw [List.mem_cons, ih behind, List.mem_cons, or_left_comm]

theorem mem_union (agrees : ∀ entry ∈ first, entry.2 = f entry.1)
    (others : ∀ entry ∈ second, entry.2 = f entry.1) {entry : String × α} :
    entry ∈ first.union second ↔ entry ∈ first ∨ entry ∈ second := by
  induction second generalizing first with
  | nil => simp [union]
  | cons head rest ih =>
    obtain ⟨k, v⟩ := head
    obtain ⟨same, behind⟩ := List.forall_mem_cons.mp others
    obtain rfl : v = f k := same
    have next : ∀ entry ∈ first.insert k (f k), entry.2 = f entry.1 := by
      intro entry member
      rcases (mem_insert agrees).mp member with rfl | member
      · rfl
      · exact agrees entry member
    change entry ∈ (first.insert k (f k)).union rest ↔ _
    rw [ih next behind, mem_insert agrees, List.mem_cons, or_assoc, or_left_comm]

namespace IsGraph

variable {names others : String → Prop}

theorem agrees (graph : map.IsGraph f names) : ∀ entry ∈ map, entry.2 = f entry.1 :=
  fun entry member => ((graph entry).mp member).2

theorem nil : IsGraph ([] : KeyMap α) f fun _ => False := by
  intro entry
  simp

theorem insert (graph : map.IsGraph f names) (key : String) :
    (map.insert key (f key)).IsGraph f fun name => name = key ∨ names name := by
  intro entry
  rw [mem_insert graph.agrees, graph entry, or_and_right, Prod.ext_iff]
  apply or_congr_left
  constructor <;> rintro ⟨named, valued⟩ <;> simp_all

theorem union (graph : first.IsGraph f names) (other : second.IsGraph f others) :
    (first.union second).IsGraph f fun name => names name ∨ others name := by
  intro entry
  rw [mem_union graph.agrees other.agrees, graph entry, other entry, or_and_right]

theorem get?_eq_some_iff (graph : map.IsGraph f names) {key : String} {value : α} :
    map.get? key = some value ↔ names key ∧ value = f key := by
  rw [← graph (key, value)]
  have agrees := graph.agrees
  clear graph
  induction map with
  | nil => simp [get?]
  | cons head rest ih =>
    obtain ⟨k, v⟩ := head
    obtain ⟨same, behind⟩ := List.forall_mem_cons.mp agrees
    obtain rfl : v = f k := same
    rw [get?, List.mem_cons]
    split
    · rename_i found
      subst found
      constructor
      · rintro ⟨rfl⟩
        exact .inl rfl
      · rintro (first | later)
        · rw [(Prod.mk.inj first).2]
        · rw [← behind _ later]
    · rename_i differs
      refine (ih behind).trans ?_
      simp [Ne.symm differs]

end IsGraph

end DeployManifest.KeyMap
