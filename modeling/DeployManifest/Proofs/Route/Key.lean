import DeployManifest.Proofs.Text
import DeployManifest.Route.Basic

/-! # Keys that follow from event types

The dispatcher tells the method of an event endpoint by the type of its events. Some types have a
method of their own, others share the start of their type with a family, and all that is left are
custom events. `key_isCustom_iff` says that a key is that of a custom event only for the last kind.
-/

namespace DeployManifest

namespace KeyScheme

/-- A key of an address starts with the method. -/
theorem prefix_key_address (method : String) (resource : Option String) :
    method.toList <+: (KeyScheme.address.key method resource).toList := by
  cases resource with
  | none => exact List.prefix_rfl
  | some resource =>
    change method.toList <+: (join method (sanitizeAddress resource)).toList
    rw [join]
    split
    · exact List.prefix_rfl
    · rw [String.toList_append, String.toList_append, List.append_assoc]
      exact List.prefix_append ..

end KeyScheme

namespace EventFilter

/-- The types of events that a method has to itself, each with the start of its keys. -/
def fixedTypes : List (String × String) :=
  [("google.cloud.pubsub.topic.v1.messagePublished", "onMessagePublished"),
    ("google.firebase.remoteconfig.remoteConfig.v1.updated", "onConfigUpdated"),
    ("google.firebase.testlab.testMatrix.v1.completed", "onTestMatrixCompleted")]

/-- Events of the type belong to a family of the platform, not to the custom ones. -/
def IsPlatformType (eventType : String) : Prop :=
  eventType ∈ fixedTypes.map (·.1) ∨
    ∃ row ∈ suffixedFamilies, row.1.toList <+: eventType.toList

instance (eventType : String) : Decidable (IsPlatformType eventType) :=
  inferInstanceAs (Decidable (_ ∨ ∃ row ∈ suffixedFamilies, row.1.toList <+: eventType.toList))

theorem suffixedFamilies_pairwise :
    suffixedFamilies.Pairwise fun a b =>
      ¬ a.1.toList <+: b.1.toList ∧ ¬ b.1.toList <+: a.1.toList := by
  decide

theorem not_prefix_fixedTypes :
    ∀ row ∈ suffixedFamilies, ∀ fixed ∈ fixedTypes, ¬ row.1.toList <+: fixed.1.toList := by
  decide

variable {filter : EventFilter}

/-- The first row that a type starts with is the only one, as no row starts with another. -/
theorem suffixedKey?_eq_some {rows : List (String × String × String)}
    {row : String × String × String} {action : List Char}
    (apart : rows.Pairwise fun a b => ¬ a.1.toList <+: b.1.toList ∧ ¬ b.1.toList <+: a.1.toList)
    (member : row ∈ rows) (type : filter.eventType.toList = row.1.toList ++ action) :
    filter.suffixedKey? rows =
      some (filter.addressKey (row.2.1 ++ String.ofList (capitalize action)) row.2.2) := by
  induction rows with
  | nil => cases member
  | cons first rest ih =>
    obtain ⟨typeStart, methodStart, name⟩ := first
    rw [List.pairwise_cons] at apart
    rcases List.mem_cons.mp member with rfl | member
    · rw [suffixedKey?, Text.after?_eq_some_iff.mpr type]
    · have missed : Text.after? typeStart.toList filter.eventType.toList = none := by
        rw [Option.eq_none_iff_forall_ne_some]
        intro other found
        rw [Text.after?_eq_some_iff] at found
        have comparable := List.prefix_or_prefix_of_prefix
          (found ▸ List.prefix_append ..) (type ▸ List.prefix_append ..)
        exact comparable.elim (apart.1 row member).1 (apart.1 row member).2
      rw [suffixedKey?, missed]
      exact ih apart.2 member

theorem suffixedKey?_eq_none_iff {rows : List (String × String × String)} :
    filter.suffixedKey? rows = none ↔ ∀ row ∈ rows, ¬ row.1.toList <+: filter.eventType.toList := by
  induction rows with
  | nil => simp [suffixedKey?]
  | cons first rest ih =>
    obtain ⟨typeStart, methodStart, name⟩ := first
    rw [suffixedKey?, List.forall_mem_cons, ← ih]
    cases found : Text.after? typeStart.toList filter.eventType.toList with
    | none =>
      have missed : ¬ typeStart.toList <+: filter.eventType.toList := by
        rintro ⟨action, same⟩
        rw [Text.after?_eq_some_iff.mpr same.symm] at found
        cases found
      simp [missed]
    | some action =>
      have start : typeStart.toList <+: filter.eventType.toList :=
        ⟨action, (Text.after?_eq_some_iff.mp found).symm⟩
      simp [start]

/-- A type that starts like those of a family gives a key of the family's methods. -/
theorem key_of_suffixed {row : String × String × String} {action : List Char}
    (member : row ∈ suffixedFamilies) (type : filter.eventType.toList = row.1.toList ++ action) :
    filter.key = filter.addressKey (row.2.1 ++ String.ofList (capitalize action)) row.2.2 := by
  have start : row.1.toList <+: filter.eventType.toList := ⟨action, type.symm⟩
  have notFixed : ∀ fixed ∈ fixedTypes, filter.eventType ≠ fixed.1 := by
    intro fixed present same
    rw [same] at start
    exact not_prefix_fixedTypes row member fixed present start
  simp only [fixedTypes, List.forall_mem_cons] at notFixed
  obtain ⟨notPubSub, notConfig, notMatrix, -⟩ := notFixed
  rw [key, if_neg notPubSub, if_neg notConfig, if_neg notMatrix,
    suffixedKey?_eq_some suffixedFamilies_pairwise member type]

/-- Any other type is that of a custom event, which has the type as its address. -/
theorem key_of_not_isPlatformType (custom : ¬ IsPlatformType filter.eventType) :
    filter.key = KeyScheme.address.key "onCustomEventPublished" (some filter.eventType) := by
  rw [IsPlatformType, not_or] at custom
  obtain ⟨notFixed, notSuffixed⟩ := custom
  simp only [fixedTypes, List.map_cons, List.map_nil, List.mem_cons, List.not_mem_nil, or_false,
    not_or] at notFixed
  have unknown : filter.suffixedKey? suffixedFamilies = none := by
    rw [suffixedKey?_eq_none_iff]
    intro row member start
    exact notSuffixed ⟨row, member, start⟩
  rw [key, if_neg notFixed.1, if_neg notFixed.2.1, if_neg notFixed.2.2, unknown]

theorem key_of_messagePublished
    (type : filter.eventType = "google.cloud.pubsub.topic.v1.messagePublished") :
    filter.key = filter.addressKey "onMessagePublished" "topic" := by
  rw [key, if_pos type]

theorem key_of_configUpdated
    (type : filter.eventType = "google.firebase.remoteconfig.remoteConfig.v1.updated") :
    filter.key = "onConfigUpdated" := by
  rw [key, if_neg (by rw [type]; decide), if_pos type]

theorem key_of_matrixCompleted
    (type : filter.eventType = "google.firebase.testlab.testMatrix.v1.completed") :
    filter.key = "onTestMatrixCompleted" := by
  rw [key, if_neg (by rw [type]; decide), if_neg (by rw [type]; decide), if_pos type]

/-- The starts of the keys that types of the platform give. -/
def platformStarts : List String := fixedTypes.map (·.2) ++ suffixedFamilies.map (·.2.1)

/-- A type of the platform gives a key that starts with a method of the platform. -/
theorem prefix_key_of_isPlatformType (platform : IsPlatformType filter.eventType) :
    ∃ start ∈ platformStarts, start.toList <+: filter.key.toList := by
  rcases platform with fixed | ⟨row, member, action, type⟩
  · simp only [fixedTypes, List.map_cons, List.map_nil, List.mem_cons, List.not_mem_nil,
      or_false] at fixed
    rcases fixed with type | type | type
    · refine ⟨"onMessagePublished", by decide, ?_⟩
      rw [key_of_messagePublished type]
      exact KeyScheme.prefix_key_address ..
    · exact ⟨"onConfigUpdated", by decide, key_of_configUpdated type ▸ List.prefix_rfl⟩
    · exact ⟨"onTestMatrixCompleted", by decide, key_of_matrixCompleted type ▸ List.prefix_rfl⟩
  · refine ⟨row.2.1, ?_, ?_⟩
    · exact List.mem_append_right _ (List.mem_map_of_mem member)
    · rw [key_of_suffixed member type.symm]
      refine List.IsPrefix.trans ?_ (KeyScheme.prefix_key_address ..)
      rw [String.toList_append]
      exact List.prefix_append ..

theorem not_prefix_platformStarts :
    ∀ start ∈ platformStarts, ¬ start.toList <+: "onCustomEventPublished".toList ∧
      ¬ "onCustomEventPublished".toList <+: start.toList := by
  decide

/-- The dispatcher gives the key of a custom event to the types that are not the platform's. -/
theorem key_isCustom_iff (filter : EventFilter) :
    filter.key = KeyScheme.address.key "onCustomEventPublished" (some filter.eventType) ↔
      ¬ IsPlatformType filter.eventType := by
  constructor
  · intro same platform
    obtain ⟨start, member, front⟩ := prefix_key_of_isPlatformType platform
    have custom := KeyScheme.prefix_key_address "onCustomEventPublished" (some filter.eventType)
    rw [← same] at custom
    have apart := not_prefix_platformStarts start member
    exact (List.prefix_or_prefix_of_prefix front custom).elim apart.1 apart.2
  · exact key_of_not_isPlatformType

end EventFilter

end DeployManifest
