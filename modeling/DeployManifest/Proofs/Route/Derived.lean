import DeployManifest.Proofs.KeyMap
import DeployManifest.Proofs.Options.Filter
import DeployManifest.Proofs.Route.Key

/-! # Keys that follow from triggers

The compiler makes the key of an endpoint of the address as it is written, the dispatcher of the
trigger. Both make the same key, except for custom events under a type of the platform
(`key?_of_makes`).
-/

namespace DeployManifest

namespace Family

/-- The families whose event types name the action at their end. -/
def suffixed : List (Family × String × String × String) :=
  [.firestore, .database, .storage].zip EventFilter.suffixedFamilies

/-- What a method says after its own start comes back from the end of its event type. -/
theorem eventType_suffixed : ∀ pair ∈ suffixed, ∀ method ∈ pair.1.methods,
    ((pair.1.eventType? method).getD "").toList =
        pair.2.1.toList ++ decapitalize (method.toList.drop pair.2.2.1.toList.length) ∧
      pair.2.2.1 ++ String.ofList
        (capitalize (decapitalize (method.toList.drop pair.2.2.1.toList.length))) = method := by
  decide +kernel

end Family

/-- Does the key of an endpoint follow from its trigger? -/
def Trigger.DerivesKey : Trigger → Prop
  | .event _ => True
  | .blocking _ _ => True
  | .schedule _ _ _ => True
  | _ => False

theorem Trigger.derivesKey_of_key? {t : Trigger} {derived : String} (some : t.key? = some derived) :
    t.DerivesKey := by
  cases t with
  | event _ | blocking _ _ | schedule _ _ _ => trivial
  | https _ | callable | taskQueue _ _ _ => cases some

namespace TriggerSource

variable {s : TriggerSource} {retry : Option Setting} {filter : EventFilter}

/-- The key that the compiler makes. -/
def key (s : TriggerSource) : String :=
  s.family.keyScheme.key s.method (s.address.map (·.value))

/-- The type of the platform's events follows from the family and the method. -/
theorem eventType_eq {f : Family} (family : s.family = f) (notCustom : f ≠ .eventarc) :
    s.eventType = (f.eventType? s.method).getD "" := by
  subst family
  unfold eventType
  split
  · exact absurd ‹_› notCustom
  · exact absurd ‹_› notCustom
  · rfl

/-- The key of an event whose type names the action: the method, and the address that the filter
holds. -/
theorem key_of_suffixed {f : Family} (row : String × String × String)
    (member : (f, row) ∈ Family.suffixed) (family : s.family = f) (method : s.method ∈ f.methods)
    (type : filter.eventType = s.eventType) :
    filter.key = filter.addressKey s.method row.2.2 := by
  obtain ⟨typed, capital⟩ := Family.eventType_suffixed (f, row) member s.method method
  have notCustom : f ≠ .eventarc := by
    rintro rfl
    exact absurd member (by simp [Family.suffixed, EventFilter.suffixedFamilies])
  have known : row ∈ EventFilter.suffixedFamilies := (List.of_mem_zip member).2
  rw [← eventType_eq family notCustom, ← type] at typed
  rw [EventFilter.key_of_suffixed known typed, capital]

theorem get?_filterOr {name default other : String} {entries : KeyMap String}
    (made : s.read (.filterOr name default) = .ok entries) (differs : name ≠ other) :
    entries.get? other = none :=
  KeyMap.get?_eq_none fun entry member => by
    rw [name_of_mem_filterOr made entry member]
    exact differs

/-- A pattern stands for its address in a key, as the key drops the slashes at either end too. -/
theorem addressKey_text {method : String} {address : Address} {p : PathPattern}
    (read : PathPattern.parse address.value = .ok p) :
    KeyScheme.address.key method (some p.text) =
      KeyScheme.address.key method (some address.value) := by
  simp only [KeyScheme.key, PathPattern.sanitizeAddress_text read]

theorem key_of_pubSub (family : s.family = .pubSub) (method : s.method ∈ s.family.methods)
    (type : filter.eventType = s.eventType) : filter.key = filter.addressKey s.method "topic" := by
  rw [family] at method
  obtain only : s.method = "onMessagePublished" := List.mem_singleton.mp method
  rw [eventType_eq family (by decide)] at type
  rw [EventFilter.key_of_messagePublished type, only]

theorem key_of_remoteConfig (family : s.family = .remoteConfig)
    (method : s.method ∈ s.family.methods) (type : filter.eventType = s.eventType) :
    filter.key = s.method := by
  rw [family] at method
  obtain only : s.method = "onConfigUpdated" := List.mem_singleton.mp method
  rw [eventType_eq family (by decide)] at type
  rw [EventFilter.key_of_configUpdated type, only]

theorem key_of_testLab (family : s.family = .testLab) (method : s.method ∈ s.family.methods)
    (type : filter.eventType = s.eventType) : filter.key = s.method := by
  rw [family] at method
  obtain only : s.method = "onTestMatrixCompleted" := List.mem_singleton.mp method
  rw [eventType_eq family (by decide)] at type
  rw [EventFilter.key_of_matrixCompleted type, only]

theorem key_of_firestore (family : s.family = .firestore) (method : s.method ∈ s.family.methods)
    (type : filter.eventType = s.eventType) :
    filter.key = filter.addressKey s.method "document" :=
  key_of_suffixed ("google.cloud.firestore.document.v1.", "onDocument", "document")
    (by decide) family (family ▸ method) type

theorem key_of_database (family : s.family = .database) (method : s.method ∈ s.family.methods)
    (type : filter.eventType = s.eventType) : filter.key = filter.addressKey s.method "ref" :=
  key_of_suffixed ("google.firebase.database.ref.v1.", "onValue", "ref")
    (by decide) family (family ▸ method) type

theorem key_of_storage (family : s.family = .storage) (method : s.method ∈ s.family.methods)
    (type : filter.eventType = s.eventType) : filter.key = filter.addressKey s.method "bucket" :=
  key_of_suffixed ("google.cloud.storage.object.v1.", "onObject", "bucket")
    (by decide) family (family ▸ method) type

theorem key_of_unaddressed (unaddressed : s.address = none) : s.key = s.method := by
  rw [key, unaddressed]
  cases s.family.keyScheme <;> rfl

theorem key_of_addressed {address : Address} (scheme : s.family.keyScheme = .address)
    (addressed : s.address = some address) :
    s.key = KeyScheme.address.key s.method (some address.value) := by
  rw [key, addressed, scheme]
  rfl

/-- All events of a type have the method as their key. -/
theorem key_of_all (event : s.family.isEvent = true) (notCustom : s.family ≠ .eventarc)
    (method : s.method ∈ s.family.methods) (type : filter.eventType = s.eventType)
    (filters : filter.filters = []) (patterns : filter.patterns = []) : filter.key = s.method := by
  have bare (name : String) : filter.addressKey s.method name = s.method := by
    rw [EventFilter.addressKey, filters, patterns]
    rfl
  cases family : s.family with
  | pubSub => exact (key_of_pubSub family method type).trans (bare _)
  | firestore => exact (key_of_firestore family method type).trans (bare _)
  | database => exact (key_of_database family method type).trans (bare _)
  | storage => exact (key_of_storage family method type).trans (bare _)
  | remoteConfig => exact key_of_remoteConfig family method type
  | testLab => exact key_of_testLab family method type
  | eventarc => exact absurd family notCustom
  | https | callable | taskQueue | scheduler | identity =>
    rw [family] at event
    cases event

/-- Events of the platform give the key of the registration. -/
theorem key_of_listens (event : s.family.isEvent = true) (notCustom : s.family ≠ .eventarc)
    (method : s.method ∈ s.family.methods) (listens : s.Listens retry filter) :
    filter.key = s.key := by
  cases listens with
  | topic family addressed =>
    rw [key_of_pubSub family method rfl, key_of_addressed (by rw [family]; rfl) addressed]
    rfl
  | bucket family addressed =>
    rw [key_of_storage family method rfl, key_of_addressed (by rw [family]; rfl) addressed]
    rfl
  | document family addressed read exact databaseGiven spaceGiven =>
    rw [key_of_firestore family method rfl, key_of_addressed (by rw [family]; rfl) addressed,
      EventFilter.addressKey, KeyMap.get?_append, KeyMap.get?_append,
      get?_filterOr databaseGiven (by decide)]
    exact addressKey_text read
  | documents family addressed read captures databaseGiven spaceGiven =>
    rw [key_of_firestore family method rfl, key_of_addressed (by rw [family]; rfl) addressed]
    exact addressKey_text read
  | reference family addressed read instGiven =>
    rw [key_of_database family method rfl, key_of_addressed (by rw [family]; rfl) addressed,
      EventFilter.addressKey, KeyMap.get?_append, get?_filterOr instGiven (by decide)]
    exact addressKey_text read
  | custom family => exact absurd family notCustom
  | all _ unaddressed =>
    rw [key_of_all event notCustom method rfl rfl rfl]
    rcases unaddressed with unaddressed | family | family
    · rw [key_of_unaddressed unaddressed]
    · rw [key, family]
      cases s.address <;> rfl
    · rw [key, family]
      cases s.address <;> rfl

/-- The type of custom events is one that the platform has given away. -/
def IsMisaddressed (s : TriggerSource) : Prop :=
  s.family = .eventarc ∧ ∃ address, s.address = some address ∧
    EventFilter.IsPlatformType address.value

/-- Custom events give the key of the registration unless their type is the platform's. -/
theorem key_of_custom (family : s.family = .eventarc) (method : s.method ∈ s.family.methods)
    (type : filter.eventType = s.eventType) : filter.key = s.key ↔ ¬ s.IsMisaddressed := by
  rw [family] at method
  obtain only : s.method = "onCustomEventPublished" := List.mem_singleton.mp method
  cases addressed : s.address with
  | none =>
    have empty : filter.eventType = "" := by
      rw [type, eventType, family, addressed]
    have custom : ¬ EventFilter.IsPlatformType filter.eventType := by
      rw [empty]
      decide
    rw [key_of_unaddressed addressed, EventFilter.key_of_not_isPlatformType custom, empty, only]
    simp only [IsMisaddressed, addressed, reduceCtorEq, false_and, exists_false, and_false,
      not_false_eq_true, iff_true]
    rfl
  | some address =>
    have typed : filter.eventType = address.value := by
      rw [type, eventType, family, addressed]
    rw [key_of_addressed (by rw [family]; rfl) addressed, only, ← typed,
      EventFilter.key_isCustom_iff, typed]
    simp [IsMisaddressed, family, addressed]

theorem key?_of_blocking (family : s.family = .identity) (method : s.method ∈ s.family.methods)
    (tokens : KeyMap Setting) : (Trigger.blocking s.eventType tokens).key? = some s.method := by
  rw [eventType_eq family (by decide)]
  rw [family] at method
  rcases List.mem_pair.mp method with created | signedIn
  · rw [created]
    rfl
  · rw [signedIn]
    rfl

theorem key?_of_schedule (family : s.family = .scheduler) (method : s.method ∈ s.family.methods)
    (timeZone : Option Setting) (retry : Option Retry) :
    (Trigger.schedule ((s.address.map (·.value)).getD "") timeZone retry).key? = some s.key := by
  rw [family] at method
  obtain only : s.method = "onSchedule" := List.mem_singleton.mp method
  rw [key, family, only]
  cases s.address <;> rfl

/-- A trigger gives no key, if it is under a name of its own, or that of its registration, unless
the type of its events is the platform's. -/
theorem key?_of_makes {t : Trigger} (method : s.method ∈ s.family.methods) (made : s.Makes t) :
    (t.key? = none ∧ ¬ t.DerivesKey ∧ ¬ s.IsMisaddressed) ∨
      ∃ derived, t.key? = some derived ∧ t.DerivesKey ∧ (derived = s.key ↔ ¬ s.IsMisaddressed) := by
  have addressed (notCustom : s.family ≠ .eventarc) : ¬ s.IsMisaddressed :=
    fun mistaken => notCustom mistaken.1
  cases made with
  | https family => exact .inl ⟨rfl, id, addressed (by simp [family])⟩
  | callable family => exact .inl ⟨rfl, id, addressed (by simp [family])⟩
  | taskQueue family => exact .inl ⟨rfl, id, addressed (by simp [family])⟩
  | schedule family =>
    exact .inr ⟨_, key?_of_schedule family method _ _, trivial, by simp [addressed, family]⟩
  | blocking family =>
    refine .inr ⟨_, key?_of_blocking family method _, trivial, ?_⟩
    simp [addressed, family, key, Family.keyScheme, KeyScheme.key]
  | event event _ listens =>
    refine .inr ⟨_, rfl, trivial, ?_⟩
    by_cases custom : s.family = .eventarc
    · exact key_of_custom custom method listens.eventType_eq
    · simp [key_of_listens event custom method listens, addressed custom]

end TriggerSource

end DeployManifest
