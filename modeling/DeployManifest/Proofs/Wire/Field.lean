import DeployManifest.Options.Base
import DeployManifest.Proofs.Outcome
import DeployManifest.Proofs.Wire.Path
import Mathlib.Data.List.Basic

/-! # Fields that options fill

For each option that holds a setting there is a field of the written endpoint, a conversion, and for
two of them a default (`WireField`). The tables list the fields of every endpoint and those of each
family. A group of fields is left out when nothing stands in it (`HasGroup`).
-/

namespace DeployManifest

open Outcome

/-- A field of a written endpoint, and the option that fills it. -/
structure WireField where
  keyword : String
  conversion : Field → Setting → Except CompileError Setting
  /-- The names of the records that the field stands in. -/
  group : List String
  name : String
  /-- What stands in the field when the option is not given. -/
  default : Option Setting

namespace WireField

/-- The field for an option of a type. -/
def typed (keyword : String) (type : FieldType) (group : List String) (name : String) : WireField :=
  ⟨keyword, fun f value => f.typed type value, group, name, none⟩

/-- Where the field stands. -/
def path (field : WireField) : List String := field.group ++ [field.name]

/-- The endpoint has the value in the field, unless it is missing or reset. -/
def Shows (field : WireField) (e : Endpoint) (value : Option Setting) : Prop :=
  ∀ d, e.document.HasAt field.path d ↔ Setting.IsWritten value d

end WireField

/-! ### Values that conversions keep -/

namespace WireField

/-- The conversion keeps resets, numbers and truth values. -/
structure Keeps (field : WireField) : Prop where
  reset : ∀ f, field.conversion f .reset = .ok .reset
  literal : ∀ f l w, l.isNumber = true ∨ l.isBool = true →
    field.conversion f (.literal l) = .ok w → w = .literal l

theorem keeps_typed {keyword name : String} {type : FieldType} {group : List String}
    {default : Option Setting} :
    (WireField.mk keyword (fun f value => f.typed type value) group name default).Keeps where
  reset f := rfl
  literal f l w _ converted := by
    simp only [Field.typed, bind_eq_ok_iff, pure_eq_ok_iff] at converted
    obtain ⟨_, -, same⟩ := converted
    exact same.symm

theorem keeps_stringList {keyword name : String} {group : List String} {default : Option Setting} :
    (WireField.mk keyword Field.stringList group name default).Keeps where
  reset f := rfl
  literal f l w plain converted := by
    cases l with
    | bool | int | float => cases converted
    | text | list | map => simp [Literal.isNumber, Literal.isBool] at plain

theorem keeps_memory {keyword name : String} {group : List String} {default : Option Setting} :
    (WireField.mk keyword Field.memory group name default).Keeps where
  reset f := rfl
  literal f l w plain converted := by
    simp only [Field.memory, Field.typed, Field.mapLiterals, bind_eq_ok_iff, pure_eq_ok_iff]
      at converted
    obtain ⟨_, ⟨l', done, rfl⟩, _, -, rfl⟩ := converted
    cases l with
    | bool | int | float =>
      cases done
      rfl
    | text | list | map => simp [Literal.isNumber, Literal.isBool] at plain

theorem keeps_stringMapSetting {keyword name : String} {group : List String}
    {default : Option Setting} :
    (WireField.mk keyword Field.stringMapSetting group name default).Keeps where
  reset f := rfl
  literal f l w plain converted := by
    cases l with
    | bool | int | float => cases converted
    | text | list | map => simp [Literal.isNumber, Literal.isBool] at plain

end WireField

/-! ### Tables -/

/-- A field for an option of every endpoint: what the options hold for it, and what an endpoint
does. -/
structure BaseField extends WireField where
  given : BaseOptions → Option Setting
  held : Endpoint → Option Setting

/-- The fields for the options of every endpoint, except for secrets and the network. -/
def baseFields : List BaseField :=
  [⟨⟨"region", Field.stringList, [], "region", some BaseOptions.defaultRegion⟩,
      BaseOptions.region, Endpoint.region⟩,
    ⟨⟨"memory", Field.memory, [], "availableMemoryMb", none⟩, BaseOptions.memory,
      Endpoint.memory⟩,
    ⟨.typed "cpu" .cpu [] "cpu", BaseOptions.cpu, Endpoint.cpu⟩,
    ⟨.typed "timeoutSeconds" .int [] "timeoutSeconds", BaseOptions.timeoutSeconds,
      Endpoint.timeoutSeconds⟩,
    ⟨.typed "minInstances" .int [] "minInstances", BaseOptions.minInstances,
      Endpoint.minInstances⟩,
    ⟨.typed "maxInstances" .int [] "maxInstances", BaseOptions.maxInstances,
      Endpoint.maxInstances⟩,
    ⟨.typed "concurrency" .int [] "concurrency", BaseOptions.concurrency, Endpoint.concurrency⟩,
    ⟨.typed "serviceAccount" .string [] "serviceAccountEmail", BaseOptions.serviceAccount,
      Endpoint.serviceAccount⟩,
    ⟨.typed "ingressSettings" (.oneOf Constants.ingressSettings) [] "ingressSettings",
      BaseOptions.ingressSettings, Endpoint.ingressSettings⟩,
    ⟨⟨"labels", Field.stringMapSetting, [], "labels", none⟩, BaseOptions.labels,
      Endpoint.labels⟩,
    ⟨.typed "omit" .boolean [] "omit", BaseOptions.omitted, Endpoint.omitted⟩]

/-- The fields for the network settings. -/
def vpcFields : List WireField :=
  [.typed "vpcConnector" .string ["vpc"] "connector",
    .typed "vpcConnectorEgressSettings" (.oneOf Constants.egressSettings) ["vpc"] "egressSettings"]

/-- All options of every endpoint have their fields. -/
example : List.Perm (baseFields.map (·.keyword) ++ vpcFields.map (·.keyword) ++ ["secrets"])
    Family.baseOptions := by decide

/-- The fields show what the endpoint holds for them. -/
theorem BaseField.shows_held {e : Endpoint} :
    ∀ field ∈ baseFields, field.Shows e (field.held e) := by
  have entry {name : String} {d : Document} (other : name ∉ Trigger.wireNames) :
      e.document.HasAt [name] d ↔ Document.FieldAt e.entries name [] d :=
    Endpoint.hasAt_entries other
  simp only [baseFields, List.forall_mem_cons]
  refine ⟨?_, ?_, ?_, ?_, ?_, ?_, ?_, ?_, ?_, ?_, ?_, by simp⟩
  all_goals
    intro d
    refine (entry (by decide)).trans ?_
    simp [Endpoint.entries, Endpoint.fieldAt_secrets, WireField.typed]

theorem BaseField.keeps : ∀ field ∈ baseFields, field.Keeps := by
  simp only [baseFields, List.forall_mem_cons]
  exact ⟨WireField.keeps_stringList, WireField.keeps_memory, WireField.keeps_typed,
    WireField.keeps_typed, WireField.keeps_typed, WireField.keeps_typed, WireField.keeps_typed,
    WireField.keeps_typed, WireField.keeps_typed, WireField.keeps_stringMapSetting,
    WireField.keeps_typed, by simp⟩

theorem keeps_vpcFields : ∀ field ∈ vpcFields, field.Keeps := by
  simp only [vpcFields, List.forall_mem_cons]
  exact ⟨WireField.keeps_typed, WireField.keeps_typed, by simp⟩

namespace Family

/-- The fields for settings that repeat failed runs. -/
def retryFields (trigger attemptsName : String) : List WireField :=
  [.typed attemptsName .int [trigger, "retryConfig"] attemptsName,
    .typed "maxRetrySeconds" .int [trigger, "retryConfig"] "maxRetrySeconds",
    .typed "minBackoffSeconds" .int [trigger, "retryConfig"] "minBackoffSeconds",
    .typed "maxBackoffSeconds" .int [trigger, "retryConfig"] "maxBackoffSeconds",
    .typed "maxDoublings" .int [trigger, "retryConfig"] "maxDoublings"]

/-- The fields for the limits of a queue. -/
def limitFields : List WireField :=
  [.typed "maxConcurrentDispatches" .int ["taskQueueTrigger", "rateLimits"]
      "maxConcurrentDispatches",
    .typed "maxDispatchesPerSecond" .number ["taskQueueTrigger", "rateLimits"]
      "maxDispatchesPerSecond"]

/-- The field for those who may invoke an endpoint. -/
def invokerField (trigger : String) : WireField :=
  ⟨"invoker", Field.stringList, [trigger], "invoker", none⟩

/-- The fields for the options of a family that hold settings, except for tokens. -/
def triggerFields : Family → List WireField
  | .https => [invokerField "httpsTrigger"]
  | .callable => []
  | .taskQueue =>
    retryFields "taskQueueTrigger" "maxAttempts" ++ limitFields
      ++ [invokerField "taskQueueTrigger"]
  | .scheduler =>
    retryFields "scheduleTrigger" "retryCount"
      ++ [.typed "timeZone" .string ["scheduleTrigger"] "timeZone"]
  | .identity => []
  | _ =>
    [⟨"retry", fun f value => f.typed .boolean value, ["eventTrigger"], "retry",
      some (.bool false)⟩]

/-- The options of a family are not reserved for its address or handler. -/
theorem not_reserved (family : Family) : ∀ name ∈ baseOptions ++ family.triggerOptions,
    family.addressKeyword? ≠ some name ∧ name ≠ "handler" := by
  cases family <;> decide

theorem keyword_triggerFields (family : Family) :
    ∀ field ∈ family.triggerFields, field.keyword ∈ family.triggerOptions := by
  cases family <;> decide

theorem keeps_triggerFields (family : Family) : ∀ field ∈ family.triggerFields, field.Keeps := by
  have retries (trigger attemptsName : String) :
      ∀ field ∈ retryFields trigger attemptsName, field.Keeps := by
    simp only [retryFields, List.forall_mem_cons]
    exact ⟨WireField.keeps_typed, WireField.keeps_typed, WireField.keeps_typed,
      WireField.keeps_typed, WireField.keeps_typed, by simp⟩
  have limits : ∀ field ∈ limitFields, field.Keeps := by
    simp only [limitFields, List.forall_mem_cons]
    exact ⟨WireField.keeps_typed, WireField.keeps_typed, by simp⟩
  cases family with
  | https => exact List.forall_mem_singleton.mpr WireField.keeps_stringList
  | callable | identity => simp [triggerFields]
  | taskQueue =>
    simp only [triggerFields, List.forall_mem_append, List.forall_mem_singleton]
    exact ⟨⟨retries _ _, limits⟩, WireField.keeps_stringList⟩
  | scheduler =>
    simp only [triggerFields, List.forall_mem_append, List.forall_mem_singleton]
    exact ⟨retries _ _, WireField.keeps_typed⟩
  | pubSub | firestore | database | storage | eventarc | remoteConfig | testLab =>
    exact List.forall_mem_singleton.mpr WireField.keeps_typed

end Family

/-! ### Groups of settings -/

/-- An endpoint has a group of fields, unless nothing stands in it. -/
def HasGroup (e : Endpoint) (group : List String) (isEmpty : Bool) (whole : Document) : Prop :=
  ∀ path d, e.document.HasAt (group ++ path) d ↔ isEmpty = false ∧ whole.HasAt path d

namespace HasGroup

variable {e : Endpoint} {group : List String} {isEmpty : Bool} {whole : Document}

theorem hasAt_iff (stands : HasGroup e group isEmpty whole)
    (empty : isEmpty = true → whole = .record []) {name : String} {d : Document} :
    e.document.HasAt (group ++ [name]) d ↔ whole.HasAt [name] d := by
  refine (stands [name] d).trans ?_
  cases isEmpty with
  | true => simp [empty rfl]
  | false => simp

/-- The group is there only with one of its fields. -/
theorem exists_field {fields : List WireField} (stands : HasGroup e group isEmpty whole)
    (grouped : ∀ field ∈ fields, field.group = group)
    (filled : isEmpty = false → ∃ field ∈ fields, whole.Has [field.name])
    (given : e.document.Has group) :
    ∃ field ∈ fields, field.group = group ∧ e.document.Has field.path := by
  obtain ⟨d, given⟩ := given
  rw [← List.append_nil group] at given
  have present := ((stands [] d).mp given).1
  obtain ⟨field, member, d, inside⟩ := filled present
  refine ⟨field, member, grouped field member, d, ?_⟩
  rw [WireField.path, grouped field member]
  exact (stands [field.name] d).mpr ⟨present, inside⟩

end HasGroup

namespace Retry

variable {trigger attemptsName : String} {r : Retry}

theorem hasAt_orNone {path : List String} {d : Document} :
    (∃ a ∈ r.orNone, (a.document attemptsName).HasAt path d) ↔
      r.isEmpty = false ∧ (r.document attemptsName).HasAt path d := by
  unfold orNone
  cases r.isEmpty <;> simp

theorem document_of_isEmpty (empty : r.isEmpty = true) : r.document attemptsName = .record [] := by
  simp only [isEmpty, Bool.and_eq_true] at empty
  obtain ⟨⟨⟨⟨attempts, maxRetry⟩, minBackoff⟩, maxBackoff⟩, doublings⟩ := empty
  simp only [document, Setting.field_of_isOmitted attempts, Setting.field_of_isOmitted maxRetry,
    Setting.field_of_isOmitted minBackoff, Setting.field_of_isOmitted maxBackoff,
    Setting.field_of_isOmitted doublings, List.append_nil]

theorem exists_of_isEmpty_eq_false (given : r.isEmpty = false) :
    ∃ field ∈ Family.retryFields trigger attemptsName,
      (r.document attemptsName).Has [field.name] := by
  simp only [isEmpty, Bool.and_eq_false_iff, Setting.isOmitted_eq_false_iff] at given
  simp only [Family.retryFields, List.exists_mem_cons_iff, Document.Has, document,
    Document.hasAt_record, Document.fieldAt_append, Setting.fieldAt_field, WireField.typed]
  rcases given with (((⟨d, set⟩ | ⟨d, set⟩) | ⟨d, set⟩) | ⟨d, set⟩) | ⟨d, set⟩
  · exact .inl ⟨d, by simp [set]⟩
  · exact .inr (.inl ⟨d, by simp [set]⟩)
  · exact .inr (.inr (.inl ⟨d, by simp [set]⟩))
  · exact .inr (.inr (.inr (.inl ⟨d, by simp [set]⟩)))
  · exact .inr (.inr (.inr (.inr (.inl ⟨d, by simp [set]⟩))))

theorem exists_field {e : Endpoint}
    (stands : HasGroup e [trigger, "retryConfig"] r.isEmpty (r.document attemptsName))
    (given : e.document.Has [trigger, "retryConfig"]) :
    ∃ field ∈ Family.retryFields trigger attemptsName,
      field.group = [trigger, "retryConfig"] ∧ e.document.Has field.path :=
  stands.exists_field (by simp [Family.retryFields, WireField.typed]) exists_of_isEmpty_eq_false
    given

end Retry

namespace RateLimits

variable {limits : RateLimits}

theorem hasAt_orNone {path : List String} {d : Document} :
    (∃ a ∈ limits.orNone, a.document.HasAt path d) ↔
      limits.isEmpty = false ∧ limits.document.HasAt path d := by
  unfold orNone
  cases limits.isEmpty <;> simp

theorem document_of_isEmpty (empty : limits.isEmpty = true) : limits.document = .record [] := by
  simp only [isEmpty, Bool.and_eq_true] at empty
  obtain ⟨concurrent, perSecond⟩ := empty
  simp only [document, Setting.field_of_isOmitted concurrent,
    Setting.field_of_isOmitted perSecond, List.append_nil]

theorem exists_of_isEmpty_eq_false (given : limits.isEmpty = false) :
    ∃ field ∈ Family.limitFields, limits.document.Has [field.name] := by
  simp only [isEmpty, Bool.and_eq_false_iff, Setting.isOmitted_eq_false_iff] at given
  simp only [Family.limitFields, List.exists_mem_cons_iff, Document.Has, document,
    Document.hasAt_record, Document.fieldAt_append, Setting.fieldAt_field, WireField.typed]
  rcases given with ⟨d, set⟩ | ⟨d, set⟩
  · exact .inl ⟨d, by simp [set]⟩
  · exact .inr (.inl ⟨d, by simp [set]⟩)

theorem exists_field {e : Endpoint}
    (stands : HasGroup e ["taskQueueTrigger", "rateLimits"] limits.isEmpty limits.document)
    (given : e.document.Has ["taskQueueTrigger", "rateLimits"]) :
    ∃ field ∈ Family.limitFields,
      field.group = ["taskQueueTrigger", "rateLimits"] ∧ e.document.Has field.path :=
  stands.exists_field (by simp [Family.limitFields, WireField.typed]) exists_of_isEmpty_eq_false
    given

end RateLimits

end DeployManifest
