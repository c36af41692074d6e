import DeployManifest.Endpoint.Basic

/-! # What stands where in a document

A path of field names leads to the values that stand under it (`Document.HasAt`). Whether a setting
stands under its path is decided by the setting alone: it does unless it is missing or reset
(`Setting.fieldAt_field`).
-/

namespace DeployManifest

namespace Document

/-- The value stands in the document under a path of field names. -/
def HasAt : Document → List String → Document → Prop
  | d, [], value => d = value
  | .record fields, name :: path, value =>
    ∃ inner, (name, inner) ∈ fields ∧ inner.HasAt path value
  | _, _ :: _, _ => False

/-- The value stands under a path that starts with one of some fields. -/
def FieldAt (fields : List (String × Document)) (name : String) (path : List String)
    (value : Document) : Prop :=
  ∃ inner, (name, inner) ∈ fields ∧ inner.HasAt path value

/-- Something stands under the path. -/
def Has (d : Document) (path : List String) : Prop := ∃ value, d.HasAt path value

variable {fields : List (String × Document)} {name : String} {path : List String}
  {value d : Document}

@[simp] theorem hasAt_nil : d.HasAt [] value ↔ d = value := by
  cases d <;> rfl

@[simp] theorem hasAt_record :
    (record fields).HasAt (name :: path) value ↔ FieldAt fields name path value := Iff.rfl

@[simp] theorem not_hasAt_text {s : String} : ¬ (text s).HasAt (name :: path) value := id

@[simp] theorem not_fieldAt_nil : ¬ FieldAt [] name path value := by
  rintro ⟨_, member, -⟩
  cases member

@[simp] theorem fieldAt_cons {key : String} :
    FieldAt ((key, d) :: fields) name path value ↔
      (key = name ∧ d.HasAt path value) ∨ FieldAt fields name path value := by
  simp only [FieldAt, List.mem_cons, Prod.mk.injEq, or_and_right, exists_or, and_assoc]
  refine or_congr_left ⟨?_, ?_⟩
  · rintro ⟨_, rfl, rfl, inside⟩
    exact ⟨rfl, inside⟩
  · rintro ⟨rfl, inside⟩
    exact ⟨d, rfl, rfl, inside⟩

@[simp] theorem fieldAt_append {first second : List (String × Document)} :
    FieldAt (first ++ second) name path value ↔
      FieldAt first name path value ∨ FieldAt second name path value := by
  simp only [FieldAt, List.mem_append, or_and_right, exists_or]

@[simp] theorem fieldAt_field? {α : Type} {key : String} {write : α → Document} {given : Option α} :
    FieldAt (field? key write given) name path value ↔
      key = name ∧ ∃ a ∈ given, (write a).HasAt path value := by
  cases given <;> simp [field?]

theorem hasAt_append {more : List String} :
    d.HasAt (path ++ more) value ↔ ∃ inner, d.HasAt path inner ∧ inner.HasAt more value := by
  induction path generalizing d with
  | nil => simp
  | cons name path ih =>
    cases d with
    | record fields =>
      simp only [List.cons_append, hasAt_record, FieldAt, ih]
      constructor
      · rintro ⟨field, member, inner, there, inside⟩
        exact ⟨inner, ⟨field, member, there⟩, inside⟩
      · rintro ⟨inner, ⟨field, member, there⟩, inside⟩
        exact ⟨field, member, inner, there, inside⟩
    | null | bool | int | float | text | list =>
      simp only [List.cons_append, HasAt, false_and, exists_false]

theorem Has.of_append {more : List String} (inside : d.Has (path ++ more)) : d.Has path := by
  obtain ⟨value, inside⟩ := inside
  obtain ⟨inner, there, -⟩ := hasAt_append.mp inside
  exact ⟨inner, there⟩

end Document

namespace Setting

/-- The setting is written as the value: it is there and not reset. -/
def IsWritten (setting : Option Setting) (value : Document) : Prop :=
  ∃ v ∈ setting, v ≠ .reset ∧ v.document = value

theorem mem_present?_iff {setting : Option Setting} {v : Setting} :
    v ∈ present? setting ↔ v ∈ setting ∧ v ≠ .reset := by
  unfold present?
  split
  · simp [eq_comm]
  · rename_i given
    constructor
    · rintro ⟨⟩
      exact ⟨rfl, fun reset => given (congrArg some reset)⟩
    · exact And.left

theorem isWritten_iff {setting : Option Setting} {value : Document} :
    IsWritten setting value ↔ ∃ v ∈ present? setting, v.document = value := by
  simp only [IsWritten, mem_present?_iff, and_assoc]

@[simp] theorem fieldAt_field {key name : String} {setting : Option Setting} {value : Document} :
    Document.FieldAt (field key setting) name [] value ↔ key = name ∧ IsWritten setting value := by
  simp only [field, Document.fieldAt_field?, Document.hasAt_nil, isWritten_iff]

theorem isWritten_present? {setting : Option Setting} {value : Document} :
    IsWritten (present? setting) value ↔ IsWritten setting value := by
  simp only [IsWritten, mem_present?_iff, and_assoc, and_self_left]

theorem isOmitted_eq_true_iff {setting : Option Setting} :
    isOmitted setting = true ↔ present? setting = none := by
  rw [isOmitted, Option.isNone_iff_eq_none]

theorem isOmitted_eq_false_iff {setting : Option Setting} :
    isOmitted setting = false ↔ ∃ value, IsWritten setting value := by
  rw [isOmitted, Option.isNone_eq_false_iff, Option.isSome_iff_exists]
  constructor
  · rintro ⟨v, present⟩
    obtain ⟨given, notReset⟩ := mem_present?_iff.mp present
    exact ⟨v.document, v, given, notReset, rfl⟩
  · rintro ⟨_, v, given, notReset, -⟩
    exact ⟨v, mem_present?_iff.mpr ⟨given, notReset⟩⟩

theorem field_of_isOmitted {name : String} {setting : Option Setting}
    (omitted : isOmitted setting = true) : field name setting = [] := by
  rw [field, isOmitted_eq_true_iff.mp omitted]
  rfl

end Setting

namespace KeyMap

variable {α : Type} {write : α → Document} {map : KeyMap α} {key name : String}
  {path : List String} {value : Document}

@[simp] theorem hasAt_document :
    (document write map).HasAt (name :: path) value ↔
      ∃ a, (name, a) ∈ map ∧ (write a).HasAt path value := by
  simp only [document, Document.hasAt_record, Document.FieldAt, List.mem_map, Prod.mk.injEq,
    Prod.exists]
  constructor
  · rintro ⟨_, ⟨_, a, member, rfl, rfl⟩, inside⟩
    exact ⟨a, member, inside⟩
  · rintro ⟨a, member, inside⟩
    exact ⟨write a, ⟨name, a, member, rfl, rfl⟩, inside⟩

@[simp] theorem fieldAt_field :
    Document.FieldAt (field key write map) name path value ↔
      key = name ∧ map ≠ [] ∧ (document write map).HasAt path value := by
  cases map <;> simp [field]

end KeyMap

/-! ### Endpoints -/

namespace Trigger

/-- The names of the fields that hold triggers. -/
def wireNames : List String :=
  ["httpsTrigger", "callableTrigger", "eventTrigger", "blockingTrigger", "scheduleTrigger",
    "taskQueueTrigger"]

theorem wireName_mem (t : Trigger) : t.wireName ∈ wireNames := by
  cases t <;> simp [wireName, wireNames]

theorem wireName_ne {t : Trigger} {name : String} (other : name ∉ wireNames) :
    t.wireName ≠ name := by
  rintro rfl
  exact other t.wireName_mem

end Trigger

namespace Endpoint

variable {e : Endpoint} {name : String} {path : List String} {value : Document}

/-- The fields of a written endpoint without its trigger. -/
def entries (e : Endpoint) : List (String × Document) :=
  [("entryPoint", .text e.entryPoint), ("platform", .text platform)]
    ++ Setting.field "region" e.region
    ++ Setting.field "availableMemoryMb" e.memory
    ++ Setting.field "cpu" e.cpu
    ++ Setting.field "timeoutSeconds" e.timeoutSeconds
    ++ Setting.field "minInstances" e.minInstances
    ++ Setting.field "maxInstances" e.maxInstances
    ++ Setting.field "concurrency" e.concurrency
    ++ Setting.field "serviceAccountEmail" e.serviceAccount
    ++ Setting.field "ingressSettings" e.ingressSettings
    ++ Document.field? "vpc" vpcDocument e.vpc
    ++ Setting.field "labels" e.labels
    ++ secretsField e.secrets
    ++ Setting.field "omit" e.omitted

theorem document_eq :
    e.document = .record (e.entries ++ [(e.trigger.wireName, e.trigger.document)]) := rfl

theorem fieldAt_secrets {secrets : List String} :
    Document.FieldAt (secretsField secrets) name path value ↔
      "secretEnvironmentVariables" = name ∧ secrets ≠ [] ∧
        (Document.list (secrets.map fun key => .record [("key", .text key)])).HasAt path value := by
  cases secrets <;> simp [secretsField]

/-- Under the name of another field stands no part of the trigger. -/
theorem hasAt_entries (other : name ∉ Trigger.wireNames) :
    e.document.HasAt (name :: path) value ↔ Document.FieldAt e.entries name path value := by
  simp [document_eq, Trigger.wireName_ne other]

/-- Under the name of a trigger stands the trigger of the endpoint, or nothing. -/
theorem hasAt_trigger_iff (named : name ∈ Trigger.wireNames) :
    e.document.HasAt (name :: path) value ↔
      e.trigger.wireName = name ∧ e.trigger.document.HasAt path value := by
  have others : ¬ Document.FieldAt e.entries name path value := by
    simp only [Trigger.wireNames, List.mem_cons, List.not_mem_nil, or_false] at named
    rcases named with rfl | rfl | rfl | rfl | rfl | rfl <;>
      simp [entries, fieldAt_secrets, Setting.field]
  simp [document_eq, others]

theorem hasAt_trigger :
    e.document.HasAt (e.trigger.wireName :: path) value ↔
      e.trigger.document.HasAt path value := by
  rw [hasAt_trigger_iff e.trigger.wireName_mem]
  simp

/-- Under the name of the network settings stand these. -/
theorem hasAt_vpc :
    e.document.HasAt ("vpc" :: path) value ↔
      ∃ settings ∈ e.vpc, (vpcDocument settings).HasAt path value := by
  rw [hasAt_entries (by decide)]
  simp [entries, fieldAt_secrets, Setting.field]

theorem hasAt_secrets :
    e.document.HasAt ["secretEnvironmentVariables"] value ↔ e.secrets ≠ [] ∧
      Document.list (e.secrets.map fun key => .record [("key", .text key)]) = value := by
  rw [hasAt_entries (by decide)]
  simp [entries, fieldAt_secrets, Setting.field]

end Endpoint

end DeployManifest
