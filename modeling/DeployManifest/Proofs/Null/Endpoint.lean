import DeployManifest.Proofs.Null.Value
import DeployManifest.Proofs.Typing.Manifest
import DeployManifest.Proofs.Wire.Path

/-! # Endpoints that are written with a `null`

A field is written unless it is missing or reset, so a reset becomes no `null`. Two places hold a
setting that is written without that question, the connector of the network settings and the tokens
of a blocking trigger, and neither holds a reset (`Registration.isSettled_of_endpoint`). What is
left are the values of the fields (`Endpoint.printsNull_document`).
-/

namespace DeployManifest

open Outcome

/-! ### Fields of records -/

namespace Document

theorem anyNull_field? {α : Type} {name : String} {write : α → Document} {value : Option α} :
    AnyNull (field? name write value) ↔ ∃ a ∈ value, (write a).PrintsNull := by
  cases value <;> simp [field?]

end Document

open Document

/-- A setting that is there and not reset is written with a `null`. -/
def Setting.WritesNull (value : Option Setting) : Prop :=
  ∃ v ∈ value, v ≠ .reset ∧ v.document.PrintsNull

namespace Setting

@[simp] theorem writesNull_none : ¬ WritesNull none := by
  rintro ⟨_, member, -⟩
  cases member

@[simp] theorem writesNull_some {v : Setting} :
    WritesNull (some v) ↔ v ≠ .reset ∧ v.document.PrintsNull := by
  simp [WritesNull]

@[simp] theorem anyNull_field {name : String} {value : Option Setting} :
    AnyNull (field name value) ↔ WritesNull value := by
  simp only [field, anyNull_field?, mem_present?_iff, WritesNull, and_assoc]

end Setting

namespace KeyMap

variable {α : Type} {name : String} {write : α → Document} {map : KeyMap α}

theorem anyNull_field :
    AnyNull (field name write map) ↔ ∃ entry ∈ map, (write entry.2).PrintsNull := by
  cases map with
  | nil => simp [field]
  | cons entry map =>
    rw [field, if_neg (by simp), document, anyNull_cons, printsNull_record, AnyNull]
    simp

theorem not_anyNull_texts {map : KeyMap String} : ¬ AnyNull (field name .text map) := by
  rw [anyNull_field]
  simp

end KeyMap

/-! ### Groups of fields -/

/-- One of the fields holds a setting that is written with a `null`. -/
def TypedField.AnyNull (fields : List TypedField) : Prop :=
  ∃ field ∈ fields, Setting.WritesNull field.value

namespace TypedField

@[simp] theorem anyNull_nil : ¬ AnyNull [] := by
  rintro ⟨_, member, -⟩
  cases member

@[simp] theorem anyNull_cons {field : TypedField} {fields : List TypedField} :
    AnyNull (field :: fields) ↔ Setting.WritesNull field.value ∨ AnyNull fields := by
  simp [AnyNull]

@[simp] theorem anyNull_append {first second : List TypedField} :
    AnyNull (first ++ second) ↔ AnyNull first ∨ AnyNull second := by
  simp [AnyNull, or_and_right, exists_or]

theorem anyNull_getD {α : Type} {group : Option α} {fields : α → List TypedField} :
    AnyNull ((group.map fields).getD []) ↔ ∃ a ∈ group, AnyNull (fields a) := by
  cases group <;> simp

end TypedField

theorem Retry.printsNull_document {attemptsName : String} {r : Retry} :
    (r.document attemptsName).PrintsNull ↔ TypedField.AnyNull (r.fields attemptsName) := by
  simp [Retry.document, Retry.fields]

theorem RateLimits.printsNull_document {limits : RateLimits} :
    limits.document.PrintsNull ↔ TypedField.AnyNull limits.fields := by
  simp [RateLimits.document, RateLimits.fields]

/-! ### Triggers and endpoints -/

/-- No token of a blocking trigger is reset. -/
def Trigger.IsSettled : Trigger → Prop
  | .blocking _ tokens => ∀ token ∈ tokens, token.2 ≠ .reset
  | _ => True

/-- A trigger is written with a `null` if one of its fields is. -/
theorem Trigger.printsNull_document {t : Trigger} (settled : t.IsSettled) :
    t.document.PrintsNull ↔ TypedField.AnyNull t.fields := by
  cases t with
  | https invoker => simp [document, fields]
  | callable => simp [document, fields]
  | event filter =>
    simp [document, fields, printsNull_record, KeyMap.not_anyNull_texts, anyNull_field?]
  | blocking eventType tokens =>
    simp only [document, printsNull_record, anyNull_append, anyNull_cons, anyNull_nil,
      not_printsNull_text, false_or, KeyMap.anyNull_field, fields, TypedField.AnyNull,
      List.mem_map, exists_exists_and_eq_and, Setting.writesNull_some]
    exact exists_congr fun token =>
      and_congr_right fun member => (and_iff_right (settled token member)).symm
  | schedule cron timeZone retry =>
    simp [document, fields, printsNull_record, anyNull_field?, Retry.printsNull_document,
      TypedField.anyNull_getD]
  | taskQueue retry limits invoker =>
    simp only [document, printsNull_record, anyNull_append, anyNull_field?,
      Retry.printsNull_document, RateLimits.printsNull_document, Setting.anyNull_field, fields,
      TypedField.anyNull_cons, TypedField.anyNull_append, TypedField.anyNull_getD]
    exact or_comm

/-- Neither the connector nor a token is reset. -/
structure Endpoint.IsSettled (e : Endpoint) : Prop where
  connector : ∀ vpc ∈ e.vpc, vpc.connector ≠ .reset
  trigger : e.trigger.IsSettled

namespace Endpoint

theorem anyNull_vpc {vpc : Option Vpc} (given : ∀ settings ∈ vpc, settings.connector ≠ .reset) :
    AnyNull (field? "vpc" vpcDocument vpc) ↔
      Setting.WritesNull (vpc.map (·.connector)) ∨ Setting.WritesNull (vpc.bind (·.egress)) := by
  cases vpc with
  | none => simp [field?]
  | some settings =>
    have connector := given settings rfl
    simp [field?, vpcDocument, printsNull_record, connector]

theorem not_anyNull_secrets {secrets : List String} : ¬ AnyNull (secretsField secrets) := by
  cases secrets <;> simp [secretsField]

/-- An endpoint is written with a `null` if one of its fields is. -/
theorem printsNull_document {e : Endpoint} (settled : e.IsSettled) :
    e.document.PrintsNull ↔ TypedField.AnyNull (e.fields ++ e.trigger.fields) := by
  rw [TypedField.anyNull_append, ← Trigger.printsNull_document settled.trigger]
  simp only [document, fields, printsNull_record, anyNull_append, anyNull_cons, anyNull_nil,
    not_printsNull_text, Setting.anyNull_field, anyNull_vpc settled.connector, not_anyNull_secrets,
    TypedField.anyNull_cons, TypedField.anyNull_nil, false_or, or_false, or_assoc]

end Endpoint

/-! ### What compiling leaves -/

theorem BaseOptions.connector_ne_reset {base : BaseOptions} {location : Location}
    {vpc : Option Vpc} (made : base.vpc location = .ok vpc) :
    ∀ settings ∈ vpc, settings.connector ≠ .reset := by
  unfold BaseOptions.vpc at made
  split at made
  · rename_i connector egress present
    cases made
    rintro settings ⟨⟩
    exact (Setting.mem_present?_iff.mp present).2
  · cases made
  · cases made
    simp

theorem TriggerSource.ne_reset_of_token {s : TriggerSource} {name : String}
    {tokens : KeyMap Setting} (made : s.read (.token name) = .ok tokens) :
    ∀ token ∈ tokens, token.2 ≠ .reset := by
  obtain ⟨given, -, rfl⟩ := read_token_eq_ok_iff.mp made
  rw [List.forall_mem_map]
  rintro value member rfl
  cases (Option.filter_eq_some_iff.mp (Option.mem_toList.mp member)).2

theorem TriggerSource.isSettled_of_makes {s : TriggerSource} {t : Trigger} (made : s.Makes t) :
    t.IsSettled := by
  cases made with
  | https | callable | taskQueue | schedule | event => trivial
  | blocking _ idToken accessToken refreshToken =>
    simp only [Trigger.IsSettled, List.forall_mem_append]
    exact ⟨⟨ne_reset_of_token accessToken, ne_reset_of_token idToken⟩,
      ne_reset_of_token refreshToken⟩

theorem Registration.isSettled_of_endpoint {r : Registration} {s : Scope} {globals : GlobalOptions}
    {e : Endpoint} (made : r.endpoint s globals = .ok e) : e.IsSettled := by
  obtain ⟨_, _, _, -, -, triggered, -, assembled⟩ := endpoint_eq_ok_iff.mp made
  refine ⟨?_, TriggerSource.isSettled_of_makes (TriggerSource.makes_of_trigger triggered)⟩
  simp only [BaseOptions.endpoint, bind_eq_ok_iff, pure_eq_ok_iff] at assembled
  obtain ⟨vpc, vpcMade, same⟩ := assembled
  rw [← same]
  exact BaseOptions.connector_ne_reset vpcMade

end DeployManifest
