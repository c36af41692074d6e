import DeployManifest.Proofs.Options.Base
import DeployManifest.Proofs.Typing.Field

/-! # Types of endpoint fields

Every field of an endpoint that holds a setting is for an option and has a type. What it holds comes
from the option, which is given for the endpoint or for all, or is a literal that stands in for it
(`TypedField.IsSound`).
-/

namespace DeployManifest

open Outcome

/-- A field: the option that it is for, its type, and what it holds. -/
structure TypedField where
  option : String
  type : ValueType
  value : Option Setting

/-- Where the value of a field comes from: the option, or a default if it is not given. -/
inductive Source (given : Option OptionValue) : Setting → Prop where
  | given {o : OptionValue} (found : given = some o) : Source given o.value
  | default (missing : given = none) (l : Literal) : Source given (.literal l)

namespace TypedField

/-- The field holds what has been given, or nothing if nothing has. -/
def Fits (params : List Param) (given : Option OptionValue) (field : TypedField) : Prop :=
  Option.Rel (fun o v => Content.Conveys params field.type o.value v) given field.value

/-- What the field holds is of its type, and comes from the option or a default. -/
def IsSound (params : List Param) (given : String → Option OptionValue)
    (field : TypedField) : Prop :=
  ∀ v ∈ field.value, ∃ source, Source (given field.option) source ∧
    Content.Conveys params field.type source v

variable {params : List Param} {given : String → Option OptionValue} {field : TypedField}

theorem Fits.isSound (fits : field.Fits params (given field.option)) :
    field.IsSound params given := by
  intro v holds
  obtain ⟨option, type, value⟩ := field
  obtain rfl := Option.mem_def.mp holds
  dsimp only at fits ⊢
  generalize given option = o at fits
  cases fits with
  | some conveys => exact ⟨_, .given rfl, conveys⟩

theorem IsSound.mono {option : String} {type : ValueType} {held kept : Option Setting}
    (kept_subset : ∀ v ∈ kept, v ∈ held)
    (sound : (⟨option, type, held⟩ : TypedField).IsSound params given) :
    (⟨option, type, kept⟩ : TypedField).IsSound params given :=
  fun v holds => sound v (kept_subset v holds)

/-- A field that holds a literal when nothing has been given. -/
theorem Fits.isSound_default {option : String} {type : ValueType} {value : Option Setting}
    {l : Literal} (fits : (⟨option, type, value⟩ : TypedField).Fits params (given option))
    (ofType : type.has l = true) :
    (⟨option, type, value.or (some (.literal l))⟩ : TypedField).IsSound params given := by
  cases value with
  | none =>
    rintro v ⟨⟩
    have missing : given option = none := by
      rw [Fits] at fits
      generalize given option = o at fits
      cases fits
      rfl
    exact ⟨_, .default missing l, Content.conveys_self (Setting.isTyped_literal ofType)⟩
  | some v => exact fits.isSound

/-- The field with what another one holds in place of nothing. -/
def orElse (first second : TypedField) : TypedField :=
  ⟨first.option, first.type, first.value.or second.value⟩

theorem Fits.orElse {first second : TypedField} {own shared : Option OptionValue}
    (type : first.type = second.type) (firstFits : first.Fits params own)
    (secondFits : second.Fits params shared) :
    (first.orElse second).Fits params (own.or shared) := by
  rw [Fits] at firstFits secondFits ⊢
  rw [← type] at secondFits
  change Option.Rel _ (own.or shared) (first.value.or second.value)
  generalize first.value = a at firstFits
  cases firstFits with
  | none => exact secondFits
  | some conveys => exact .some conveys

end TypedField

/-! ### Options of every endpoint -/

namespace OptionSet

variable {options : OptionSet} {params : ParamTable} {name : String} {T : ValueType}

theorem fits_of_convert {conversion : Field → Setting → Except CompileError Setting}
    {value : Option Setting}
    (conveys : ∀ (o : OptionValue) v, o ∈ options →
      conversion ⟨params, name, o.location⟩ o.value = .ok v →
      Content.Conveys params.params T o.value v)
    (converted : options.convert params name conversion = .ok value) :
    (⟨name, T, value⟩ : TypedField).Fits params.params (options.option? name) := by
  cases value with
  | none =>
    rw [convert_eq_ok_none_iff.mp converted]
    exact .none
  | some v =>
    obtain ⟨o, found, done⟩ := convert_eq_ok_some_iff.mp converted
    rw [found]
    exact .some (conveys o v (List.mem_of_find?_eq_some found) done)

/-- All options are settings over the parameters. -/
def IsClosed (options : OptionSet) (params : ParamTable) : Prop :=
  ∀ o ∈ options, o.value.IsClosed params.params (fun _ => True)

theorem fits_of_typed {type : FieldType} {value : Option Setting} (distinct : params.Distinct)
    (closed : options.IsClosed params) (denotes : type.Denotes T)
    (converted : options.typed params name type = .ok value) :
    (⟨name, T, value⟩ : TypedField).Fits params.params (options.option? name) :=
  fits_of_convert (fun o _ member done =>
    Field.conveys_of_typed (f := ⟨params, name, o.location⟩) distinct denotes
      (closed o member) done)
    converted

end OptionSet

namespace BaseOptions

/-- The fields that are for the options of every endpoint. -/
def fields (base : BaseOptions) : List TypedField :=
  [⟨"region", .texts, base.region⟩, ⟨"memory", .integer, base.memory⟩,
    ⟨"cpu", .processors, base.cpu⟩, ⟨"timeoutSeconds", .integer, base.timeoutSeconds⟩,
    ⟨"minInstances", .integer, base.minInstances⟩, ⟨"maxInstances", .integer, base.maxInstances⟩,
    ⟨"concurrency", .integer, base.concurrency⟩, ⟨"serviceAccount", .text, base.serviceAccount⟩,
    ⟨"ingressSettings", .text, base.ingressSettings⟩, ⟨"vpcConnector", .text, base.vpcConnector⟩,
    ⟨"vpcConnectorEgressSettings", .text, base.vpcEgress⟩, ⟨"labels", .textMap, base.labels⟩,
    ⟨"omit", .boolean, base.omitted⟩]

variable {options : OptionSet} {params : ParamTable} {base : BaseOptions}

theorem fits_of_ofOptions (distinct : params.Distinct) (closed : options.IsClosed params)
    (converted : ofOptions options params = .ok base) :
    ∀ field ∈ base.fields, field.Fits params.params (options.option? field.option) := by
  have c := ofOptions_eq_ok_iff.mp converted
  simp only [fields, List.forall_mem_cons]
  refine ⟨OptionSet.fits_of_convert ?_ c.region, OptionSet.fits_of_convert ?_ c.memory,
    OptionSet.fits_of_typed distinct closed FieldType.cpu_denotes c.cpu,
    OptionSet.fits_of_typed distinct closed FieldType.int_denotes c.timeoutSeconds,
    OptionSet.fits_of_typed distinct closed FieldType.int_denotes c.minInstances,
    OptionSet.fits_of_typed distinct closed FieldType.int_denotes c.maxInstances,
    OptionSet.fits_of_typed distinct closed FieldType.int_denotes c.concurrency,
    OptionSet.fits_of_typed distinct closed FieldType.string_denotes c.serviceAccount,
    OptionSet.fits_of_typed distinct closed (FieldType.oneOf_denotes _) c.ingressSettings,
    OptionSet.fits_of_typed distinct closed FieldType.string_denotes c.vpcConnector,
    OptionSet.fits_of_typed distinct closed (FieldType.oneOf_denotes _) c.vpcEgress,
    OptionSet.fits_of_convert ?_ c.labels,
    OptionSet.fits_of_typed distinct closed FieldType.boolean_denotes c.omitted, by simp⟩
  · intro o v member done
    exact Field.conveys_of_stringList (f := ⟨params, "region", o.location⟩) distinct
      (closed o member) done
  · intro o v member done
    exact Field.conveys_of_memory (f := ⟨params, "memory", o.location⟩) distinct (closed o member)
      done
  · intro o v _ done
    exact Field.conveys_of_stringMapSetting done

theorem fields_orElse (base fallback : BaseOptions) :
    (base.orElse fallback).fields = (base.fields.zip fallback.fields).map
      fun pair => pair.1.orElse pair.2 := rfl

/-- Both ways of giving an option are for the same field. -/
theorem fields_aligned (base fallback : BaseOptions) :
    ∀ pair ∈ base.fields.zip fallback.fields,
      pair.1.option = pair.2.option ∧ pair.1.type = pair.2.type := by
  simp [fields]

theorem fits_orElse {fallback : BaseOptions} {own shared : String → Option OptionValue}
    {params : List Param} (baseFits : ∀ field ∈ base.fields, field.Fits params (own field.option))
    (fallbackFits : ∀ field ∈ fallback.fields, field.Fits params (shared field.option)) :
    ∀ field ∈ (base.orElse fallback).fields,
      field.Fits params ((own field.option).or (shared field.option)) := by
  intro field member
  rw [fields_orElse] at member
  obtain ⟨pair, together, rfl⟩ := List.mem_map.mp member
  obtain ⟨first, second⟩ := List.of_mem_zip together
  obtain ⟨option, type⟩ := fields_aligned base fallback pair together
  change (pair.1.orElse pair.2).Fits params ((own pair.1.option).or (shared pair.1.option))
  refine .orElse type (baseFits _ first) ?_
  rw [option]
  exact fallbackFits _ second

end BaseOptions

namespace Endpoint

/-- The fields that are for the options of every endpoint. -/
def fields (e : Endpoint) : List TypedField :=
  [⟨"region", .texts, e.region⟩, ⟨"memory", .integer, e.memory⟩, ⟨"cpu", .processors, e.cpu⟩,
    ⟨"timeoutSeconds", .integer, e.timeoutSeconds⟩, ⟨"minInstances", .integer, e.minInstances⟩,
    ⟨"maxInstances", .integer, e.maxInstances⟩, ⟨"concurrency", .integer, e.concurrency⟩,
    ⟨"serviceAccount", .text, e.serviceAccount⟩, ⟨"ingressSettings", .text, e.ingressSettings⟩,
    ⟨"vpcConnector", .text, e.vpc.map (·.connector)⟩,
    ⟨"vpcConnectorEgressSettings", .text, e.vpc.bind (·.egress)⟩, ⟨"labels", .textMap, e.labels⟩,
    ⟨"omit", .boolean, e.omitted⟩]

end Endpoint

namespace BaseOptions

variable {base : BaseOptions} {params : List Param} {given : String → Option OptionValue}

theorem mem_of_mem_present? {setting : Option Setting} :
    ∀ v ∈ Setting.present? setting, v ∈ setting := by
  intro v present
  unfold Setting.present? at present
  split at present
  · cases present
  · exact present

/-- The network settings are those that are given and not reset. -/
theorem vpc_subset {location : Location} {vpc : Option Vpc} (made : base.vpc location = .ok vpc) :
    (∀ v ∈ vpc.map (·.connector), v ∈ base.vpcConnector) ∧
      ∀ v ∈ vpc.bind (·.egress), v ∈ base.vpcEgress := by
  unfold BaseOptions.vpc at made
  split at made
  · have present := ‹Setting.present? base.vpcConnector = some _›
    cases made
    refine ⟨?_, ?_⟩
    · rintro v ⟨⟩
      exact mem_of_mem_present? _ present
    · rintro v holds
      rw [Option.bind_some] at holds
      exact mem_of_mem_present? v holds
  · cases made
  · cases made
    simp

/-- An endpoint holds what its options give, and a region in any case. -/
theorem isSound_of_endpoint {key entryPoint : String} {location : Location} {trigger : Trigger}
    {e : Endpoint} (fits : ∀ field ∈ base.fields, field.Fits params (given field.option))
    (made : base.endpoint key entryPoint location trigger = .ok e) :
    ∀ field ∈ e.fields, field.IsSound params given := by
  simp only [BaseOptions.endpoint, bind_eq_ok_iff, pure_eq_ok_iff] at made
  obtain ⟨vpc, vpcMade, rfl⟩ := made
  obtain ⟨connectorKept, egressKept⟩ := vpc_subset vpcMade
  simp only [fields, List.forall_mem_cons] at fits
  obtain ⟨region, memory, cpu, timeoutSeconds, minInstances, maxInstances, concurrency,
    serviceAccount, ingressSettings, vpcConnector, vpcEgress, labels, omitted, -⟩ := fits
  have placed : (⟨"region", .texts, some (base.region.getD defaultRegion)⟩ : TypedField).IsSound
      params given := by
    have sound := region.isSound_default (l := Literal.texts ["us-central1"]) rfl
    cases given : base.region with
    | none =>
      rw [given] at sound
      exact sound
    | some v =>
      rw [given] at sound
      exact sound
  simp only [Endpoint.fields, List.forall_mem_cons]
  exact ⟨placed, memory.isSound, cpu.isSound, timeoutSeconds.isSound, minInstances.isSound,
    maxInstances.isSound, concurrency.isSound, serviceAccount.isSound, ingressSettings.isSound,
    vpcConnector.isSound.mono connectorKept, vpcEgress.isSound.mono egressKept, labels.isSound,
    omitted.isSound, by simp⟩

end BaseOptions

end DeployManifest
