import DeployManifest.Proofs.Options.Base
import DeployManifest.Proofs.Options.Given
import DeployManifest.Proofs.Wire.Field

/-! # Options of every endpoint, merged

The options of an endpoint and those for all endpoints are converted one by one, and each is kept
under a name of its own (`BaseOptions.Reads`). Merged, an option is what the argument that counts
has been converted to (`BaseOptions.Reads.merges`).
-/

namespace DeployManifest

open Outcome

namespace Registration

variable {r : Registration} {name : String}

theorem isReserved_eq_false (option : name ∈ Family.baseOptions ++ r.family.triggerOptions) :
    r.isReserved name = false := by
  obtain ⟨noAddress, noHandler⟩ := r.family.not_reserved name option
  simp [isReserved, noAddress, noHandler]

end Registration

namespace BaseOptions

variable {α : Type} {name : String} {conversion : Field → Setting → Except CompileError α}
  {get : BaseOptions → Option α}

/-- What is kept of the options of every endpoint for one of them. -/
structure Reads (name : String) (conversion : Field → Setting → Except CompileError α)
    (get : BaseOptions → Option α) : Prop where
  converted : ∀ {options params base}, ofOptions options params = .ok base →
    options.convert params name conversion = .ok (get base)
  empty : get .empty = none
  orElse : ∀ base fallback : BaseOptions, get (base.orElse fallback) = (get base).or (get fallback)

/-- What the registration and the call for all endpoints give for an option. -/
theorem Reads.merges {r : Registration} {s : Scope} {calls : List (ModuleScan × GlobalCall)}
    {globals : GlobalOptions} {c : BoundCall} {options : OptionSet} {base : BaseOptions}
    (reads : Reads name conversion get) (option : name ∈ Family.baseOptions)
    (set : GlobalOptions.Sets s.params calls globals) (bound : r.bound = .ok c)
    (evaluated : s.options c.options = .ok options)
    (converted : ofOptions options s.params = .ok base) :
    r.Merges s calls name conversion (get (base.orElse globals.base)) := by
  have free := r.isReserved_eq_false (List.mem_append_left _ option)
  have own := Scope.gives_of_convert (Registration.among_of_bound bound) free evaluated
    (reads.converted converted)
  rw [reads.orElse]
  cases set with
  | none =>
    change r.Merges s [] name conversion ((get base).or (get .empty))
    rw [reads.empty, Option.or_none]
    exact .of_own own
  | once set =>
    simp only [GlobalCall.base, bind_eq_ok_iff] at set
    obtain ⟨args, bound, options, evaluated, converted⟩ := set
    exact .of_shared own (Scope.gives_of_convert (GlobalCall.among_of_bound bound) trivial evaluated
      (reads.converted converted))

theorem reads_baseFields :
    ∀ field ∈ baseFields, Reads field.keyword field.conversion field.given := by
  have convert {options : OptionSet} {params : ParamTable} {base : BaseOptions}
      (done : ofOptions options params = .ok base) : ∀ field ∈ baseFields,
        options.convert params field.keyword field.conversion = .ok (field.given base) := by
    have c := ofOptions_eq_ok_iff.mp done
    simp only [baseFields, List.forall_mem_cons]
    exact ⟨c.region, c.memory, c.cpu, c.timeoutSeconds, c.minInstances, c.maxInstances,
      c.concurrency, c.serviceAccount, c.ingressSettings, c.labels, c.omitted, by simp⟩
  have empty : ∀ field ∈ baseFields, field.given .empty = none := by
    simp [baseFields, BaseOptions.empty]
  have orElse (base fallback : BaseOptions) : ∀ field ∈ baseFields,
      field.given (base.orElse fallback) = (field.given base).or (field.given fallback) := by
    simp [baseFields, BaseOptions.orElse]
  intro field member
  exact ⟨fun done => convert done field member, empty field member,
    fun base fallback => orElse base fallback field member⟩

theorem reads_vpcConnector :
    Reads "vpcConnector" (fun f value => f.typed .string value) vpcConnector where
  converted done := (ofOptions_eq_ok_iff.mp done).vpcConnector
  empty := rfl
  orElse _ _ := rfl

theorem reads_vpcEgress :
    Reads "vpcConnectorEgressSettings"
      (fun f value => f.typed (.oneOf Constants.egressSettings) value) vpcEgress where
  converted done := (ofOptions_eq_ok_iff.mp done).vpcEgress
  empty := rfl
  orElse _ _ := rfl

theorem reads_secrets : Reads "secrets" (fun _ value => .ok (secretNames value)) secrets where
  converted done := (ofOptions_eq_ok_iff.mp done).secrets
  empty := rfl
  orElse _ _ := rfl

/-- The network settings are the connector, if it is given and not reset, and such an egress. An
egress without a connector is no network setting. -/
theorem vpc_eq_ok_iff {base : BaseOptions} {location : Location} {vpc : Option Vpc} :
    base.vpc location = .ok vpc ↔
      (∀ v, Setting.present? base.vpcEgress = some v →
        (Setting.present? base.vpcConnector).isSome) ∧
      vpc = (Setting.present? base.vpcConnector).map fun connector =>
        ⟨connector, Setting.present? base.vpcEgress⟩ := by
  rw [BaseOptions.vpc]
  cases connector : Setting.present? base.vpcConnector with
  | some c => simp [eq_comm]
  | none =>
    cases egress : Setting.present? base.vpcEgress with
    | some v => simp
    | none => simp [eq_comm]

/-- What the options of every endpoint leave in one. -/
theorem held_of_endpoint {base : BaseOptions} {key entryPoint : String} {location : Location}
    {trigger : Trigger} {e : Endpoint}
    (made : base.endpoint key entryPoint location trigger = .ok e) :
    (∀ field ∈ baseFields, field.held e = (field.given base).or field.default) ∧
      base.vpc location = .ok e.vpc ∧ e.secrets = base.secrets.getD [] := by
  simp only [BaseOptions.endpoint, bind_eq_ok_iff, pure_eq_ok_iff] at made
  obtain ⟨vpc, vpcMade, rfl⟩ := made
  refine ⟨?_, vpcMade, rfl⟩
  cases region : base.region <;> simp [baseFields, WireField.typed, region]

end BaseOptions

end DeployManifest
