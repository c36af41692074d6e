import DeployManifest.Compile.Basic
import DeployManifest.Proofs.Outcome

/-! # The endpoint of a registration

What a registration gives on its own, taken apart into the steps that it is made by
(`endpoint_eq_ok_iff`). The key, the location and the trigger of the endpoint are those of the
registration, whatever the global options are.
-/

namespace DeployManifest

open Outcome

namespace BaseOptions

/-- What the options leave open in an endpoint. -/
theorem of_endpoint {base : BaseOptions} {key entryPoint : String} {location : Location}
    {trigger : Trigger} {e : Endpoint}
    (made : base.endpoint key entryPoint location trigger = .ok e) :
    e.key = key ∧ e.entryPoint = entryPoint ∧ e.location = location ∧ e.trigger = trigger := by
  simp only [BaseOptions.endpoint, bind_eq_ok_iff, pure_eq_ok_iff] at made
  obtain ⟨vpc, -, rfl⟩ := made
  exact ⟨rfl, rfl, rfl, rfl⟩

end BaseOptions

namespace Registration

variable {r : Registration} {c : BoundCall}

theorem addressOf_fst_isSome {args : Arguments} {address : Option Address} {rest : List Expr}
    (taken : r.addressOf args = .ok (address, rest)) :
    address.isSome = r.family.addressKeyword?.isSome := by
  unfold addressOf at taken
  split at taken
  · rename_i bare
    cases taken
    rw [bare]
    rfl
  · rename_i keyword addressed
    simp only [bind_eq_ok_iff] at taken
    obtain ⟨⟨value, others⟩, -, e, -, taken⟩ := taken
    split at taken
    · cases taken
      rw [addressed]
      rfl
    · cases taken

/-- A bound call is the registration with its parts; it has an address if the family has them. -/
theorem of_bound (bound : r.bound = .ok c) :
    c.site = r ∧ c.address.isSome = r.family.addressKeyword?.isSome := by
  unfold Registration.bound at bound
  split at bound
  · cases bound
  · simp only [bind_eq_ok_iff] at bound
    obtain ⟨args, -, ⟨address, afterAddress⟩, taken, ⟨entryPoint, afterHandler⟩, -, bound⟩ := bound
    split at bound
    · cases bound
    · simp only [bind_eq_ok_iff, pure_eq_ok_iff] at bound
      obtain ⟨options, -, rfl⟩ := bound
      exact ⟨rfl, addressOf_fst_isSome taken⟩

/-- What the trigger of a registration is made of. -/
def triggerSource (r : Registration) (c : BoundCall) (options : OptionSet) (params : ParamTable) :
    TriggerSource :=
  ⟨r.family, r.method, c.address, options, params⟩

/-- The steps that an endpoint is made by. -/
theorem endpoint_eq_ok_iff {s : Scope} {globals : GlobalOptions} {e : Endpoint} :
    r.endpoint s globals = .ok e ↔ ∃ c options base, r.bound = .ok c ∧
      s.options c.options = .ok options ∧
      (r.triggerSource c options s.params).trigger = .ok e.trigger ∧
      BaseOptions.ofOptions options s.params = .ok base ∧
      (base.orElse globals.base).endpoint c.key (c.entryPoint.getD c.key) r.location e.trigger
        = .ok e := by
  simp only [Registration.endpoint, BoundCall.endpoint, bind_eq_ok_iff]
  constructor
  · rintro ⟨c, bound, options, evaluated, trigger, triggered, base, converted, made⟩
    obtain ⟨same, -⟩ := of_bound bound
    obtain ⟨-, -, -, rfl⟩ := BaseOptions.of_endpoint made
    rw [same] at triggered made
    exact ⟨c, options, base, bound, evaluated, triggered, converted, made⟩
  · rintro ⟨c, options, base, bound, evaluated, triggered, converted, made⟩
    obtain ⟨same, -⟩ := of_bound bound
    refine ⟨c, bound, options, evaluated, e.trigger, ?_, base, converted, ?_⟩
    · rw [same]
      exact triggered
    · rw [same]
      exact made

/-- The endpoint stands where its registration does. -/
theorem location_of_endpoint {s : Scope} {globals : GlobalOptions} {e : Endpoint}
    (made : r.endpoint s globals = .ok e) : e.location = r.location := by
  obtain ⟨_, _, _, -, -, -, -, made⟩ := endpoint_eq_ok_iff.mp made
  exact (BaseOptions.of_endpoint made).2.2.1

/-- The key is made of the method and the address as it is written. -/
theorem key_of_endpoint {s : Scope} {globals : GlobalOptions} {e : Endpoint}
    (made : r.endpoint s globals = .ok e) :
    ∃ c, r.bound = .ok c ∧
      e.key = r.family.keyScheme.key r.method (c.address.map (·.value)) := by
  obtain ⟨c, _, _, bound, -, -, -, made⟩ := endpoint_eq_ok_iff.mp made
  refine ⟨c, bound, ?_⟩
  rw [(BaseOptions.of_endpoint made).1, BoundCall.key, (of_bound bound).1]

end Registration

end DeployManifest
