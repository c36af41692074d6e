import DeployManifest.Proofs.Compile.Manifest
import DeployManifest.Proofs.Typing.Trigger

/-! # Types of manifests

The endpoints of a compiled manifest are typed over its parameters, whatever values these get
(`exists_isSound`). The options of an endpoint and those for all endpoints are evaluated in modules
of their own; both end up over the same parameters.
-/

namespace DeployManifest

open Outcome

/-- Every field of an endpoint, and every text in the filter of its trigger, is typed and comes from
the options that are given for the endpoint or, unless it belongs to the trigger, for all. -/
structure Endpoint.IsSound (params : List Param) (address : Option Address) (own shared : OptionSet)
    (e : Endpoint) : Prop where
  fields : ∀ field ∈ e.fields,
    field.IsSound params fun name => (own.option? name).or (shared.option? name)
  trigger : ∀ field ∈ e.trigger.fields, field.IsSound params own.option?
  texts : ∀ entry ∈ e.trigger.texts, TextIsSound params address own entry

namespace GlobalOptions

/-- The values of the options that are set for all endpoints. -/
inductive Gives (table : ParamTable) : List (ModuleScan × GlobalCall) → OptionSet → Prop where
  | none : Gives table [] []
  | once {scan : ModuleScan} {call : GlobalCall} {args : List OptionArgument} {options : OptionSet}
      (bound : call.bound = .ok args) (evaluated : Scope.options ⟨table, scan⟩ args = .ok options) :
      Gives table [(scan, call)] options

theorem exists_gives {table : ParamTable} {calls : List (ModuleScan × GlobalCall)}
    {globals : GlobalOptions} (distinct : table.Distinct) (set : Sets table calls globals) :
    ∃ shared, Gives table calls shared ∧
      ∀ field ∈ globals.base.fields, field.Fits table.params (shared.option? field.option) := by
  cases set with
  | none =>
    refine ⟨[], .none, ?_⟩
    simp only [GlobalOptions.none, BaseOptions.empty, BaseOptions.fields, List.forall_mem_cons]
    simp [TypedField.Fits, OptionSet.option?]
  | once set =>
    simp only [GlobalCall.base, bind_eq_ok_iff] at set
    obtain ⟨args, bound, options, evaluated, converted⟩ := set
    have closed := Scope.isClosed_of_options distinct evaluated
    exact ⟨options, .once bound evaluated, BaseOptions.fits_of_ofOptions distinct closed converted⟩

end GlobalOptions

namespace Registration

/-- An endpoint is typed as soon as the options for all endpoints are. -/
theorem isSound_of_endpoint {r : Registration} {s : Scope} {globals : GlobalOptions} {e : Endpoint}
    {shared : OptionSet} (distinct : s.params.Distinct)
    (fits : ∀ field ∈ globals.base.fields, field.Fits s.params.params (shared.option? field.option))
    (made : r.endpoint s globals = .ok e) :
    ∃ c own, r.bound = .ok c ∧ s.options c.options = .ok own ∧
      e.IsSound s.params.params c.address own shared := by
  obtain ⟨c, own, base, bound, evaluated, triggered, converted, assembled⟩ :=
    endpoint_eq_ok_iff.mp made
  have closed : own.IsClosed s.params := Scope.isClosed_of_options distinct evaluated
  have triggerMade := TriggerSource.makes_of_trigger triggered
  have ownFits := BaseOptions.fits_of_ofOptions distinct closed converted
  have baseFits := BaseOptions.fits_orElse ownFits fits
  exact ⟨c, own, bound, evaluated, BaseOptions.isSound_of_endpoint baseFits assembled,
    TriggerSource.isSound_of_makes distinct closed triggerMade,
    TriggerSource.textIsSound_of_makes distinct closed triggerMade⟩

end Registration

namespace Manifest

variable {scans : List ModuleScan} {table : ParamTable} {globals : GlobalOptions} {m : Manifest}

theorem Assembled.distinct (assembled : Assembled scans table globals m) : table.Distinct := by
  have names := assembled.declared.distinct
  rw [ParamTable.Distinct, ParamTable.params, List.map_map]
  exact names

/-- All endpoints of a compiled manifest are typed over its parameters. -/
theorem exists_isSound (compiled : ofScans scans = .ok m) :
    ∃ table shared, ParamTable.ofScans scans = .ok table ∧ m.params = table.params ∧
      (m.params.map (·.name)).Nodup ∧
      GlobalOptions.Gives table (GlobalOptions.calls scans) shared ∧
      List.Forall₂ (fun site e => ∃ c own, site.2.bound = .ok c ∧
          Scope.options ⟨table, site.1⟩ c.options = .ok own ∧
          e.IsSound m.params c.address own shared) (sites scans) m.endpoints.values := by
  obtain ⟨table, globals, assembled⟩ := ofScans_eq_ok_iff.mp compiled
  obtain ⟨shared, gives, fits⟩ := GlobalOptions.exists_gives assembled.distinct assembled.set
  refine ⟨table, shared, ParamTable.ofScans_eq_ok_iff.mpr assembled.declared, assembled.params, ?_,
    gives, ?_⟩
  · rw [assembled.params]
    exact assembled.distinct
  · refine assembled.registered.each.imp fun site e made => ?_
    rw [assembled.params]
    exact Registration.isSound_of_endpoint (s := ⟨table, site.1⟩) assembled.distinct fits made

/-- Parameters and options for all endpoints in one module, endpoints that use them in another. -/
def parametrized : List SourceModule :=
  [⟨"config.py",
      ("BETA = params.defineBoolean(\"BETA\")\nZONE = params.defineString(\"ZONE\")\n"
        ++ "options.setGlobalOptions(region=ZONE)\n").toList⟩,
    ⟨"main.py",
      ("from params import BETA, ZONE\n\n"
        ++ "@https.onRequest(\"hello\", memory=BETA.thenElse(512, 256), invoker=ZONE)\n"
        ++ "def hello(r): pass\n\n@database.onValueWritten(\"rooms/1\", instance=ZONE, omit=BETA)\n"
        ++ "def written(e): pass\n").toList⟩]

set_option maxRecDepth 100000 in
/-- The modules compile, and their endpoints are typed over the two parameters. -/
theorem exists_isSound_parametrized :
    ∃ (scans : List ModuleScan) (m : Manifest),
      parametrized.mapM SourceModule.scan = .ok scans ∧ ofScans scans = .ok m ∧
      m.keys = ["hello", "onValueWritten_rooms_1"] ∧ m.params.map (·.name) = ["BETA", "ZONE"] ∧
      ∃ table shared, ParamTable.ofScans scans = .ok table ∧ m.params = table.params ∧
        (m.params.map (·.name)).Nodup ∧
        GlobalOptions.Gives table (GlobalOptions.calls scans) shared ∧
        List.Forall₂ (fun site e => ∃ c own, site.2.bound = .ok c ∧
            Scope.options ⟨table, site.1⟩ c.options = .ok own ∧
            e.IsSound m.params c.address own shared) (sites scans) m.endpoints.values := by
  have computed : (ofModules parametrized).toOption.map
      (fun m => (m.keys, m.params.map (·.name))) =
      some (["hello", "onValueWritten_rooms_1"], ["BETA", "ZONE"]) := by
    decide +kernel
  obtain ⟨m, compiled, computed⟩ := exists_ok_of_toOption computed
  obtain ⟨keys, names⟩ := Prod.mk.inj computed
  obtain ⟨scans, searched, compiled⟩ := bind_eq_ok_iff.mp compiled
  exact ⟨scans, m, searched, compiled, keys, names, exists_isSound compiled⟩

end Manifest

end DeployManifest
