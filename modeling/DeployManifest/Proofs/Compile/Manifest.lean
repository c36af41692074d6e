import DeployManifest.Proofs.Compile.Site
import DeployManifest.Proofs.Manifest.Builder
import DeployManifest.Proofs.Options.Global
import DeployManifest.Proofs.Param.Declare

/-! # Manifests, part by part

Compiling goes through declarations, global options and registrations in turn, and what becomes of a
registration on its own is settled before any is entered. The manifest is what the parts give on
their own (`Assembled`), and the error is that of the first part that cannot be accepted
(`Refused`).
-/

namespace DeployManifest

open Outcome
open Family (RequiredApi)

namespace Manifest

/-- Registrations are entered under the keys of their endpoints. -/
def entering (table : ParamTable) (globals : GlobalOptions) :
    Entering CompileError (ModuleScan × Registration) Endpoint where
  entry site := site.2.endpoint ⟨table, site.1⟩ globals
  key := Endpoint.key
  clash first second key := .duplicateKey ⟨key, first.2.location, second.2.location⟩

/-- The interfaces that registrations need besides the core one, once for each of them. -/
def neededApis (sites : List (ModuleScan × Registration)) : List RequiredApi :=
  sites.filterMap fun site => site.2.family.requiredApi?

/-- The manifest is what the declarations, the global options and the registrations give on their
own, in order. -/
structure Assembled (scans : List ModuleScan) (table : ParamTable) (globals : GlobalOptions)
    (m : Manifest) : Prop where
  declared : ParamTable.entering.Enters (scans.flatMap ModuleScan.declarations) table.entries
  set : GlobalOptions.Sets table (GlobalOptions.calls scans) globals
  registered : (entering table globals).Enters (sites scans) m.endpoints.values
  keyed : m.endpoints.IsKeyed
  params : m.params = table.params
  /-- An interface stands where it is needed first. -/
  requiredApis : m.requiredApis = (coreApi :: neededApis (sites scans)).eraseDups

/-- The error is that of the first declaration that is refused, else of the first call for global
options, else of the first registration. -/
inductive Refused (scans : List ModuleScan) : CompileError → Prop where
  | declaration {e : CompileError}
      (refused : ParamTable.entering.FirstRefusal (scans.flatMap ModuleScan.declarations) e) :
      Refused scans e
  | globals {table : ParamTable} {e : CompileError}
      (declared : ParamTable.entering.Enters (scans.flatMap ModuleScan.declarations) table.entries)
      (failed : GlobalOptions.FirstFailure table (GlobalOptions.calls scans) e) : Refused scans e
  | registration {table : ParamTable} {globals : GlobalOptions} {e : CompileError}
      (declared : ParamTable.entering.Enters (scans.flatMap ModuleScan.declarations) table.entries)
      (set : GlobalOptions.Sets table (GlobalOptions.calls scans) globals)
      (refused : (entering table globals).FirstRefusal (sites scans) e) : Refused scans e

/-- The builder with the interface that a family needs. -/
def requireFor (b : ManifestBuilder) (family : Family) : ManifestBuilder :=
  match family.requiredApi? with
  | some api => b.requireApi api
  | none => b

@[simp]
theorem requireFor_params (b : ManifestBuilder) (family : Family) :
    (requireFor b family).params = b.params := by
  rw [requireFor]
  split <;> simp

@[simp]
theorem requireFor_endpoints (b : ManifestBuilder) (family : Family) :
    (requireFor b family).endpoints = b.endpoints := by
  rw [requireFor]
  split <;> simp

theorem inStep_requireFor {b : ManifestBuilder} (inStep : b.InStep) (family : Family) :
    (requireFor b family).InStep := by
  rw [requireFor]
  split
  · exact inStep.requireApi _
  · exact inStep

theorem addOutcome_ok (b : ManifestBuilder) (family : Family) (e : Endpoint) :
    addOutcome b (family, .ok e) =
      match (requireFor b family).addEndpoint e with
      | (next, .ok ()) => .ok next
      | (_, .error clash) => .error (.duplicateKey clash) := rfl

theorem addOutcome_error (b : ManifestBuilder) (family : Family) (e : CompileError) :
    addOutcome b (family, .error e) = .error e := rfl

/-- What an endpoint that is entered changes. -/
theorem addOutcome_of_free {b : ManifestBuilder} {family : Family} {e : Endpoint}
    (free : b.endpoints.get? e.key = none) :
    addOutcome b (family, .ok e) = .ok { requireFor b family with
      endpoints := b.endpoints.insert e.key e } := by
  rw [← requireFor_endpoints b family] at free ⊢
  rw [addOutcome_ok, ManifestBuilder.addEndpoint_of_free free]

theorem addOutcome_of_taken {b : ManifestBuilder} {family : Family} {e first : Endpoint}
    (taken : b.endpoints.get? e.key = some first) :
    addOutcome b (family, .ok e) =
      .error (.duplicateKey ⟨e.key, first.location, e.location⟩) := by
  rw [← requireFor_endpoints b family] at taken
  rw [addOutcome_ok, ManifestBuilder.addEndpoint_of_taken taken]

/-- The builder with what becomes of one more registration on its own. -/
def addSite (table : ParamTable) (globals : GlobalOptions) (b : ManifestBuilder)
    (site : ModuleScan × Registration) : Except CompileError ManifestBuilder :=
  addOutcome b (site.2.family, (entering table globals).entry site)

theorem addSite_steps (table : ParamTable) (globals : GlobalOptions) :
    (entering table globals).Steps ManifestBuilder.InStep (addSite table globals)
      (·.endpoints.values) where
  failed := by
    intro b site e failed
    rw [addSite, failed, addOutcome_error]
  taken := by
    intro b site e first taker inStep given found taken
    change b.endpoints.values.find? (·.key == e.key) = _ at found
    rw [← inStep.keyed.get?_eq_find?] at found
    rw [addSite, given, addOutcome_of_taken found, Registration.location_of_endpoint taken,
      Registration.location_of_endpoint given]
    rfl
  free := by
    intro b site e inStep given found
    change b.endpoints.values.find? (·.key == e.key) = _ at found
    rw [← inStep.keyed.get?_eq_find?] at found
    have entered := (inStep_requireFor inStep site.2.family).addEndpoint e
    rw [ManifestBuilder.addEndpoint_of_free (by simpa using found), requireFor_endpoints] at entered
    refine ⟨_, ?_, IndexMap.values_insert found, entered⟩
    rw [addSite, given, addOutcome_of_free found]

/-- The interfaces that can be required. -/
def knownApis : List RequiredApi := coreApi :: Family.all.filterMap Family.requiredApi?

theorem mem_knownApis {family : Family} {api : RequiredApi}
    (needed : family.requiredApi? = some api) : api ∈ knownApis := by
  refine List.mem_cons_of_mem _ (List.mem_filterMap.mpr ⟨family, ?_, needed⟩)
  cases family <;> decide

/-- An interface is known by its name. -/
theorem eq_of_api_eq : ∀ first ∈ knownApis, ∀ second ∈ knownApis,
    first.api = second.api → first = second := by
  decide

theorem requireApi_requiredApis {b : ManifestBuilder} {apis : List RequiredApi}
    {api : RequiredApi} (inStep : b.InStep) (required : b.requiredApis = apis.eraseDups)
    (known : ∀ other ∈ apis, other ∈ knownApis) (needed : api ∈ knownApis) :
    (b.requireApi api).requiredApis = (apis ++ [api]).eraseDups := by
  have named : b.requiredApis.any (·.api == api.api) = apis.contains api := by
    rw [Bool.eq_iff_iff, List.any_eq_true, List.contains_iff_mem, required]
    constructor
    · rintro ⟨other, member, same⟩
      rw [List.mem_eraseDups] at member
      rwa [← eq_of_api_eq other (known other member) api needed (by simpa using same)]
    · intro member
      exact ⟨api, List.mem_eraseDups.mpr member, by simp⟩
  rw [inStep.requireApi_requiredApis, named, required, List.eraseDups_append]
  by_cases present : api ∈ apis
  · rw [if_pos (List.contains_iff_mem.mpr present)]
    simp [List.removeAll, present]
  · rw [if_neg (fun found => present (List.contains_iff_mem.mp found))]
    simp [List.removeAll, present, List.eraseDups_cons]

/-- What a fold over registrations leaves of the parameters and makes of the interfaces. -/
theorem rest_of_foldlM {table : ParamTable} {globals : GlobalOptions}
    {start last : ManifestBuilder} {sites : List (ModuleScan × Registration)}
    (begins : start.InStep) (empty : start.endpoints.values = [])
    (initial : start.requiredApis = [coreApi])
    (reached : sites.foldlM (addSite table globals) start = .ok last) :
    last.params = start.params ∧
      last.requiredApis = (coreApi :: neededApis sites).eraseDups := by
  induction sites using List.reverseRecOn generalizing last with
  | nil =>
    obtain rfl := pure_eq_ok_iff.mp reached
    exact ⟨rfl, initial⟩
  | append_singleton sites site ih =>
    rw [List.foldlM_append, bind_eq_ok_iff] at reached
    obtain ⟨b, earlier, reached⟩ := reached
    rw [List.foldlM_cons, bind_eq_ok_iff] at reached
    obtain ⟨next, stepped, same⟩ := reached
    obtain rfl := pure_eq_ok_iff.mp same
    obtain ⟨params, required⟩ := ih earlier
    have inStep := ((addSite_steps table globals).enters empty begins earlier).2
    rw [addSite] at stepped
    cases given : (entering table globals).entry site with
    | error e =>
      rw [given, addOutcome_error] at stepped
      cases stepped
    | ok e =>
      rw [given] at stepped
      cases found : b.endpoints.get? e.key with
      | some first =>
        rw [addOutcome_of_taken found] at stepped
        cases stepped
      | none =>
        rw [addOutcome_of_free found] at stepped
        cases stepped
        refine ⟨(requireFor_params b _).trans params, ?_⟩
        change (requireFor b site.2.family).requiredApis = _
        rw [requireFor, neededApis, List.filterMap_append, ← neededApis]
        cases needed : site.2.family.requiredApi? with
        | none =>
          simp only [List.filterMap_cons, needed, List.filterMap_nil, List.append_nil]
          exact required
        | some api =>
          simp only [List.filterMap_cons, needed, List.filterMap_nil]
          refine requireApi_requiredApis inStep required ?_ (mem_knownApis needed)
          intro other member
          rcases List.mem_cons.mp member with rfl | member
          · exact List.mem_cons_self ..
          · obtain ⟨_, -, needed⟩ := List.mem_filterMap.mp member
            exact mem_knownApis needed

/-- The builder that registrations are entered in: the parameters of the table are there already. -/
def started (table : ParamTable) : ManifestBuilder :=
  { ManifestBuilder.new with params := table.params }

theorem foldl_addParam (params : List Param) (b : ManifestBuilder) :
    params.foldl ManifestBuilder.addParam b = { b with params := b.params ++ params } := by
  induction params generalizing b with
  | nil => simp
  | cons p params ih => simp [ih, ManifestBuilder.addParam]

theorem inStep_started (table : ParamTable) : (started table).InStep :=
  ⟨ManifestBuilder.inStep_new.seen, ManifestBuilder.inStep_new.keyed⟩

theorem ofScans_eq (scans : List ModuleScan) :
    ofScans scans = (do
      let table ← ParamTable.ofScans scans
      let globals ← GlobalOptions.ofScans scans table
      let last ← (sites scans).foldlM (addSite table globals) (started table)
      pure last.build) := by
  simp only [ofScans, outcomes, List.foldlM_map, foldl_addParam]
  rfl

theorem ofScans_eq_ok_iff {scans : List ModuleScan} {m : Manifest} :
    ofScans scans = .ok m ↔ ∃ table globals, Assembled scans table globals m := by
  simp only [ofScans_eq, bind_eq_ok_iff, pure_eq_ok_iff, ParamTable.ofScans_eq_ok_iff,
    GlobalOptions.ofScans_eq_ok_iff]
  constructor
  · rintro ⟨table, declared, globals, set, last, reached, rfl⟩
    obtain ⟨params, required⟩ := rest_of_foldlM (inStep_started table) rfl rfl reached
    obtain ⟨entered, inStep⟩ :=
      (addSite_steps table globals).enters rfl (inStep_started table) reached
    exact ⟨table, globals, declared, set, entered, inStep.keyed, params, required⟩
  · rintro ⟨table, globals, declared, set, registered, keyed, params, required⟩
    obtain ⟨last, reached, same, inStep⟩ :=
      (addSite_steps table globals).foldlM_eq_ok rfl (inStep_started table) registered
    obtain ⟨params', required'⟩ := rest_of_foldlM (inStep_started table) rfl rfl reached
    refine ⟨table, declared, globals, set, last, reached, ?_⟩
    obtain ⟨ofTable, apis, endpoints⟩ := m
    rw [ManifestBuilder.build, inStep.keyed.eq_of_values keyed same, params', required']
    cases params
    cases required
    rfl

/-- Compiling gives what the parts of the modules give on their own, or the error of the first part
that is refused. -/
theorem ofScans_eq_assembled_or_refused (scans : List ModuleScan) :
    (∀ m, ofScans scans = .ok m ↔ ∃ table globals, Assembled scans table globals m) ∧
      ∀ e, ofScans scans = .error e ↔ Refused scans e := by
  refine ⟨fun m => ofScans_eq_ok_iff, fun e => ?_⟩
  have refused_iff (table : ParamTable) (globals : GlobalOptions) :
      (sites scans).foldlM (addSite table globals) (started table) = .error e ↔ _ :=
    (addSite_steps table globals).foldlM_eq_error_iff rfl (inStep_started table)
  simp only [ofScans_eq, bind_eq_error_iff, ParamTable.ofScans_eq_error_iff,
    ParamTable.ofScans_eq_ok_iff, GlobalOptions.ofScans_eq_error_iff,
    GlobalOptions.ofScans_eq_ok_iff, refused_iff]
  constructor
  · rintro (refused | ⟨table, declared, failed | ⟨globals, set, refused | ⟨_, -, failed⟩⟩⟩)
    · exact .declaration refused
    · exact .globals declared failed
    · exact .registration declared set refused
    · cases failed
  · rintro (refused | ⟨declared, failed⟩ | ⟨declared, set, refused⟩)
    · exact .inl refused
    · exact .inr ⟨_, declared, .inl failed⟩
    · exact .inr ⟨_, declared, .inr ⟨_, set, .inl refused⟩⟩

end Manifest

end DeployManifest
