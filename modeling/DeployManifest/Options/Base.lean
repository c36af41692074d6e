import DeployManifest.Endpoint.Basic
import DeployManifest.Options.Filling

/-! # Options of every endpoint

The options that all families take. They are set for one endpoint, or globally for all; where an
endpoint does not give one, the global one counts, and at last the default. A reset is a value of its
own: it hides the global option and keeps the field out of the manifest.
-/

namespace DeployManifest

/-- The options that all families take; those that are not given are missing. -/
structure BaseOptions where
  region : Option Setting
  memory : Option Setting
  cpu : Option Setting
  timeoutSeconds : Option Setting
  minInstances : Option Setting
  maxInstances : Option Setting
  concurrency : Option Setting
  serviceAccount : Option Setting
  ingressSettings : Option Setting
  vpcConnector : Option Setting
  vpcEgress : Option Setting
  labels : Option Setting
  secrets : Option (List String)
  omitted : Option Setting

namespace BaseOptions

def empty : BaseOptions :=
  ⟨none, none, none, none, none, none, none, none, none, none, none, none, none, none⟩

/-- The names in a list of secrets; a reset is the empty list. -/
def secretNames : Setting → List String
  | .literal (.list items) => items.filterMap (·.text?)
  | _ => []

end BaseOptions

def Filling.base : Filling BaseOptions := do
  let region ← option "region" Field.stringList
  let memory ← option "memory" Field.memory
  let cpu ← typed "cpu" .cpu
  let timeoutSeconds ← typed "timeoutSeconds" .int
  let minInstances ← typed "minInstances" .int
  let maxInstances ← typed "maxInstances" .int
  let concurrency ← typed "concurrency" .int
  let serviceAccount ← typed "serviceAccount" .string
  let ingressSettings ← typed "ingressSettings" (.oneOf Constants.ingressSettings)
  let vpcConnector ← typed "vpcConnector" .string
  let vpcEgress ← typed "vpcConnectorEgressSettings" (.oneOf Constants.egressSettings)
  let labels ← option "labels" Field.stringMapSetting
  let omitted ← typed "omit" .boolean
  let secrets ← option "secrets" fun _ value => .ok (BaseOptions.secretNames value)
  return { region, memory, cpu, timeoutSeconds, minInstances, maxInstances, concurrency,
           serviceAccount, ingressSettings, vpcConnector, vpcEgress, labels, secrets, omitted }

namespace BaseOptions

def ofOptions (options : OptionSet) (params : ParamTable) : Except CompileError BaseOptions :=
  Filling.base.read params options

/-- The options, where one is missing that of `fallback`. -/
def orElse (base fallback : BaseOptions) : BaseOptions where
  region := base.region.or fallback.region
  memory := base.memory.or fallback.memory
  cpu := base.cpu.or fallback.cpu
  timeoutSeconds := base.timeoutSeconds.or fallback.timeoutSeconds
  minInstances := base.minInstances.or fallback.minInstances
  maxInstances := base.maxInstances.or fallback.maxInstances
  concurrency := base.concurrency.or fallback.concurrency
  serviceAccount := base.serviceAccount.or fallback.serviceAccount
  ingressSettings := base.ingressSettings.or fallback.ingressSettings
  vpcConnector := base.vpcConnector.or fallback.vpcConnector
  vpcEgress := base.vpcEgress.or fallback.vpcEgress
  labels := base.labels.or fallback.labels
  secrets := base.secrets.or fallback.secrets
  omitted := base.omitted.or fallback.omitted

/-- The region of endpoints that name none. -/
def defaultRegion : Setting := .texts ["us-central1"]

/-- The network settings of an endpoint; an egress setting needs a connector. -/
def vpc (base : BaseOptions) (location : Location) : Except CompileError (Option Vpc) :=
  match Setting.present? base.vpcConnector, Setting.present? base.vpcEgress with
  | some connector, egress => .ok (some ⟨connector, egress⟩)
  | none, some _ =>
    .error (.invalidOption location "vpcConnectorEgressSettings" .egressWithoutConnector)
  | none, none => .ok none

/-- The endpoint with these options. -/
def endpoint (base : BaseOptions) (key entryPoint : String) (location : Location)
    (trigger : Trigger) : Except CompileError Endpoint := do
  let vpc ← base.vpc location
  return {
    key, location, entryPoint, trigger, vpc
    region := some (base.region.getD defaultRegion)
    memory := base.memory
    cpu := base.cpu
    timeoutSeconds := base.timeoutSeconds
    minInstances := base.minInstances
    maxInstances := base.maxInstances
    concurrency := base.concurrency
    serviceAccount := base.serviceAccount
    ingressSettings := base.ingressSettings
    labels := base.labels
    secrets := base.secrets.getD []
    omitted := base.omitted }

end BaseOptions

/-- The options that are set for all endpoints, and where. -/
structure GlobalOptions where
  base : BaseOptions
  location : Option Location

namespace GlobalOptions

def none : GlobalOptions := ⟨.empty, Option.none⟩

/-- Sets the global options, which can be done only once. -/
def set (globals : GlobalOptions) (s : Scope) (call : GlobalCall) :
    Except CompileError GlobalOptions :=
  match globals.location with
  | some first => .error (.duplicateGlobals first call.location)
  | .none => do
    let options ← s.options (← call.bound)
    let base ← BaseOptions.ofOptions options s.params
    return ⟨base, some call.location⟩

def ofScans (scans : List ModuleScan) (params : ParamTable) : Except CompileError GlobalOptions :=
  (scans.flatMap fun scan => scan.globalCalls.map fun call => (scan, call)).foldlM
    (fun globals (scan, call) => globals.set ⟨params, scan⟩ call) none

end GlobalOptions

end DeployManifest
