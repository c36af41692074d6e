import DeployManifest.Files.Source
import DeployManifest.Options.Base
import DeployManifest.Options.Trigger
import DeployManifest.Param.Declare
import DeployManifest.Scan.Finder

/-! # From modules to a manifest

Parameters are declared first, in the order of the modules, then the global options are set. Each
registration becomes an endpoint on its own. Only then are the endpoints entered in order, and the
first one that fails or takes a key twice decides the error.
-/

namespace DeployManifest

namespace ParamTable

/-- The table of the declarations in modules. -/
def ofScans (scans : List ModuleScan) : Except CompileError ParamTable :=
  (scans.flatMap ModuleScan.declarations).foldlM declare empty

end ParamTable

namespace BoundCall

def key (c : BoundCall) : String :=
  c.site.family.keyScheme.key c.site.method (c.address.map (·.value))

/-- The endpoint of a registration whose arguments have been given their parts. -/
def endpoint (c : BoundCall) (s : Scope) (globals : GlobalOptions) :
    Except CompileError Endpoint := do
  let options ← s.options c.options
  let trigger ←
    (TriggerSource.mk c.site.family c.site.method c.address options s.params).trigger
  let base ← BaseOptions.ofOptions options s.params
  (base.orElse globals.base).endpoint c.key (c.entryPoint.getD c.key) c.site.location trigger

end BoundCall

def Registration.endpoint (r : Registration) (s : Scope) (globals : GlobalOptions) :
    Except CompileError Endpoint := do
  (← r.bound).endpoint s globals

namespace Manifest

/-- The registrations of modules, each with its module. -/
def sites (scans : List ModuleScan) : List (ModuleScan × Registration) :=
  scans.flatMap fun scan => scan.registrations.map fun r => (scan, r)

/-- What becomes of each registration on its own. -/
def outcomes (params : ParamTable) (globals : GlobalOptions)
    (sites : List (ModuleScan × Registration)) : List (Family × Except CompileError Endpoint) :=
  sites.map fun (scan, r) => (r.family, r.endpoint ⟨params, scan⟩ globals)

def addOutcome (b : ManifestBuilder) (outcome : Family × Except CompileError Endpoint) :
    Except CompileError ManifestBuilder := do
  let endpoint ← outcome.2
  let b :=
    match outcome.1.requiredApi? with
    | some api => b.requireApi api
    | none => b
  match b.addEndpoint endpoint with
  | (next, .ok ()) => .ok next
  | (_, .error clash) => .error (.duplicateKey clash)

/-- The manifest of modules that have been searched. -/
def ofScans (scans : List ModuleScan) : Except CompileError Manifest := do
  let params ← ParamTable.ofScans scans
  let globals ← GlobalOptions.ofScans scans params
  let start := params.params.foldl ManifestBuilder.addParam .new
  return (← (outcomes params globals (sites scans)).foldlM addOutcome start).build

end Manifest

namespace SourceModule

def scan (m : SourceModule) : Except CompileError ModuleScan :=
  match m.scan? with
  | some scan => .ok scan
  | none => .error (.malformed m)

end SourceModule

def Manifest.ofModules (modules : List SourceModule) : Except CompileError Manifest := do
  ofScans (← modules.mapM SourceModule.scan)

def Disk.scanSource (d : Disk) (file : SourceFile) : Except CompileError ModuleScan := do
  let m ← (d.readSource file).mapError (.unreadable file.path)
  m.scan

/-- The manifest of a source tree. The first module that cannot be read or searched decides the
error. -/
def Manifest.ofDisk (d : Disk) (root : Path) (exclude : List String) :
    Except CompileError Manifest := do
  let files ← (d.sources root exclude).mapError (.unreadable root)
  ofScans (← files.mapM d.scanSource)

end DeployManifest
