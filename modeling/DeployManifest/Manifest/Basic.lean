import DeployManifest.Endpoint.Basic
import DeployManifest.Family
import DeployManifest.IndexMap
import DeployManifest.Param.Basic

/-! # Manifests

A manifest lists the parameters, the interfaces to enable and the endpoints of a deployment. A
builder puts it together step by step: an interface counts once, with its first reason, and an
endpoint is refused when its key is taken.
-/

namespace DeployManifest

open Family (RequiredApi)

/-- Two endpoints with one key. -/
structure DuplicateKey where
  key : String
  first : Location
  second : Location
  deriving DecidableEq

def DuplicateKey.complaint (d : DuplicateKey) : String :=
  "duplicate endpoint key '" ++ d.key ++ "' (first defined at " ++ d.first.text ++ ")"

/-- The message, in front of it the location of the second endpoint. -/
def DuplicateKey.message (d : DuplicateKey) : String := d.second.text ++ ": " ++ d.complaint

/-- What is deployed. The endpoints stand in the order of their registrations, each under the key
that it is deployed as. -/
structure Manifest where
  params : List Param
  requiredApis : List RequiredApi
  endpoints : IndexMap Endpoint

namespace Manifest

def specVersion : String := "v1alpha1"

/-- The interface that every deployment needs. -/
def coreApi : RequiredApi := ⟨"cloudfunctions.googleapis.com", "Needed to deploy functions"⟩

def endpoint? (m : Manifest) (key : String) : Option Endpoint := m.endpoints.get? key

def keys (m : Manifest) : List String := m.endpoints.keys

def param? (m : Manifest) (name : String) : Option Param := m.params.find? (·.name == name)

def apiDocument (api : RequiredApi) : Document :=
  .record [("api", .text api.api), ("reason", .text api.reason)]

/-- The manifest as plain data; the list of parameters is left out when empty. -/
def document (m : Manifest) : Document :=
  .record (
    [("specVersion", .text specVersion)]
      ++ (if m.params.isEmpty then [] else [("params", .list (m.params.map Param.document))])
      ++ [("requiredAPIs", .list (m.requiredApis.map apiDocument)),
        ("endpoints", .record (m.endpoints.entries.map fun entry => (entry.1, entry.2.document)))])

end Manifest

/-! ### Building -/

/-- A manifest in the making. -/
structure ManifestBuilder where
  params : List Param
  requiredApis : List RequiredApi
  /-- The names of the interfaces that have been required, each once. -/
  seenApis : List String
  endpoints : IndexMap Endpoint

namespace ManifestBuilder

/-- Adds a parameter after the others. -/
def addParam (b : ManifestBuilder) (param : Param) : ManifestBuilder :=
  { b with params := b.params ++ [param] }

/-- Requires an interface; one that is required already keeps its place and reason. -/
def requireApi (b : ManifestBuilder) (api : RequiredApi) : ManifestBuilder :=
  let entered := { b with seenApis := b.seenApis.insert api.api }
  if b.seenApis.contains api.api then entered
  else { entered with requiredApis := b.requiredApis ++ [api] }

/-- A builder that requires the core interface alone. -/
def new : ManifestBuilder := requireApi ⟨[], [], [], .empty⟩ Manifest.coreApi

/-- Adds an endpoint after the others under its key, unless the key is taken. -/
def addEndpoint (b : ManifestBuilder) (endpoint : Endpoint) :
    ManifestBuilder × Except DuplicateKey Unit :=
  match b.endpoints.get? endpoint.key with
  | some first => (b, .error ⟨endpoint.key, first.location, endpoint.location⟩)
  | none => ({ b with endpoints := b.endpoints.insert endpoint.key endpoint }, .ok ())

def build (b : ManifestBuilder) : Manifest := ⟨b.params, b.requiredApis, b.endpoints⟩

end ManifestBuilder

end DeployManifest
