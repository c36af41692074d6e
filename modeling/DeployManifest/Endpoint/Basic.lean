import DeployManifest.Endpoint.Trigger
import DeployManifest.Source.Location

/-! # Endpoints

An endpoint is one function to deploy: the key it has in the manifest, where its registration
stands, the settings of the platform, and what invokes it.
-/

namespace DeployManifest

/-- The network connector of an endpoint, and which traffic goes through it. -/
structure Vpc where
  connector : Setting
  egress : Option Setting

/-- One function to deploy. -/
structure Endpoint where
  key : String
  location : Location
  /-- The name under which the module exports the function. -/
  entryPoint : String
  region : Option Setting
  memory : Option Setting
  cpu : Option Setting
  timeoutSeconds : Option Setting
  minInstances : Option Setting
  maxInstances : Option Setting
  concurrency : Option Setting
  serviceAccount : Option Setting
  ingressSettings : Option Setting
  vpc : Option Vpc
  labels : Option Setting
  /-- The names of the secrets that the function can read. -/
  secrets : List String
  /-- Is the function left out of the deployment? -/
  omitted : Option Setting
  trigger : Trigger

namespace Endpoint

def platform : String := "gcfv2"

def vpcDocument (vpc : Vpc) : Document :=
  .record (
    ("connector", vpc.connector.document) :: Setting.field "egressSettings" vpc.egress)

def secretsField (secrets : List String) : List (String × Document) :=
  if secrets.isEmpty then []
  else
    [("secretEnvironmentVariables",
      .list (secrets.map fun name => .record [("key", .text name)]))]

/-- The endpoint as plain data; its key and location are no part of it. -/
def document (e : Endpoint) : Document :=
  .record (
    [("entryPoint", .text e.entryPoint), ("platform", .text platform)]
      ++ Setting.field "region" e.region
      ++ Setting.field "availableMemoryMb" e.memory
      ++ Setting.field "cpu" e.cpu
      ++ Setting.field "timeoutSeconds" e.timeoutSeconds
      ++ Setting.field "minInstances" e.minInstances
      ++ Setting.field "maxInstances" e.maxInstances
      ++ Setting.field "concurrency" e.concurrency
      ++ Setting.field "serviceAccountEmail" e.serviceAccount
      ++ Setting.field "ingressSettings" e.ingressSettings
      ++ Document.field? "vpc" vpcDocument e.vpc
      ++ Setting.field "labels" e.labels
      ++ secretsField e.secrets
      ++ Setting.field "omit" e.omitted
      ++ [(e.trigger.wireName, e.trigger.document)])

end Endpoint

end DeployManifest
