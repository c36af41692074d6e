import DeployManifest.Options.Base
import DeployManifest.Proofs.Options.Filling

/-! # What the options of every endpoint are made of

Each of the options of every endpoint is the option with its keyword, converted
(`BaseOptions.ofOptions_eq_ok_iff`).
-/

namespace DeployManifest.BaseOptions

open Outcome

variable {options : OptionSet} {params : ParamTable} {base : BaseOptions}

/-- The options of every endpoint, one by one. -/
structure Converts (options : OptionSet) (params : ParamTable) (base : BaseOptions) : Prop where
  region : options.convert params "region" Field.stringList = .ok base.region
  memory : options.convert params "memory" Field.memory = .ok base.memory
  cpu : options.typed params "cpu" .cpu = .ok base.cpu
  timeoutSeconds : options.typed params "timeoutSeconds" .int = .ok base.timeoutSeconds
  minInstances : options.typed params "minInstances" .int = .ok base.minInstances
  maxInstances : options.typed params "maxInstances" .int = .ok base.maxInstances
  concurrency : options.typed params "concurrency" .int = .ok base.concurrency
  serviceAccount : options.typed params "serviceAccount" .string = .ok base.serviceAccount
  ingressSettings :
    options.typed params "ingressSettings" (.oneOf Constants.ingressSettings) =
      .ok base.ingressSettings
  vpcConnector : options.typed params "vpcConnector" .string = .ok base.vpcConnector
  vpcEgress :
    options.typed params "vpcConnectorEgressSettings" (.oneOf Constants.egressSettings) =
      .ok base.vpcEgress
  labels : options.convert params "labels" Field.stringMapSetting = .ok base.labels
  secrets :
    options.convert params "secrets" (fun _ value => .ok (secretNames value)) = .ok base.secrets
  omitted : options.typed params "omit" .boolean = .ok base.omitted

theorem ofOptions_eq_ok_iff :
    ofOptions options params = .ok base ↔ Converts options params base := by
  simp only [ofOptions, Filling.base, Filling.read_bind, Filling.read_option, Filling.read_typed,
    Filling.read_pure, bind_eq_ok_iff]
  constructor
  · rintro ⟨_, region, _, memory, _, cpu, _, timeoutSeconds, _, minInstances, _, maxInstances, _,
      concurrency, _, serviceAccount, _, ingressSettings, _, vpcConnector, _, vpcEgress, _, labels,
      _, omitted, _, secrets, ⟨⟩⟩
    exact { region, memory, cpu, timeoutSeconds, minInstances, maxInstances, concurrency,
            serviceAccount, ingressSettings, vpcConnector, vpcEgress, labels, secrets, omitted }
  · intro c
    exact ⟨_, c.region, _, c.memory, _, c.cpu, _, c.timeoutSeconds, _, c.minInstances, _,
      c.maxInstances, _, c.concurrency, _, c.serviceAccount, _, c.ingressSettings, _,
      c.vpcConnector, _, c.vpcEgress, _, c.labels, _, c.omitted, _, c.secrets, rfl⟩

end DeployManifest.BaseOptions
