import DeployManifest.Console.Basic
import DeployManifest.Manifest.Basic

/-! # Summaries

What a manifest would deploy, for people to read: its endpoints, parameters and required interfaces,
and the list of its keys.
-/

namespace DeployManifest.Manifest

def heading (colours : Bool) (text : String) : String :=
  (Style.bold Style.green).apply colours text ++ "\n"

def entryName (colours : Bool) (text : String) : String :=
  (Style.mk Style.cyan).apply colours text

/-- The lines of an endpoint: its key and trigger, and on demand where it comes from. -/
def endpointSummary (colours verbose : Bool) (e : Endpoint) : String :=
  let kind :=
    match e.trigger.eventType? with
    | some eventType => e.trigger.wireName ++ " (" ++ eventType ++ ")"
    | none => e.trigger.wireName
  "  " ++ entryName colours e.key ++ " " ++ kind ++ "\n"
    ++ if verbose then
        "    entry point: " ++ e.entryPoint ++ "\n    defined at:  " ++ e.location.text ++ "\n"
      else ""

def shownValue? : Setting → Option String
  | .literal l => some l.wireText
  | .reset => none
  | other => other.expression?

def paramSummary (colours : Bool) (p : Param) : String :=
  let default :=
    match p.default.bind shownValue? with
    | some value => " = " ++ value
    | none => ""
  "  " ++ entryName colours p.name ++ " " ++ p.kind.name ++ default ++ "\n"

def apiSummary (colours : Bool) (api : Family.RequiredApi) : String :=
  "  " ++ api.api ++ " (" ++ Style.dimmed.apply colours api.reason ++ ")\n"

def summary (m : Manifest) (colours verbose : Bool) : String :=
  let endpoints :=
    if m.endpoints.values.isEmpty then
      (Style.mk Style.yellow).apply colours "No endpoints found" ++ "\n"
    else
      heading colours "Endpoints:"
        ++ String.join (m.endpoints.values.map (endpointSummary colours verbose))
  let params :=
    if m.params.isEmpty then ""
    else heading colours "Params:" ++ String.join (m.params.map (paramSummary colours))
  endpoints ++ params ++ heading colours "Required APIs:"
    ++ String.join (m.requiredApis.map (apiSummary colours))

/-- The keys and where they are defined, a line for each. -/
def keyList (m : Manifest) : String :=
  String.join (m.endpoints.values.map fun e => e.key ++ "\t" ++ e.location.text ++ "\n")

end DeployManifest.Manifest
