import DeployManifest.Document.Yaml.Block
import DeployManifest.Manifest.Basic

/-! # The written forms of a manifest

A manifest is written as YAML or as indented JSON. Either text ends with a line feed.
-/

namespace DeployManifest

/-- The forms that a manifest is written in. -/
inductive Format where
  | yaml
  | json
  deriving DecidableEq

namespace Format

/-- The name of the form, which is also the extension of its files. -/
def name : Format → String
  | .yaml => "yaml"
  | .json => "json"

/-- The form with a name in capital or small letters. -/
def parse? (text : String) : Option Format :=
  match String.ofList (text.toList.map Char.toLower) with
  | "yaml" => some .yaml
  | "yml" => some .yaml
  | "json" => some .json
  | _ => none

def unknown (text : String) : String :=
  "unknown manifest format '" ++ String.ofList (text.toList.map Char.toLower)
    ++ "' (expected yaml or json)"

end Format

def withFinalNewline (text : String) : String :=
  if text.toList.getLast? == some '\n' then text else text ++ "\n"

def Document.render (format : Format) (d : Document) : String :=
  withFinalNewline
    (match format with
    | .yaml => Yaml.write d
    | .json => Json.indented d)

def Manifest.render (m : Manifest) (format : Format) : String := m.document.render format

end DeployManifest
