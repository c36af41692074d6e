import DeployManifest.Value.Literal

/-! # Settings

A setting is the value of an option after evaluation: a literal, a reference to a deploy-time
parameter, a choice between two settings by a boolean parameter, or the wish for the platform's
default. References and choices are written as substitution texts between double braces, which the
platform fills in at deploy time.
-/

namespace DeployManifest

/-- The value of one option. -/
inductive Setting where
  | literal (value : Literal)
  /-- A reference to the parameter of this name. -/
  | param (name : String)
  /-- The first setting if the named parameter is true, otherwise the second. -/
  | choice (condition : String) (yes no : Setting)
  /-- The platform's default: the field stays out of the manifest. -/
  | reset

namespace Setting

def text (s : String) : Setting := .literal (.text s)

def bool (b : Bool) : Setting := .literal (.bool b)

def texts (items : List String) : Setting := .literal (Literal.texts items)

def isReset : Setting → Bool
  | .reset => true
  | _ => false

def literal? : Setting → Option Literal
  | .literal l => some l
  | _ => none

/-- A side of a choice inside the substitution text. Only literals and references stand there. -/
def branchText : Setting → String
  | .literal l => l.wireText
  | .param name => "params." ++ name
  | .choice _ _ _ => ""
  | .reset => ""

/-- What stands between the braces. -/
def braced (inside : String) : String := "\x7b\x7b " ++ inside ++ " \x7d\x7d"

/-- The substitution text of a setting that depends on a parameter. -/
def expression? : Setting → Option String
  | .param name => some (braced ("params." ++ name))
  | .choice condition yes no =>
    some (braced ("params." ++ condition ++ " ? " ++ yes.branchText ++ " : " ++ no.branchText))
  | .literal _ => none
  | .reset => none

def document : Setting → Document
  | .literal l => l.document
  | .param name => .text (braced ("params." ++ name))
  | .choice condition yes no => .text (((choice condition yes no).expression?).getD "")
  | .reset => .null

/-- The setting, unless it asks for the default. -/
def present? : Option Setting → Option Setting
  | some .reset => none
  | setting => setting

/-- Is the field left out of the manifest? -/
def isOmitted (setting : Option Setting) : Bool := (present? setting).isNone

/-- A field of a record that is left out when the setting is missing or reset. -/
def field (name : String) (setting : Option Setting) : List (String × Document) :=
  Document.field? name document (present? setting)

end Setting

end DeployManifest
