import DeployManifest.Source.Location
import DeployManifest.Value.Setting

/-! # Deploy-time parameters

A parameter is declared in source and given its value when the functions are deployed. Its kind
says which literals it may have as a default.
-/

namespace DeployManifest

inductive ParamKind where
  | string
  | int
  | boolean
  | float
  | list
  | secret
  deriving DecidableEq

namespace ParamKind

def name : ParamKind → String
  | .string => "string"
  | .int => "int"
  | .boolean => "boolean"
  | .float => "float"
  | .list => "list"
  | .secret => "secret"

/-- The kind that a declaring method stands for. -/
def ofMethod? : String → Option ParamKind
  | "defineString" => some .string
  | "defineInt" => some .int
  | "defineBoolean" => some .boolean
  | "defineFloat" => some .float
  | "defineList" => some .list
  | "defineSecret" => some .secret
  | _ => none

/-- May the literal be a default? Integers do for floating point numbers, lists hold texts only,
and a secret takes no default at all. -/
def accepts : ParamKind → Literal → Bool
  | .string, .text _ => true
  | .int, .int _ => true
  | .boolean, .bool _ => true
  | .float, .float _ => true
  | .float, .int _ => true
  | .list, .list items => items.all Literal.isText
  | _, _ => false

end ParamKind

/-- A declared parameter. -/
structure Param where
  name : String
  kind : ParamKind
  default : Option Setting
  label : Option String
  description : Option String
  location : Location

namespace Param

def isNameChar (c : Char) : Bool := c.isUpper || c.isDigit || c == '_'

/-- Names are capital letters, digits and underscores, with a letter in front. -/
def isName (name : String) : Bool :=
  match name.toList with
  | [] => false
  | c :: cs => c.isUpper && cs.all isNameChar

def document (p : Param) : Document :=
  .record (
    [("name", .text p.name), ("type", .text p.kind.name)]
      ++ Setting.field "default" p.default
      ++ Document.field? "label" .text p.label
      ++ Document.field? "description" .text p.description)

end Param

end DeployManifest
