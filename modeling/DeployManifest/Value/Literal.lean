import DeployManifest.Document.Json
import DeployManifest.KeyMap

/-! # Literals

A literal is a constant taken from source: truth values, 64-bit integers, binary64 numbers, texts,
and lists and maps of literals. The entries of a map ascend in their keys.
-/

namespace DeployManifest

inductive Literal where
  | bool (value : Bool)
  | int (value : Int)
  | float (value : Binary64)
  | text (value : String)
  | list (items : List Literal)
  | map (entries : List (String × Literal))

namespace Literal

/-- The name of the literal's type, as messages use it. -/
def typeName : Literal → String
  | .bool _ => "boolean"
  | .int _ => "int"
  | .float _ => "float"
  | .text _ => "string"
  | .list _ => "list"
  | .map _ => "map"

def text? : Literal → Option String
  | .text s => some s
  | _ => none

def isBool : Literal → Bool
  | .bool _ => true
  | _ => false

def isInt : Literal → Bool
  | .int _ => true
  | _ => false

def isText : Literal → Bool
  | .text _ => true
  | _ => false

/-- An integer or a floating point number. -/
def isNumber : Literal → Bool
  | .int _ => true
  | .float _ => true
  | _ => false

/-- Neither a list nor a map. -/
def isScalar : Literal → Bool
  | .list _ => false
  | .map _ => false
  | _ => true

def texts (items : List String) : Literal := .list (items.map .text)

mutual

def document : Literal → Document
  | .bool b => .bool b
  | .int n => .int n
  | .float x => .float x
  | .text s => .text s
  | .list items => .list (documents items)
  | .map entries => .record (entryDocuments entries)

def documents : List Literal → List Document
  | [] => []
  | item :: items => document item :: documents items

def entryDocuments : List (String × Literal) → List (String × Document)
  | [] => []
  | (key, value) :: entries => (key, document value) :: entryDocuments entries

end

/-- The literal as it stands inside a substitution: its compact JSON text. -/
def wireText (l : Literal) : String := Json.compact l.document

end Literal

end DeployManifest
