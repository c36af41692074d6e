import DeployManifest.Number.Binary64
import DeployManifest.Source.Location

/-! # Expressions

The expressions of the source that can be settings: constants, lists, mappings, names, paths of
names, and calls. Any other expression is kept as unsupported, with its text for messages.
-/

namespace DeployManifest

mutual

structure Expr where
  form : ExprForm
  location : Location
  /-- How many bytes of the module stand in front. -/
  offset : Nat
  /-- The source text. -/
  text : String

/-- What an expression is. -/
inductive ExprForm where
  | bool (value : Bool)
  | int (value : Int)
  | float (value : Binary64)
  | text (value : String)
  | none
  | list (items : List Expr)
  | dict (entries : List (Expr × Expr))
  | name (name : String)
  /-- Two or more names with points between them. -/
  | path (parts : List String)
  | call (callee : Expr) (args : List Argument)
  | unsupported

inductive Argument where
  | positional (value : Expr)
  | keyword (name : String) (value : Expr) (location : Location)
  /-- One or two stars in front of what is unpacked into arguments. -/
  | splat (location : Location)

end

namespace Expr

def isNone (e : Expr) : Bool :=
  match e.form with
  | .none => true
  | _ => false

def text? (e : Expr) : Option String :=
  match e.form with
  | .text s => some s
  | _ => none

def name? (e : Expr) : Option String :=
  match e.form with
  | .name s => some s
  | _ => none

/-- The names of a path, or the only one of a name. -/
def path? (e : Expr) : Option (List String) :=
  match e.form with
  | .name s => some [s]
  | .path parts => some parts
  | _ => none

end Expr

end DeployManifest
