import DeployManifest.Expr.Basic
import DeployManifest.Family
import DeployManifest.KeyMap
import DeployManifest.Param.Basic

/-! # What is found in a module

The calls of a module that say what to deploy, and the names that the module binds. Nothing of it is
evaluated yet.
-/

namespace DeployManifest

inductive RegistrationForm where
  /-- A call above the definition of a function. -/
  | decorator (function : String)
  /-- The method alone, not called, above the definition of a function. -/
  | bareDecorator (function : String)
  /-- A call, perhaps with a name for its result. -/
  | call (binding : Option String)
  deriving DecidableEq

structure Registration where
  family : Family
  method : String
  args : List Argument
  form : RegistrationForm
  location : Location
  offset : Nat

/-- The method under its family's namespace, as messages name it. -/
def Registration.name (r : Registration) : String := r.family.namespaceName ++ "." ++ r.method

/-- A call that declares a parameter. -/
structure Declaration where
  kind : ParamKind
  /-- The name that the parameter is assigned to. -/
  binding : Option String
  args : List Argument
  location : Location
  offset : Nat

/-- A call that sets options for all endpoints. -/
structure GlobalCall where
  args : List Argument
  location : Location
  offset : Nat

inductive Finding where
  | registration (r : Registration)
  | declaration (d : Declaration)
  | globalCall (g : GlobalCall)
  /-- A name that the module binds by itself. -/
  | localName (name : String)
  /-- A name that the module binds by an import. -/
  | importedName (name : String)

namespace Finding

def registration? : Finding → Option Registration
  | .registration r => some r
  | _ => none

def declaration? : Finding → Option Declaration
  | .declaration d => some d
  | _ => none

def globalCall? : Finding → Option GlobalCall
  | .globalCall g => some g
  | _ => none

def localName? : Finding → Option String
  | .localName name => some name
  | _ => none

def importedName? : Finding → Option String
  | .importedName name => some name
  | _ => none

end Finding

/-- Everything found in a module, each kind in source order. -/
structure ModuleScan where
  /-- The name of the module. -/
  module : String
  findings : List Finding

namespace ModuleScan

def registrations (s : ModuleScan) : List Registration := s.findings.filterMap (·.registration?)

def declarations (s : ModuleScan) : List Declaration := s.findings.filterMap (·.declaration?)

def globalCalls (s : ModuleScan) : List GlobalCall := s.findings.filterMap (·.globalCall?)

/-- The names that the module binds by itself. -/
def locals (s : ModuleScan) : List String := s.findings.filterMap (·.localName?)

def imports (s : ModuleScan) : List String := s.findings.filterMap (·.importedName?)

end ModuleScan

/-- The names in ascending order, each once. -/
def sortedNames (names : List String) : List String :=
  (KeyMap.ofList (names.map fun name => (name, ()))).map (·.1)

end DeployManifest
