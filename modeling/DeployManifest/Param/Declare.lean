import DeployManifest.Eval.Literal
import DeployManifest.Param.Table

/-! # Declaring parameters

A declaration gives a parameter its name and perhaps a default, a label and a description, all of
them constants. It is refused if the name is taken.
-/

namespace DeployManifest

/-- The arguments of a declaration by what they are for. -/
structure DeclarationArguments where
  name : Option Expr
  default : Option Expr
  label : Option Expr
  description : Option Expr

namespace DeclarationArguments

def none : DeclarationArguments := ⟨.none, .none, .none, .none⟩

/-- Enters a value that has not been given yet. -/
def enter? (keyword : String) (value : Expr) : Option Expr → Except ParamFault (Option Expr)
  | .none => .ok (some value)
  | some _ => .error (.repeatedKeyword keyword)

/-- Enters an argument. A positional one is the name, and there can be one only. -/
def add (given : DeclarationArguments) (positional : Nat) :
    Argument → Except ParamFault DeclarationArguments
  | .positional value =>
    if positional = 0 then .ok { given with name := some value } else .error .positional
  | .splat _ => .error .unpacking
  | .keyword keyword value _ =>
    match keyword with
    | "name" => return { given with name := ← enter? keyword value given.name }
    | "default" => return { given with default := ← enter? keyword value given.default }
    | "label" => return { given with label := ← enter? keyword value given.label }
    | "description" =>
      return { given with description := ← enter? keyword value given.description }
    | _ => .error (.unexpectedKeyword keyword)

/-- Enters the arguments one by one, after some positional ones. -/
def addAll (given : DeclarationArguments) (positional : Nat) :
    List Argument → Except ParamFault DeclarationArguments
  | [] => .ok given
  | arg :: args => do
    let given ← given.add positional arg
    match arg with
    | .positional _ => addAll given (positional + 1) args
    | _ => addAll given positional args

/-- The argument, unless it is absent or `None`. -/
def given? (value : Option Expr) : Option Expr := value.filter (!·.isNone)

def text? (keyword : String) (value : Option Expr) : Except ParamFault (Option String) :=
  match given? value with
  | .none => .ok .none
  | some e =>
    match e.text? with
    | some s => .ok (some s)
    | .none => .error (.notText keyword)

/-- The declared name. -/
def declaredName (given : DeclarationArguments) : Except ParamFault String :=
  match given.name with
  | .none => .error .missingName
  | some e =>
    match e.text? with
    | .none => .error .nameNotText
    | some name => if Param.isName name then .ok name else .error (.malformedName name)

end DeclarationArguments

namespace Declaration

def invalid (d : Declaration) (fault : ParamFault) : CompileError := .invalidParam d.location fault

/-- The default of a parameter: a literal of its kind. A secret has none. -/
def defaultOf (d : Declaration) (name : String) (value : Option Expr) :
    Except CompileError (Option Setting) :=
  match DeclarationArguments.given? value with
  | none => .ok none
  | some e =>
    if d.kind = .secret then .error (d.invalid (.secretDefault name))
    else do
      let l ← e.literal
      if d.kind.accepts l then return some (.literal l)
      else throw (d.invalid (.defaultType d.kind name l.typeName))

/-- The declared parameter. -/
def param (d : Declaration) : Except CompileError Param := do
  let given ← (DeclarationArguments.none.addAll 0 d.args).mapError d.invalid
  let name ← given.declaredName.mapError d.invalid
  let default ← d.defaultOf name given.default
  let label ← (DeclarationArguments.text? "label" given.label).mapError d.invalid
  let description ← (DeclarationArguments.text? "description" given.description).mapError d.invalid
  return ⟨name, d.kind, default, label, description, d.location⟩

end Declaration

namespace ParamTable

/-- The table with one more parameter, unless its name is taken. -/
def declare (t : ParamTable) (d : Declaration) : Except CompileError ParamTable := do
  let p ← d.param
  match free : t.holder? p.name with
  | some holder => throw (.duplicateParam p.name holder.param.location d.location)
  | none => return t.push ⟨p, d.binding, d.offset⟩ free

end ParamTable

end DeployManifest
