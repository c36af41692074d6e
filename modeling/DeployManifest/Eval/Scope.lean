import DeployManifest.Eval.Literal
import DeployManifest.Param.Table

/-! # Evaluation

The setting that an expression of a module stands for: a literal, a reference to a parameter, a
choice between two of these by a boolean parameter, or the wish for the default. Nothing is guessed;
an expression that is none of these is refused where it stands.
-/

namespace DeployManifest

/-- What the expressions of a module can refer to. -/
structure Scope where
  params : ParamTable
  scan : ModuleScan

namespace Scope

/-- The parameter that a name refers to where an expression stands. The parameter of another module
is meant if the name is imported, or not bound in this module at all. -/
def param (s : Scope) (name : String) (e : Expr) : Except CompileError Param :=
  match s.params.lookup name s.scan.module e.offset with
  | .found p => .ok p
  | .otherModule p =>
    if s.scan.imports.contains name || !s.scan.locals.contains name then .ok p
    else .error (e.unsupported (.shadowed name p.name))
  | .declaredLater _ => .error (.unknownParam e.location name)
  | .notFound =>
    if s.scan.locals.contains name || s.scan.imports.contains name then
      .error (e.unsupported (.localVariable name))
    else .error (.unknownParam e.location name)

def condition (s : Scope) (name : String) (e : Expr) : Except CompileError Param := do
  let p ← s.param name e
  if p.kind = .boolean then return p else throw (e.unsupported (.conditionKind name p.kind))

/-- A side of a choice: a parameter or a literal that is no list or map. -/
def branch (e : Expr) : Setting → Except CompileError Setting
  | .param name => .ok (.param name)
  | .literal l =>
    if l.isScalar then .ok (.literal l) else .error (e.unsupported .compositeBranch)
  | .choice _ _ _ => .error (e.unsupported .nestedChoice)
  | .reset => .error (e.unsupported .resetBranch)

/-- The name of the parameter that a call chooses by, if its callee chooses. -/
def chooser? (callee : Expr) : Option String :=
  match callee.path? with
  | some [name, "thenElse"] => some name
  | _ => none

/-- The setting that an expression stands for. -/
def evaluate (s : Scope) : Expr → Except CompileError Setting
  | ⟨form, location, offset, text⟩ =>
    let e : Expr := ⟨form, location, offset, text⟩
    match form with
    | .none => .error (e.unsupported .noneValue)
    | .name name =>
      if name = "RESET_VALUE" then .ok .reset else (s.param name e).map fun p => .param p.name
    | .path parts => e.constant parts
    | .call callee args =>
      match chooser? callee with
      | none => .error (e.unsupported .functionCall)
      | some name =>
        match args with
        | [.positional yes, .positional no] => do
          let p ← s.condition name e
          let first ← branch yes (← s.evaluate yes)
          let second ← branch no (← s.evaluate no)
          return .choice p.name first second
        | _ => .error (e.unsupported .choiceArguments)
    | .unsupported => .error (e.unsupported .notConstant)
    | _ => e.literal.map .literal

end Scope

end DeployManifest
