import DeployManifest.Compile.Call
import DeployManifest.Eval.Scope
import DeployManifest.Options.Field

/-! # Evaluated options

The options of one call with their values. Each is converted to the type of the field that it is
for when that field is filled.
-/

namespace DeployManifest

structure OptionValue where
  name : String
  value : Setting
  location : Location

abbrev OptionSet := List OptionValue

namespace Scope

/-- The name of a secret: a text, or the parameter that a name refers to, which has to be one. -/
def secretName (s : Scope) (item : Expr) : Except CompileError String :=
  match item.form with
  | .text name => .ok name
  | .name binding => do
    let p ← s.param binding item
    if p.kind = .secret then return p.name
    else throw (.invalidOption item.location "secrets" (.paramKind p.name p.kind "secret"))
  | _ => .error (item.unsupported .secretItem)

/-- The names of secrets: a list of them, or a single one. -/
def secrets (s : Scope) (e : Expr) : Except CompileError Setting :=
  let named (items : List Expr) : Except CompileError Setting := do
    return .texts (← items.mapM s.secretName)
  let other : Except CompileError Setting := do
    match ← s.evaluate e with
    | .reset => return .reset
    | _ => throw (e.unsupported .secretsNotList)
  match e.form with
  | .list items => named items
  | .text _ => named [e]
  | .name name => if name = "RESET_VALUE" then other else named [e]
  | _ => other

def optionValue (s : Scope) (arg : OptionArgument) : Except CompileError OptionValue := do
  let value ← if arg.name = "secrets" then s.secrets arg.value else s.evaluate arg.value
  return ⟨arg.name, value, arg.location⟩

def options (s : Scope) (args : List OptionArgument) : Except CompileError OptionSet :=
  args.mapM s.optionValue

end Scope

namespace OptionSet

/-- The value of an option, converted, if the option is given. -/
def convert {α : Type} (options : OptionSet) (params : ParamTable) (name : String)
    (conversion : Field → Setting → Except CompileError α) : Except CompileError (Option α) :=
  match options.find? fun (o : OptionValue) => o.name == name with
  | none => .ok none
  | some o => (conversion ⟨params, name, o.location⟩ o.value).map some

end OptionSet

end DeployManifest
