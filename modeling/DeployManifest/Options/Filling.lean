import DeployManifest.Options.Basic

/-! # Filling fields from options

The fields of an endpoint are filled by programs that ask for options by their names, each with the
conversion of its field, and go on with what they are given. What is done with the options that have
been asked for is not up to the program.
-/

namespace DeployManifest

/-- A program that fills fields from options. -/
inductive Filling (α : Type) : Type 1 where
  | done (value : α)
  | failed (fault : CompileError)
  | take {β : Type} (name : String) (conversion : Field → Setting → Except CompileError β)
      (next : Option β → Filling α)

namespace Filling

variable {α β : Type}

protected def bind : Filling α → (α → Filling β) → Filling β
  | done value, f => f value
  | failed fault, _ => failed fault
  | take name conversion next, f => take name conversion fun given => (next given).bind f

instance : Monad Filling where
  pure := done
  bind := Filling.bind

def option (name : String) (conversion : Field → Setting → Except CompileError α) :
    Filling (Option α) := take name conversion done

def typed (name : String) (type : FieldType) : Filling (Option Setting) :=
  option name fun f value => f.typed type value

/-- Goes on unless something that asks for no options has failed. -/
def ofOutcome : Except CompileError α → Filling α
  | .ok value => done value
  | .error fault => failed fault

/-- Runs the program on options that stay when they have been asked for. -/
def read (params : ParamTable) (options : OptionSet) : Filling α → Except CompileError α
  | done value => .ok value
  | failed fault => .error fault
  | take name conversion next => do
    let given ← options.convert params name conversion
    (next given).read params options

end Filling

end DeployManifest
