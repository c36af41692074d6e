import DeployManifest.Expr.Basic
import DeployManifest.Expr.Constant
import DeployManifest.Source.Module
import DeployManifest.Tree.Node

/-! # From trees to expressions

The expression that a node of a source tree stands for. Parentheses around one expression stand for
that expression.
-/

namespace DeployManifest.SourceModule

def nodeText (m : SourceModule) (n : Node) : String := String.ofList (m.slice n.start n.stop)

/-- An expression over the extent of a node. -/
def exprAt (m : SourceModule) (start stop : Nat) (form : ExprForm) : Expr :=
  ⟨form, m.location start, start, String.ofList (m.slice start stop)⟩

/-- The form of a constant, or unsupported if it has no value. -/
def constant {α : Type} (form : α → ExprForm) (value : Option α) : ExprForm :=
  match value with
  | some value => form value
  | none => .unsupported

/-- A signed number. -/
def signed (sign : Char) (operand : ExprForm) : ExprForm :=
  match sign, operand with
  | '-', .int n => .int (-n)
  | '-', .float x => .float x.neg
  | '+', .int n => .int n
  | '+', .float x => .float x
  | _, _ => .unsupported

def member (object : Option Expr) (name : String) : ExprForm :=
  match object.bind (·.path?) with
  | some parts => .path (parts ++ [name])
  | none => .unsupported

/-- The text of several strings in a row. -/
def joined (m : SourceModule) (parts : List Node) : Option String :=
  (parts.mapM fun part => Constant.text? (m.slice part.start part.stop)).map fun pieces =>
    String.ofList pieces.flatten

/-- The text of the first node in a part. -/
def partText (m : SourceModule) (role : Role) (nodes : List Node) : String :=
  match nodes.find? (·.role == role) with
  | some n => m.nodeText n
  | none => ""

mutual

def lower (m : SourceModule) : Node → Expr
  | .mk kind _ start stop children =>
    let cs := m.slice start stop
    let whole := m.exprAt start stop
    match kind with
    | .true => whole (.bool true)
    | .false => whole (.bool false)
    | .none => whole .none
    | .integer => whole (constant .int (Constant.integer? cs))
    | .float => whole (constant .float (Constant.float? cs))
    | .string => whole (constant .text ((Constant.text? cs).map String.ofList))
    | .concatenatedString => whole (constant .text (m.joined children))
    | .list => whole (.list (lowerAll m children))
    | .tuple => whole (.list (lowerAll m children))
    | .dictionary => whole (constant .dict (lowerEntries m children))
    | .parenthesizedExpression =>
      match lowerAll m children with
      | [only] => only
      | _ => whole .unsupported
    | .unaryOperator sign =>
      match lowerPart m .argument children with
      | some operand => whole (signed sign operand.form)
      | none => whole .unsupported
    | .identifier => whole (.name (String.ofList cs))
    | .member =>
      whole (member (lowerPart m .object children) (m.partText .member children))
    | .call =>
      match lowerPart m .function children with
      | some callee => whole (.call callee (lowerCall m children))
      | none => whole .unsupported
    | _ => whole .unsupported

def lowerAll (m : SourceModule) : List Node → List Expr
  | [] => []
  | n :: ns => lower m n :: lowerAll m ns

/-- The expression of the first node in a part. -/
def lowerPart (m : SourceModule) (role : Role) : List Node → Option Expr
  | [] => none
  | n :: ns => if n.role = role then some (lower m n) else lowerPart m role ns

/-- The entries of a dictionary, unless something is unpacked into it. -/
def lowerEntries (m : SourceModule) : List Node → Option (List (Expr × Expr))
  | [] => some []
  | .mk kind _ _ _ children :: ns =>
    if kind = .pair then
      match lowerPart m .key children, lowerPart m .value children, lowerEntries m ns with
      | some key, some value, some entries => some ((key, value) :: entries)
      | _, _, _ => none
    else none

/-- The arguments of a call among its parts. A comprehension in their place is one argument. -/
def lowerCall (m : SourceModule) : List Node → List Argument
  | [] => []
  | .mk kind role start stop children :: ns =>
    if role = .arguments then
      if kind = .argumentList then lowerArguments m children
      else [.positional (lower m (.mk kind role start stop children))]
    else lowerCall m ns

def lowerArguments (m : SourceModule) : List Node → List Argument
  | [] => []
  | .mk kind role start stop children :: ns =>
    let arg : Argument :=
      match kind with
      | .keywordArgument =>
        match lowerPart m .value children with
        | some value => .keyword (m.partText .name children) value (m.location start)
        | none => .positional (lower m (.mk kind role start stop children))
      | .listSplat => .splat (m.location start)
      | .dictionarySplat => .splat (m.location start)
      | _ => .positional (lower m (.mk kind role start stop children))
    arg :: lowerArguments m ns

end

end DeployManifest.SourceModule
