import DeployManifest.Tree.Atom
import DeployManifest.Tree.Bracket

/-! # Calls, subscripts and members

An atom with everything that may be written behind it. The arguments of a call are expressions,
starred expressions or values with a name.
-/

namespace DeployManifest.Parser

/-- The name of a keyword argument and the position behind its equals sign, if one comes next. -/
def keyword? (a : Admits) : Parser (Option Node) := fun c =>
  match c.next a with
  | (.token, here) =>
    let length := Token.nameLength here.rest
    let behind := here.advance length
    if length = 0 ∨ expressionWords.contains (String.ofList (here.rest.take length)) then
      some (none, c)
    else
      match behind.next .closing with
      | (.token, equals) =>
        if Token.mark equals.rest = "=" then
          some (some (.mk .identifier .name here.offset behind.offset []), equals.advance 1)
        else some (none, c)
      | _ => some (none, c)
  | _ => some (none, c)

def argument (rules : Rules) (a : Admits) : Parser Node := do
  if ← atMark a "*" then listSplat rules a .bracket
  else if ← atMark a "**" then dictionarySplat rules a .bracket
  else
    match ← keyword? a with
    | some name =>
      let value ← rules (.expression .operand .bracket true)
      spanning .keywordArgument [name, (asValue value).withRole .value]
    | none => rules (.expression a .bracket true)

/-- Reads what follows the opening parenthesis of a call: arguments, or a comprehension alone. -/
def arguments (rules : Rules) (start : Nat) : Parser Node := do
  match ← option (argument rules .item) with
  | none =>
    let _ ← option (mark .item ",")
    character .item ')'
    finish .argumentList start []
  | some first =>
    if ← atComprehension then
      let clauses ← comprehension rules
      character .closing ')'
      finish .generatorExpression start (first :: clauses)
    else
      let rest ← many (do mark .closing ","; argument rules .item)
      let _ ← option (mark .closing ",")
      character .closing ')'
      finish .argumentList start (first :: rest)

/-- Reads the arguments of a call or of a class. -/
def argumentsAt (rules : Rules) (a : Admits) : Parser Node := do
  let start ← startOf a
  character a '('
  arguments rules start

/-- Reads an index or a slice. -/
def subscriptItem (rules : Rules) (a : Admits) : Parser Node := do
  let start ← startOf a
  let lower ← option (rules (.expression a .bracket true))
  if (← option (mark .closing ":")).isSome then
    let upper ← option (rules (.expression .item .bracket true))
    let step ←
      if (← option (mark .closing ":")).isSome then
        option (rules (.expression .item .bracket true))
      else pure none
    finish .slice start (lower.toList ++ upper.toList ++ step.toList)
  else
    match lower with
    | some index => return index
    | none => refuse

/-- Reads what follows a primary expression: an attribute, a call, or a subscript. -/
def trailer (rules : Rules) (follow : Follow) (n : Node) : Parser Node := do
  let here ← token follow.admits
  match Token.mark here.rest with
  | "." =>
    moveTo (here.advance 1)
    let name ← identifier .nothing
    spanning .member [n.withRole .object, name.withRole .member]
  | "(" =>
    moveTo (here.advance 1)
    let args ← arguments rules here.offset
    spanning .call [n.withRole .function, args.withRole .arguments]
  | "[" =>
    moveTo (here.advance 1)
    let first ← subscriptItem rules .operand
    let rest ← many (do mark .closing ","; subscriptItem rules .item)
    let _ ← option (mark .closing ",")
    character .closing ']'
    spanning .subscript (n.withRole .value :: first :: rest)
  | _ => refuse

def trailers (rules : Rules) (follow : Follow) : Nat → Node → Parser Node
  | 0, n => return n
  | fuel + 1, n => do
    match ← option (trailer rules follow n) with
    | some n => trailers rules follow fuel n
    | none => return n

/-- Reads an expression without operators and trailers. -/
def atom (rules : Rules) (a : Admits) (follow : Follow) : Parser Node := do
  match ← peek a with
  | (.quotes _ _, _) => strings rules a follow
  | (.token, here) =>
    match Token.mark here.rest with
    | "(" =>
      moveTo (here.advance 1)
      parenthesized rules here.offset
    | "[" =>
      moveTo (here.advance 1)
      list rules here.offset
    | "\x7b" =>
      moveTo (here.advance 1)
      braced rules here.offset
    | "..." =>
      moveTo (here.advance 3)
      finish .ellipsis here.offset []
    | _ =>
      match Token.nameLength here.rest with
      | 0 => number a
      | length =>
        moveTo (here.advance length)
        finish (wordKind (String.ofList (here.rest.take length))) here.offset []
  | _ => refuse

def primary (rules : Rules) (a : Admits) (follow : Follow) : Parser Node := do
  let base ← atom rules a follow
  let here ← get
  trailers rules follow (here.rest.length + 1) base

end DeployManifest.Parser
