import DeployManifest.Tree.Call

/-! # Expressions

Operators, from those that bind most to those that bind least: powers, signs, arithmetic,
comparisons, negation, conjunction, disjunction, conditions and lambdas.
-/

namespace DeployManifest.Parser

/-- The nodes that a star in front of a primary expression can cover. -/
def isStarrable (n : Node) : Bool :=
  n.kind = .identifier || n.kind = .member || n.kind = .subscript

/-- Puts a star in front of the longest starrable part of a chain of trailers. -/
def starred (start : Nat) : Node → Option Node
  | .mk kind role from_ stop children =>
    if isStarrable (.mk kind role from_ stop children) then
      some (.mk .listSplat .plain start stop [.mk kind .plain from_ stop children])
    else
      match kind, children with
      | .call, function :: rest =>
        (starred start function).map fun inner =>
          .mk .call role start stop (inner.withRole .function :: rest)
      | _, _ => none

/-- Words that go on with an expression, and so are not the operand of what stands before. -/
def continuations : List String :=
  ["if", "else", "and", "or", "not", "in", "is", "as", "for", "from"]

/-- Does a primary expression start here? -/
def startsPrimary (a : Admits) (c : Cursor) : Bool :=
  match c.next a with
  | (.quotes _ _, _) => true
  | (.token, here) =>
    match Token.nameLength here.rest with
    | 0 =>
      ["(", "[", "\x7b", "+", "-", "~", "*", "..."].contains (Token.mark here.rest)
        || 0 < Token.integerLength here.rest || 0 < Token.floatLength here.rest
    | length => !continuations.contains (String.ofList (here.rest.take length))
  | _ => false

/-- Reads an operand of an arithmetic operator: signs bind less than powers. -/
def unary (rules : Rules) (first : Admits) (follow : Follow) : Parser Node := do
  let power : Parser Node := do
    let base ← primary rules first follow
    if ← atMark follow.admits "**" then
      mark follow.admits "**"
      let exponent ← rules (.unary .operand follow)
      spanning .binaryOperator [base, exponent]
    else return base
  match ← peek first with
  | (.quotes _ _, _) => power
  | (.token, here) =>
    let sign (c : Char) : Parser Node := do
      moveTo (here.advance 1)
      let operand ← rules (.unary .operand follow)
      finish (.unaryOperator c) here.offset [operand.withRole .argument]
    match Token.mark here.rest with
    | "+" => sign '+'
    | "-" => sign '-'
    | "~" => sign '~'
    | "*" =>
      moveTo (here.advance 1)
      let chain ← primary rules .operand follow
      match starred here.offset chain with
      | some n => return n
      | none => refuse
    | _ =>
      let length := Token.nameLength here.rest
      if here.rest.take length = "await".toList
          && startsPrimary (Follow.next follow) (here.advance length) then
        moveTo (here.advance length)
        let operand ← rules (.unary .operand follow)
        finish .await here.offset [operand]
      else power
  | _ => refuse

/-- The arithmetic operators, from those that bind most to those that bind least. -/
def operatorLevels : List (List String) :=
  [["*", "@", "/", "%", "//"], ["+", "-"], ["<<", ">>"], ["^"], ["&"], ["|"]]

def binaryNode (left right : Node) : Node :=
  .mk .binaryOperator .plain left.start right.stop [left, right]

/-- Joins the operands of a level of operators, from the left. -/
def joinLevel (level : List String) (left : Node) : List (String × Node) →
    Node × List (String × Node)
  | [] => (left, [])
  | (op, right) :: rest =>
    if level.contains op then joinLevel level (binaryNode left right) rest
    else
      let (next, rest) := joinLevel level right rest
      (left, (op, next) :: rest)

/-- The tree of a row of operands with operators between them. -/
def joinAll (left : Node) (rest : List (String × Node)) : Node :=
  (operatorLevels.foldl (fun row level => joinLevel level row.1 row.2) (left, rest)).1

/-- Reads an operand of a comparison. -/
def arithmetic (rules : Rules) (first : Admits) (follow : Follow) : Parser Node := do
  let left ← rules (.unary first follow)
  let rest ← many (do
    let op ← oneOf follow.admits operatorLevels.flatten
    let right ← rules (.unary .operand follow)
    return (op, right))
  return joinAll left rest

def comparator (follow : Follow) : Parser Unit :=
  or (do let _ ← oneOf follow.admits ["<", "<=", "==", "!=", ">=", ">", "<>"])
    (or (word follow.admits "in")
      (or (do word follow.admits "not"; word .nothing "in")
        (do word follow.admits "is"; let _ ← option (word .operand "not"))))

/-- Reads a comparison. -/
def comparison (rules : Rules) (first : Admits) (follow : Follow) : Parser Node := do
  let left ← arithmetic rules first follow
  let rest ← many (do comparator follow; arithmetic rules .operand follow)
  if rest.isEmpty then return left else spanning .comparisonOperator (left :: rest)

/-- Reads the parameters of a lambda, up to its body. -/
def lambda (rules : Rules) (parameter : Parser Node) (first : Admits) (follow : Follow) :
    Parser Node := do
  let start ← startOf first
  word first "lambda"
  let parameters ←
    if ← atMark .nothing ":" then pure []
    else do
      let head ← parameter
      let rest ← many (do mark .nothing ","; parameter)
      let _ ← option (mark .nothing ",")
      pure [← spanning .lambdaParameters (head :: rest)]
  mark .nothing ":"
  let body ← rules (.expression .operand follow true)
  finish .lambda start (parameters ++ [body])

/-- The name before the mark `:=` and the position behind the mark, if they come next. -/
def namedBy? (a : Admits) : Parser (Option Node) := fun c =>
  match c.next a with
  | (.token, here) =>
    let length := Token.nameLength here.rest
    let behind := here.advance length
    if length = 0 ∨ expressionWords.contains (String.ofList (here.rest.take length)) then
      some (none, c)
    else
      match behind.next .nothing with
      | (.token, mark) =>
        if Token.mark mark.rest = ":=" then
          some (some (.mk .identifier .name here.offset behind.offset []), mark.advance 2)
        else some (none, c)
      | _ => some (none, c)
  | _ => some (none, c)

/-- Reads an operand of a boolean operator. -/
def negation (rules : Rules) (parameter : Parser Node) (first : Admits) (follow : Follow) :
    Parser Node := do
  if ← atWord first "not" then
    let start ← startOf first
    word first "not"
    let operand ← rules (.negation .operand follow)
    finish .notOperator start [operand]
  else if ← atWord first "lambda" then lambda rules parameter first follow
  else
    match ← namedBy? first with
    | some name =>
      let value ← rules (.expression .operand follow false)
      spanning .namedExpression [name, value]
    | none => comparison rules first follow

/-- Reads operands with one boolean operator between them. -/
def booleans (op : String) (operand : Admits → Parser Node) (first : Admits) (follow : Follow) :
    Parser Node := do
  let left ← operand first
  let rest ← many (do word follow.admits op; operand .operand)
  return rest.foldl
    (fun left right => .mk .booleanOperator .plain left.start right.stop [left, right]) left

/-- Reads what a condition, or an alias, can stand behind. -/
def disjunction (rules : Rules) (first : Admits) (follow : Follow) : Parser Node :=
  booleans "or"
    (fun first => booleans "and" (fun first => rules (.negation first follow)) first follow)
    first follow

def aliased (rules : Rules) (follow : Follow) (n : Node) : Parser Node := do
  word follow.admits "as"
  let inner ← disjunction rules .operand follow
  spanning .asPattern [n, .mk .asPatternTarget .alias inner.start inner.stop [inner]]

/-- Reads the aliases behind an expression, at most `fuel` of them. -/
def aliases (rules : Rules) (follow : Follow) : Nat → Node → Parser Node
  | 0, n => return n
  | fuel + 1, n => do
    match ← option (aliased rules follow n) with
    | some n => aliases rules follow fuel n
    | none => return n

def expression (rules : Rules) (first : Admits) (follow : Follow) (conditional : Bool) :
    Parser Node := do
  let head ← disjunction rules first follow
  let here ← get
  let head ← aliases rules follow (here.rest.length + 1) head
  if conditional && (← atWord follow.admits "if") then
    word follow.admits "if"
    let condition ← rules (.expression .operand .inner true)
    word .nothing "else"
    let otherwise ← rules (.expression .operand follow true)
    spanning .conditionalExpression [head, condition, otherwise]
  else return head

end DeployManifest.Parser
