import DeployManifest.Tree.Parameter
import DeployManifest.Tree.Import

/-! # Simple statements

Assignments and the statements of one keyword. Simple statements share a line, with semicolons
between them.
-/

namespace DeployManifest.Parser

/-! ### Assignments -/

/-- Reads what makes an assignment of the expression in front of it, if it is one: a value, a type,
or an operator with a value. -/
def assignmentTo (rules : Rules) (left : Node) : Parser Node := do
  let here ← token .line
  let sign := Token.mark here.rest
  if sign == "=" then
    let target ← asTarget left
    moveTo (here.advance 1)
    let right ← rules .rightSide
    spanning .assignment [target.withRole .left, right.withRole .right]
  else if sign == ":" then
    let target ← asTarget left
    moveTo (here.advance 1)
    let annotation ← rules (.typeNode .operand .line true)
    if ← atMark .line "=" then
      mark .line "="
      let right ← rules .rightSide
      spanning .assignment [target.withRole .left, annotation, right.withRole .right]
    else spanning .assignment [target.withRole .left, annotation]
  else if Token.augmentedMarks.contains sign then
    let target ← asTarget left
    moveTo (here.advance sign.length)
    let right ← rules .rightSide
    spanning .augmentedAssignment [target.withRole .left, right.withRole .right]
  else refuse

def rightSide (rules : Rules) : Parser Node := do
  if ← atWord .operand "yield" then yield rules .operand .line
  else
    let value ← expressions rules .operand .line
    match ← option (assignmentTo rules value) with
    | some assigned => return assigned
    | none => return value

/-- Reads an expression or an assignment as a statement. -/
def expressionStatement (rules : Rules) (first : Admits) : Parser Node := do
  if ← atWord first "yield" then spanning .expressionStatement [← yield rules first .line]
  else
    let value ← expressions rules first .line
    match ← option (assignmentTo rules value) with
    | some assigned => spanning .expressionStatement [assigned]
    | none => spanning .expressionStatement [value]

/-! ### Simple statements -/

def statementEnd : Parser Unit := do
  match ← peek .line with
  | (.newline, _) => return ()
  | (.token, here) => if here.rest.head? == some ';' then return () else refuse
  | _ => refuse

/-- Reads a statement that has to end where it leaves off. -/
def whole (p : Parser Node) : Parser Node := do
  let n ← p
  statementEnd
  return n

def valueList (rules : Rules) (follow : Follow) : Parser (List Node) := do
  let first ← rules (.expression .operand follow true)
  let rest ← many (do mark follow.admits ","; rules (.expression .operand follow true))
  return first :: rest

/-- Reads the printed values behind the word `print`. -/
def printed (rules : Rules) (start : Nat) : Parser Node := do
  let target ←
    if ← atMark .operand ">>" then do
      mark .operand ">>"
      pure [← rules (.expression .operand .line true)]
    else pure [← rules (.expression .operand .line true)]
  let rest ← many (do
    mark .line ","
    rules (.expression .operandOrLine .line true))
  let _ ← option (mark .line ",")
  finish .printStatement start (target ++ rest)

/-- Reads the executed text behind the word `exec`. -/
def executed (rules : Rules) (start : Nat) : Parser Node := do
  let code ← or (string rules .operand) (identifier .operand)
  if ← atWord .line "in" then
    word .line "in"
    finish .execStatement start (code :: (← valueList rules .line))
  else finish .execStatement start [code]

def typeAlias (rules : Rules) (start : Nat) : Parser Node := do
  let left ← rules (.typeNode .operand .inner true)
  mark .nothing "="
  let right ← rules (.typeNode .operand .line true)
  finish .typeAliasStatement start [left, right]

/-- Reads names with commas between them. -/
def plainNames : Parser (List Node) := do
  let first ← identifier .nothing
  let rest ← many (do mark .line ","; identifier .nothing)
  return first :: rest

def optionalValue (rules : Rules) : Parser (List Node) := do
  return (← option (expressions rules .operandOrLine .line)).toList

/-- Reads expressions behind the word `raise`, up to the word `from`. -/
def raisedValue (rules : Rules) : Parser Node := do
  noWord .operandOrLine ["from"]
  let head ← rules (.expression .operandOrLine .line true)
  let rest ← many (do
    mark .line ","
    noWord .operandOrLine ["from"]
    rules (.expression .operandOrLine .line true))
  let comma ← option (mark .line ",")
  if rest.isEmpty && comma.isNone then return head
  else spanning .expressionList (head :: rest)

def raised (rules : Rules) (start : Nat) : Parser Node := do
  let value := (← option (raisedValue rules)).toList
  if ← atWord .line "from" then
    word .line "from"
    let cause ← rules (.expression .operand .line true)
    finish .raiseStatement start (value ++ [cause])
  else finish .raiseStatement start value

/-- Reads the rest of a simple statement behind the keyword that it starts with, if it starts with
one. -/
def keywordStatement? (rules : Rules) (start : Nat) (word : String) : Option (Parser Node) :=
  match word with
  | "import" => some do finish .importStatement start (← importedNames .line)
  | "from" => some (importFrom start)
  | "assert" => some do finish .assertStatement start (← valueList rules .line)
  | "return" => some do finish .returnStatement start (← optionalValue rules)
  | "del" => some do finish .deleteStatement start [← expressions rules .operand .line]
  | "raise" => some (raised rules start)
  | "pass" => some (finish .passStatement start [])
  | "break" => some (finish .breakStatement start [])
  | "continue" => some (finish .continueStatement start [])
  | "global" => some do finish .globalStatement start (← plainNames)
  | "nonlocal" => some do finish .nonlocalStatement start (← plainNames)
  | _ => none

def simple (rules : Rules) (first : Admits) : Parser Node := do
  match ← name? first with
  | none => expressionStatement rules first
  | some (word, behind) =>
    let start ← startOf first
    let after (p : Parser Node) : Parser Node := do
      moveTo behind
      p
    match keywordStatement? rules start word with
    | some p => after p
    | none =>
      match word with
      | "print" => or (whole (expressionStatement rules first)) (after (printed rules start))
      | "exec" => or (whole (expressionStatement rules first)) (after (executed rules start))
      | "type" => or (whole (after (typeAlias rules start))) (expressionStatement rules first)
      | _ => expressionStatement rules first

def simpleLine (rules : Rules) (first : Admits) : Parser Node := do
  let head ← simple rules first
  let rest ← many (do mark .line ";"; simple rules .operandOrLine)
  let _ ← option (mark .line ";")
  newline
  if rest.isEmpty then return head else spanning .line (head :: rest)

end DeployManifest.Parser
