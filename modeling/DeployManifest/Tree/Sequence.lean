import DeployManifest.Tree.Rule

/-! # Rows of expressions

Expressions with commas between them, the elements of collections, and the targets that such rows
can be read as: `target?` is defined exactly for the expressions that may be assigned to.
-/

namespace DeployManifest.Parser

/-! ### Lists of expressions -/

/-- Reads expressions with commas between them; a comma at the end makes a list of one, too. -/
def expressions (rules : Rules) (first : Admits) (follow : Follow) : Parser Node := do
  let head ← rules (.expression first follow true)
  let rest ← many (do
    mark follow.admits ","
    rules (.expression (Follow.next follow) follow true))
  let comma ← option (mark follow.admits ",")
  if rest.isEmpty && comma.isNone then return head
  else spanning .expressionList (head :: rest)

def yield (rules : Rules) (first : Admits) (follow : Follow) : Parser Node := do
  let start ← startOf first
  word first "yield"
  if ← atWord (Follow.next follow) "from" then
    word (Follow.next follow) "from"
    let value ← rules (.expression .operand follow true)
    finish .yield start [value]
  else
    let value ← option (expressions rules (Follow.next follow) follow)
    finish .yield start value.toList

def listSplat (rules : Rules) (a : Admits) (follow : Follow) : Parser Node := do
  let start ← startOf a
  mark a "*"
  let value ← rules (.expression .operand follow true)
  finish .listSplat start [value]

def dictionarySplat (rules : Rules) (a : Admits) (follow : Follow) : Parser Node := do
  let start ← startOf a
  mark a "**"
  let value ← rules (.expression .operand follow true)
  finish .dictionarySplat start [value]

def element (rules : Rules) (a : Admits) : Parser Node := do
  if ← atMark a "*" then listSplat rules a .bracket
  else if ← atWord a "yield" then yield rules a .bracket
  else rules (.expression a .bracket true)

/-- Reads further elements, each behind a comma, and a comma at the end. -/
def moreElements (rules : Rules) : Parser (List Node) := do
  let rest ← many (do mark .closing ","; element rules .item)
  let _ ← option (mark .closing ",")
  return rest

/-! ### Targets -/

mutual

/-- The target that an expression can be read as, if any. -/
def target? : Node → Option Node
  | .mk kind role start stop children =>
    match kind with
    | .identifier => some (.mk kind role start stop children)
    | .member => some (.mk kind role start stop children)
    | .subscript => some (.mk kind role start stop children)
    | .listSplat =>
      if children.all fun c => [.identifier, .member, .subscript, .joint].contains c.kind
      then some (.mk .listSplatPattern role start stop children)
      else none
    | .tuple => (targets? children).map (.mk .tuplePattern role start stop)
    | .parenthesizedExpression => (targets? children).map (.mk .tuplePattern role start stop)
    | .list => (targets? children).map (.mk .listPattern role start stop)
    | .expressionList => (targets? children).map (.mk .patternList role start stop)
    | .joint => some (.mk kind role start stop children)
    | _ => none

/-- The targets that expressions can be read as. -/
def targets? : List Node → Option (List Node)
  | [] => some []
  | n :: ns =>
    match target? n, targets? ns with
    | some n, some ns => some (n :: ns)
    | _, _ => none

end

def asTarget (n : Node) : Parser Node :=
  match target? n with
  | some n => return n
  | none => refuse

end DeployManifest.Parser
