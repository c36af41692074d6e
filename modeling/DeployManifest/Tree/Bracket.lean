import DeployManifest.Tree.Sequence

/-! # Bracketed expressions

Lists, tuples, sets, dictionaries and the comprehensions of each. Line breaks mean nothing between
brackets.
-/

namespace DeployManifest.Parser

/-! ### Comprehensions -/

def atComprehension : Parser Bool := do
  if ← atWord .closing "for" then return true
  else
    match ← name? .closing with
    | some ("async", behind) =>
      match behind.next .nothing with
      | (.token, here) => return here.rest.take (Token.nameLength here.rest) == "for".toList
      | _ => return false
    | _ => return false

def loopTargets (rules : Rules) : Parser Node := do
  let head ← rules (.unary .operand .inner)
  let rest ← many (do mark .nothing ","; noWord .operand ["in"]; rules (.unary .operand .inner))
  let comma ← option (mark .nothing ",")
  if rest.isEmpty && comma.isNone then asTarget head
  else do asTarget (← spanning .expressionList (head :: rest))

def forInClause (rules : Rules) : Parser Node := do
  let start ← startOf .closing
  let _ ← option (word .closing "async")
  word .closing "for"
  let left ← loopTargets rules
  word .nothing "in"
  let first ← rules (.expression .operand .bracket false)
  let rest ← many (do
    mark .closing ","
    noWord .item ["if"]
    if ← atComprehension then refuse
    rules (.expression .item .bracket false))
  let _ ← option (mark .closing ",")
  finish .forInClause start (left.withRole .left :: (first :: rest).map (·.withRole .right))

def ifClause (rules : Rules) (first : Admits) (follow : Follow) (conditional : Bool) :
    Parser Node := do
  let start ← startOf first
  word first "if"
  let condition ← rules (.expression .operand follow conditional)
  finish .ifClause start [condition]

/-- Reads the loops and conditions of a comprehension. -/
def comprehension (rules : Rules) : Parser (List Node) := do
  let first ← forInClause rules
  let rest ← many (or (forInClause rules) (ifClause rules .closing .bracket false))
  return first :: rest

/-! ### Bracketed expressions -/

/-- Reads what follows an opening parenthesis that is no call. -/
def parenthesized (rules : Rules) (start : Nat) : Parser Node := do
  if (← option (character .item ')')).isSome then finish .tuple start []
  else
    let first ← element rules .item
    if ← atComprehension then
      let clauses ← comprehension rules
      character .closing ')'
      finish .generatorExpression start (first :: clauses)
    else if ← atMark .closing "," then
      let rest ← moreElements rules
      character .closing ')'
      finish .tuple start (first :: rest)
    else
      character .closing ')'
      finish .parenthesizedExpression start [first]

def list (rules : Rules) (start : Nat) : Parser Node := do
  if (← option (character .item ']')).isSome then finish .list start []
  else
    let first ← element rules .item
    if ← atComprehension then
      let clauses ← comprehension rules
      character .closing ']'
      finish .listComprehension start (first :: clauses)
    else
      let rest ← moreElements rules
      character .closing ']'
      finish .list start (first :: rest)

/-- The starred expression that stands alone in parentheses as a value is a tuple. -/
def asValue (n : Node) : Node :=
  match n.kind, n.children with
  | .parenthesizedExpression, [inner] =>
    if inner.kind = .listSplat then n.withKind .tuple else n
  | _, _ => n

/-- Reads the value of a dictionary entry whose key has been read. -/
def pairValue (rules : Rules) (key : Node) : Parser Node := do
  mark .closing ":"
  let value ← rules (.expression .operand .bracket true)
  spanning .pair [key.withRole .key, (asValue value).withRole .value]

/-- Reads an entry of a dictionary. -/
def entry (rules : Rules) (a : Admits) : Parser Node := do
  if ← atMark a "**" then dictionarySplat rules a .bracket
  else
    let key ← rules (.expression a .inner true)
    pairValue rules key

/-- Reads the further entries of a dictionary up to its closing brace. -/
def moreEntries (rules : Rules) (start : Nat) (first : List Node) : Parser Node := do
  let rest ← many (do mark .closing ","; entry rules .item)
  let _ ← option (mark .closing ",")
  character .closing '\x7d'
  finish .dictionary start (first ++ rest)

def braced (rules : Rules) (start : Nat) : Parser Node := do
  if (← option (character .item '\x7d')).isSome then finish .dictionary start []
  else if ← atMark .item "," then moreEntries rules start []
  else if ← atMark .item "**" then
    let first ← dictionarySplat rules .item .bracket
    moreEntries rules start [first]
  else
    let first ← element rules .item
    if ← atMark .closing ":" then
      let pair ← pairValue rules first
      if ← atComprehension then
        let clauses ← comprehension rules
        character .closing '\x7d'
        finish .dictionaryComprehension start (pair :: clauses)
      else moreEntries rules start [pair]
    else if ← atComprehension then
      let clauses ← comprehension rules
      character .closing '\x7d'
      finish .setComprehension start (first :: clauses)
    else
      let rest ← moreElements rules
      character .closing '\x7d'
      finish .set start (first :: rest)

end DeployManifest.Parser
