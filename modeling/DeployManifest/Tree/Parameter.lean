import DeployManifest.Tree.Expression

/-! # Types and parameters

What a function takes: names with types and default values, starred names, and the two marks that
say which parameters are given by place and which by name.
-/

namespace DeployManifest.Parser

/-- Reads types in square brackets. -/
def typeParameters (rules : Rules) (a : Admits) : Parser Node := do
  let start ← startOf a
  character a '['
  let first ← rules (.typeNode .operand .bracket true)
  let rest ← many (do mark .closing ","; rules (.typeNode .item .bracket true))
  let _ ← option (mark .closing ",")
  character .closing ']'
  finish .typeParameter start (first :: rest)

/-- Is a name with an opening square bracket behind it next? -/
def atGeneric (first : Admits) (follow : Follow) : Parser Bool := do
  match ← name? first with
  | some (name, behind) =>
    if expressionWords.contains name then return false
    else
      match behind.next follow.admits with
      | (.token, here) => return here.rest.head? == some '['
      | _ => return false
  | none => return false

/-- Reads a type without alternatives, members and bounds. -/
def simpleType (rules : Rules) (first : Admits) (follow : Follow) : Parser (List Node) := do
  if ← atGeneric first follow then
    let name ← identifier first
    let args ← typeParameters rules follow.admits
    return [name, args]
  else if ← atMark first "**" then
    mark first "**"
    return [← identifier .nothing]
  else return [← rules (.expression first follow true)]

def typeNode (rules : Rules) (first : Admits) (follow : Follow) (constrained : Bool) :
    Parser Node := do
  let start ← startOf first
  let base ← simpleType rules first follow
  let rest ← many (or
    (do mark follow.admits "|"; rules (.typeNode .operand follow constrained))
    (do mark follow.admits "."; identifier .nothing))
  let bound ←
    if constrained then option (do
      mark follow.admits ":"
      rules (.typeNode .operand follow true))
    else pure none
  finish .typeNode start (base ++ rest ++ bound.toList)

/-- Reads what a star of a parameter covers. -/
def starOperand (rules : Rules) (follow : Follow) : Parser Node := do
  let n ← primary rules .operand follow
  if isStarrable n then return n else refuse

/-- Reads the name of a parameter, with its star, and says whether it may have a type. -/
def parameterName (rules : Rules) (a : Admits) (follow : Follow) : Parser (Node × Bool) := do
  let start ← startOf a
  if ← atMark a "**" then
    mark a "**"
    let operand ← starOperand rules follow
    return (← finish .dictionarySplatPattern start [operand], true)
  else if ← atMark a "*" then
    mark a "*"
    match ← option (starOperand rules follow) with
    | some operand => return (← finish .listSplatPattern start [operand], true)
    | none => return (← finish .keywordSeparator start [], false)
  else if ← atMark a "/" then
    mark a "/"
    return (← finish .positionalSeparator start [], false)
  else if ← atMark a "(" then
    let n ← atom rules a follow
    return (← asTarget n, false)
  else
    return (← identifier a, true)

def takesDefault (n : Node) : Bool := n.kind = .identifier || n.kind = .tuplePattern

def defaultValue (rules : Rules) (follow : Follow) : Parser Node := do
  mark follow.admits "="
  rules (.expression .operand follow true)

def parameter (rules : Rules) (a : Admits) : Parser Node := do
  let (name, typed) ← parameterName rules a .bracket
  if typed && (← atMark .closing ":") then
    mark .closing ":"
    let annotation ← rules (.typeNode .operand .bracket true)
    if name.kind = .identifier then
      match ← option (defaultValue rules .bracket) with
      | some value =>
        spanning .typedDefaultParameter
          [name.withRole .name, annotation, value.withRole .value]
      | none => spanning .typedParameter [name, annotation]
    else spanning .typedParameter [name, annotation]
  else if takesDefault name then
    match ← option (defaultValue rules .bracket) with
    | some value => spanning .defaultParameter [name.withRole .name, value.withRole .value]
    | none => return name
  else return name

/-- Reads a parameter of a lambda, which has no type. -/
def lambdaParameter (rules : Rules) : Parser Node := do
  let (name, _) ← parameterName rules .nothing .inner
  if takesDefault name then
    match ← option (defaultValue rules .inner) with
    | some value => spanning .defaultParameter [name.withRole .name, value.withRole .value]
    | none => return name
  else return name

def parameters (rules : Rules) : Parser Node := do
  let start ← startOf .nothing
  character .nothing '('
  let first ← option (parameter rules .closing)
  let rest ←
    if first.isSome then do
      let rest ← many (do mark .closing ","; parameter rules .closing)
      let _ ← option (mark .closing ",")
      pure rest
    else pure []
  character .closing ')'
  finish .parameters start (first.toList ++ rest)

end DeployManifest.Parser
