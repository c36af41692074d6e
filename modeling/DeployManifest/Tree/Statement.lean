import DeployManifest.Tree.Pattern

/-! # Statements

Compound statements hold blocks. In a suite on the line of its colon, the words that start compound
statements are names.
-/

namespace DeployManifest.Parser

/-- Reads statements up to the end of their block. -/
def block (rules : Rules) (start : Nat) : Parser Node := do
  let statements ← oneOrMore (rules (.statement true))
  match ← peek (.statement true) with
  | (.dedent, behind) =>
    moveTo behind
    finish .block start statements
  | _ => refuse

/-- Reads the body of a compound statement: an indented block, or a line. -/
def suite (rules : Rules) : Parser Node := do
  match ← peek .suite with
  | (.indent, behind) =>
    moveTo behind
    block rules (← offset)
  | (.newline, _) => refuse
  | _ => simpleLine rules .suite

def body (rules : Rules) : Parser Node := do
  mark .nothing ":"
  rules .suite

/-- Reads a clause that is a word and a body. -/
def clause (rules : Rules) (kind : NodeKind) (a : Admits) (keyword : String) : Parser Node := do
  let start ← startOf a
  word a keyword
  finish kind start [← body rules]

/-- Reads a condition and the body that it guards. -/
def guarded (rules : Rules) : Parser (List Node) := do
  let condition ← rules (.expression .operand .inner true)
  return [condition, ← body rules]

/-- Reads a clause for another condition. -/
def elifClause (rules : Rules) (a : Admits) : Parser Node := do
  let start ← startOf a
  word a "elif"
  finish .elifClause start (← guarded rules)

def elseClause? (rules : Rules) (a : Admits) : Parser (List Node) := do
  if ← atWord a "else" then return [← clause rules .elseClause a "else"] else return []

/-- Reads a conditional statement behind its first word. -/
def ifStatement (rules : Rules) (after : Admits) (start : Nat) : Parser Node := do
  let first ← guarded rules
  let others ← many (elifClause rules after)
  noWord after ["elif"]
  let otherwise ← elseClause? rules after
  finish .ifStatement start (first ++ others ++ otherwise)

def whileStatement (rules : Rules) (after : Admits) (start : Nat) : Parser Node := do
  let first ← guarded rules
  let otherwise ← elseClause? rules after
  finish .whileStatement start (first ++ otherwise)

def forStatement (rules : Rules) (after : Admits) (start : Nat) : Parser Node := do
  let left ← loopTargets rules
  word .nothing "in"
  let right ← expressions rules .operand .inner
  let content ← body rules
  let otherwise ← elseClause? rules after
  finish .forStatement start
    ([left.withRole .left, right.withRole .right, content] ++ otherwise)

def exceptClause (rules : Rules) (a : Admits) : Parser Node := do
  let start ← startOf a
  word a "except"
  let caught ←
    if ← atMark .operand ":" then pure []
    else do
      let first ← rules (.expression .operand .inner true)
      if ← atMark .nothing "," then
        mark .nothing ","
        pure [first, ← rules (.expression .operand .inner true)]
      else pure [first]
  let content ← body rules
  finish .exceptClause start (caught ++ [content])

def atExceptGroup (a : Admits) : Parser Bool := do
  match ← peek a with
  | (.token, here) => return "except*".toList.isPrefixOf here.rest
  | _ => return false

def exceptGroupClause (rules : Rules) (a : Admits) : Parser Node := do
  let here ← token a
  if "except*".toList.isPrefixOf here.rest then
    moveTo (here.advance 7)
    finish .exceptGroupClause here.offset (← guarded rules)
  else refuse

/-- Reads the clause that is always carried out, if there is one. -/
def finallyClause? (rules : Rules) (a : Admits) : Parser (List Node) := do
  if ← atWord a "finally" then return [← clause rules .finallyClause a "finally"] else return []

/-- Reads a protected block and its handlers behind its first word. -/
def tryStatement (rules : Rules) (inBlock : Bool) (start : Nat) : Parser Node := do
  let content ← body rules
  if ← atExceptGroup .handlers then
    let first ← exceptGroupClause rules .handlers
    let rest ← many (exceptGroupClause rules (.statement inBlock))
    let otherwise ← elseClause? rules (.statement inBlock)
    let last ← finallyClause? rules (.statement inBlock)
    finish .tryStatement start (content :: first :: rest ++ otherwise ++ last)
  else if ← atWord .handlers "except" then
    let first ← exceptClause rules .handlers
    let rest ← many (exceptClause rules (.handlersOrStatement inBlock))
    noWord (.handlersOrStatement inBlock) ["except"]
    let otherwise ← elseClause? rules (.handlersOrStatement inBlock)
    let last ← finallyClause? rules (.statement inBlock)
    finish .tryStatement start (content :: first :: rest ++ otherwise ++ last)
  else
    let last ← clause rules .finallyClause .handlers "finally"
    finish .tryStatement start [content, last]

/-- Reads a statement that holds resources, behind its first word. -/
def withStatement (rules : Rules) (start : Nat) : Parser Node := do
  let first ← rules (.expression .operand .inner true)
  let rest ← many (do mark .nothing ","; rules (.expression .operand .inner true))
  let _ ← option (mark .nothing ",")
  let content ← body rules
  finish .withStatement start (first :: rest ++ [content])

def functionDefinition (rules : Rules) (start : Nat) : Parser Node := do
  let name ← identifier .nothing
  let types ← if ← atMark .nothing "[" then pure [← typeParameters rules .nothing] else pure []
  let params ← parameters rules
  let result ←
    if ← atMark .nothing "->" then do
      mark .nothing "->"
      pure [← rules (.typeNode .operand .inner false)]
    else pure []
  let content ← body rules
  finish .functionDefinition start
    (name.withRole .name :: types ++ params :: result ++ [content])

def classDefinition (rules : Rules) (start : Nat) : Parser Node := do
  let name ← identifier .nothing
  let types ← if ← atMark .nothing "[" then pure [← typeParameters rules .nothing] else pure []
  let args ← if ← atMark .nothing "(" then pure [← argumentsAt rules .nothing] else pure []
  let content ← body rules
  finish .classDefinition start (name.withRole .name :: types ++ args ++ [content])

def caseClause (rules : Rules) : Parser Node := do
  let start ← startOf (.statement true)
  word (.statement true) "case"
  let first ← rules (.casePattern .operand .inner)
  let rest ← many (do
    mark .nothing ","
    noWord .operand ["if"]
    rules (.casePattern .operand .inner))
  let _ ← option (mark .nothing ",")
  let guard ←
    if ← atWord .nothing "if" then pure [← ifClause rules .nothing .inner true] else pure []
  let content ← body rules
  finish .caseClause start (first :: rest ++ guard ++ [content])

/-- Reads a choice by pattern behind the word `match`. -/
def matchStatement (rules : Rules) (start : Nat) : Parser Node := do
  let first ← rules (.expression .operand .inner true)
  let rest ← many (do mark .nothing ","; rules (.expression .operand .inner true))
  let _ ← option (mark .nothing ",")
  mark .nothing ":"
  match ← peek { Admits.line with indent := true } with
  | (.indent, behind) =>
    moveTo behind
    let cases ← oneOrMore (caseClause rules)
    match ← peek (.statement true) with
    | (.dedent, behind) =>
      moveTo behind
      finish .matchStatement start (first :: rest ++ cases)
    | _ => refuse
  | _ => refuse

/-- Reads a function or class with the words in front of it. -/
def definition (rules : Rules) (a : Admits) : Parser Node := do
  let start ← startOf a
  match ← name? a with
  | some ("def", behind) =>
    moveTo behind
    functionDefinition rules start
  | some ("class", behind) =>
    moveTo behind
    classDefinition rules start
  | some ("async", behind) =>
    moveTo behind
    word .nothing "def"
    functionDefinition rules start
  | _ => refuse

def decorator (rules : Rules) (a : Admits) : Parser Node := do
  let start ← startOf a
  character a '@'
  let value ← rules (.expression .operand .line true)
  let n ← finish .decorator start [value]
  newline
  return n

def decoratedDefinition (rules : Rules) (a : Admits) : Parser Node := do
  let first ← decorator rules a
  let rest ← many (decorator rules .nothing)
  let inner ← definition rules .nothing
  spanning .decoratedDefinition (first :: rest ++ [inner.withRole .definition])

/-- Reads the rest of a compound statement behind the keyword that it starts with, if it starts
with one. -/
def compound? (rules : Rules) (inBlock : Bool) (start : Nat) (word : String) :
    Option (Parser Node) :=
  match word with
  | "if" => some (ifStatement rules (.statement inBlock) start)
  | "while" => some (whileStatement rules (.statement inBlock) start)
  | "for" => some (forStatement rules (.statement inBlock) start)
  | "try" => some (tryStatement rules inBlock start)
  | "with" => some (withStatement rules start)
  | "def" => some (functionDefinition rules start)
  | "class" => some (classDefinition rules start)
  | _ => none

def asyncStatement (rules : Rules) (inBlock : Bool) (start : Nat) : Parser Node := do
  match ← name? .nothing with
  | some (word, behind) =>
    if ["def", "for", "with"].contains word then
      match compound? rules inBlock start word with
      | some p => do
        moveTo behind
        p
      | none => refuse
    else refuse
  | none => refuse

def statement (rules : Rules) (inBlock : Bool) : Parser Node := do
  let first : Admits := .statement inBlock
  if ← atMark first "@" then decoratedDefinition rules first
  else
    match ← name? first with
    | none => simpleLine rules first
    | some (word, behind) =>
      let start ← startOf first
      let after (p : Parser Node) : Parser Node := do
        moveTo behind
        p
      match compound? rules inBlock start word with
      | some p => after p
      | none =>
        match word with
        | "match" => or (after (matchStatement rules start)) (simpleLine rules first)
        | "async" => or (after (asyncStatement rules inBlock start)) (simpleLine rules first)
        | _ => simpleLine rules first

end DeployManifest.Parser
