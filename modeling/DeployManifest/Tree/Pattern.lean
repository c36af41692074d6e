import DeployManifest.Tree.Line

/-! # Case patterns

The patterns of a case: names, literals, rows, mappings, calls, and alternatives of these.
-/

namespace DeployManifest.Parser

/-- Reads items with commas between them, a comma at the end, and the closing bracket. -/
def itemsUpTo (closer : Char) (item : Admits → Parser Node) : Parser (List Node) := do
  match ← option (item .item) with
  | none =>
    character .item closer
    return []
  | some first =>
    let rest ← many (do mark .closing ","; item .item)
    let _ ← option (mark .closing ",")
    character .closing closer
    return first :: rest

/-- Reads a pattern that stands for the rest of a sequence or mapping. -/
def splatPattern (a : Admits) : Parser Node := do
  let start ← startOf a
  let _ ← oneOf a ["*", "**"]
  finish .casePattern start [← identifier .nothing]

def patternNumber (a : Admits) (follow : Follow) : Parser Node := do
  let start ← startOf a
  let sign ← option (mark a "-")
  let first ← number (if sign.isSome then .nothing else a)
  let second ← option (do let _ ← oneOf follow.admits ["+", "-"]; number .nothing)
  finish .casePattern start (first :: second.toList)

def patternName (rules : Rules) (a : Admits) (follow : Follow) : Parser Node := do
  match ← name? a with
  | some ("_", _) => identifier a
  | _ =>
    let name ← dottedName a follow
    if ← atMark follow.admits "(" then
      mark follow.admits "("
      let args ← itemsUpTo ')' fun a => rules (.casePattern a .bracket)
      spanning .casePattern (name :: args)
    else return name

def patternEntry (rules : Rules) (a : Admits) : Parser Node := do
  match ← option (splatPattern a) with
  | some n => return n
  | none =>
    let key ← rules (.patternChoice a .inner)
    mark .nothing ":"
    spanning .casePattern [key, ← rules (.casePattern .operand .bracket)]

/-- Reads a pattern without alternatives. -/
def simplePattern (rules : Rules) (a : Admits) (follow : Follow) : Parser Node := do
  match ← peek a with
  | (.quotes _ _, _) => strings rules a follow
  | (.token, here) =>
    let bracketed (closer : Char) (item : Admits → Parser Node) : Parser Node := do
      moveTo (here.advance 1)
      finish .casePattern here.offset (← itemsUpTo closer item)
    match Token.mark here.rest with
    | "[" => bracketed ']' fun a => rules (.casePattern a .bracket)
    | "(" => bracketed ')' fun a => rules (.casePattern a .bracket)
    | "\x7b" => bracketed '\x7d' (patternEntry rules)
    | "*" => splatPattern a
    | "**" => splatPattern a
    | _ =>
      match Token.nameLength here.rest with
      | 0 => patternNumber a follow
      | length =>
        let kind := wordKind (String.ofList (here.rest.take length))
        if kind = .identifier then patternName rules a follow
        else do
          moveTo (here.advance length)
          finish kind here.offset []
  | _ => refuse

def patternChoice (rules : Rules) (first : Admits) (follow : Follow) : Parser Node := do
  let head ← simplePattern rules first follow
  let rest ← many (do mark follow.admits "|"; simplePattern rules .operand follow)
  if rest.isEmpty then return head else spanning .casePattern (head :: rest)

def casePattern (rules : Rules) (first : Admits) (follow : Follow) : Parser Node := do
  let base ←
    match ← keyword? first with
    | some name => do
      let value ← patternChoice rules .operand follow
      spanning .casePattern [name, value]
    | none => patternChoice rules first follow
  let aliases ← many (do word follow.admits "as"; identifier .nothing)
  if aliases.isEmpty then return base else spanning .casePattern (base :: aliases)

end DeployManifest.Parser
