import DeployManifest.Tree.Sequence

/-! # Names, numbers and strings

A string runs from its opening quotes to the same quotes; an escape or a substitution in braces may
hold a quote of its own. A word is a keyword only where the grammar has a use for it; anywhere else
it is a name.
-/

namespace DeployManifest.Parser

/-! ### Names, numbers and strings -/

/-- Words that are never names at the start of an expression. -/
def expressionWords : List String := ["not", "lambda", "True", "False", "None"]

/-- The kind of the node for a word. -/
def wordKind (word : String) : NodeKind :=
  if word = "True" then .true else if word = "False" then .false
  else if word = "None" then .none else .identifier

inductive ContentEnd where
  | closed
  | substitution
  | broken

/-- The number of characters that belong to an escape, after its backslash. -/
def escapeLength (cs : List Char) : Nat :=
  let hex (n : Nat) : Nat :=
    let ds := (cs.drop 1).take n
    if ds.length = n ∧ ds.all Token.isHexDigit then 1 + n else 0
  match cs with
  | [] => 0
  | c :: rest =>
    if c = 'u' then hex 4
    else if c = 'U' then hex 8
    else if c = 'x' then hex 2
    else if c.isDigit then
      if (cs.take 3).length = 3 ∧ (cs.take 3).all Char.isDigit then 3 else 0
    else if c = '\n' then 1
    else if c = '\r' then (if rest.head? = some '\n' then 2 else 0)
    else if ['\'', '"', 'a', 'b', 'f', 'r', 'n', 't', 'v', '\\'].contains c then 1
    else if c = 'N' then
      match rest with
      | '\x7b' :: inside =>
        let name := inside.takeWhile (· != '\x7d')
        if name.isEmpty ∨ name.length = inside.length then 0 else 3 + name.length
      | _ => 0
    else 0

/-- The number of characters that a backslash keeps from ending a raw string. -/
def rawEscapeLength (quote : Char) (cs : List Char) : Nat :=
  let kept :=
    match cs with
    | c :: _ => if c = quote ∨ c = '\\' then 1 else 0
    | [] => 0
  match cs.drop kept with
  | '\r' :: '\n' :: _ => kept + 2
  | '\r' :: _ => kept + 1
  | '\n' :: _ => kept + 1
  | _ => kept

/-- Reads the content of a string up to its end or the next substitution. `skip` characters are
passed over first. A string on one line may hold a line feed only at the start of a piece, that is,
behind its quotes, an escape or a substitution; `inPiece` says that a piece has begun. No string
holds a null character. -/
def content (q : Quotes) : Nat → Bool → List Char → ContentEnd × List Char
  | _, _, [] => (.broken, [])
  | skip + 1, inPiece, _ :: cs => content q skip inPiece cs
  | 0, inPiece, c :: cs =>
    if c = '\x00' then (.broken, c :: cs)
    else if q.format ∧ c = '\x7b' then
      if cs.head? = some '\x7b' then content q 1 false cs else (.substitution, c :: cs)
    else if q.format ∧ c = '\x7d' then
      if cs.head? = some '\x7d' then content q 1 false cs else (.broken, c :: cs)
    else if c = '\\' then
      if q.raw then content q (rawEscapeLength q.quote cs) inPiece cs
      else if q.bytes ∧ (cs.head?.any fun d => d == 'N' || d == 'u' || d == 'U') then
        content q 2 true cs
      else content q (escapeLength cs) false cs
    else if c = q.quote then
      if q.triple then
        if [q.quote, q.quote].isPrefixOf cs then (.closed, cs.drop 2)
        else if cs.head? = some q.quote then content q 1 false cs
        else content q 0 false cs
      else (.closed, cs)
    else if c = '\n' ∧ inPiece ∧ !q.triple then (.broken, c :: cs)
    else content q 0 true cs

def substitution (rules : Rules) (q : Quotes) : Parser Node := fun c =>
  match content q 0 false c.rest with
  | (.substitution, rest) => rules .interpolation (c.advanceTo rest)
  | _ => none

/-- Reads the content of a string that starts at an offset, and its closing quotes. -/
def quoted (rules : Rules) (q : Quotes) (start : Nat) : Parser Node := do
  let parts ← many (substitution rules q)
  let here ← get
  match content q 0 false here.rest with
  | (.closed, rest) =>
    moveTo { here.advanceTo rest with inFormat := false }
    finish .string start parts
  | _ => refuse

def string (rules : Rules) (a : Admits) : Parser Node := do
  match ← peek a with
  | (.quotes q start, behind) =>
    moveTo behind
    quoted rules q start
  | _ => refuse

/-- Reads one or more strings in a row. -/
def strings (rules : Rules) (a : Admits) (follow : Follow) : Parser Node := do
  let first ← string rules a
  match ← many (string rules { follow.admits with string := true }) with
  | [] => return first
  | rest => spanning .concatenatedString (first :: rest)

def number (a : Admits) : Parser Node := do
  let here ← token a
  let float := Token.floatLength here.rest
  let integer := Token.integerLength here.rest
  if integer < float then
    moveTo (here.advance float)
    finish .float here.offset []
  else if 0 < integer then
    moveTo (here.advance integer)
    finish .integer here.offset []
  else refuse

/-! ### Substitutions in strings -/

/-- Reads how a substituted value is laid out, up to the closing brace. -/
def formatPieces (rules : Rules) : Parser (List Node) := many do
  let here := (← get).skipSpace
  match here.rest with
  | '\x7b' :: _ =>
    moveTo here
    rules .interpolation
  | c :: _ =>
    if c = '\x7d' then refuse
    else
      let piece := here.rest.takeWhile fun c => c != '\x7b' && c != '\x7d' && c != '\n'
      moveTo (here.advance piece.length)
      finish .interpolation here.offset []
  | [] => refuse

def conversion : Parser Unit := do
  let here ← token .closing
  match here.rest with
  | '!' :: c :: _ => if c.isLower then moveTo (here.advance 2) else refuse
  | _ => refuse

def interpolation (rules : Rules) : Parser Node := do
  let here ← get
  moveTo (here.advance 1)
  let value ←
    if ← atWord .operand "yield" then yield rules .operand .bracket
    else expressions rules .operand .bracket
  let _ ← option (mark .closing "=")
  let _ ← option conversion
  let pieces ←
    if (← option (character .closing ':')).isSome then formatPieces rules else pure []
  character .closing '\x7d'
  finish .interpolation here.offset (value :: pieces)

end DeployManifest.Parser
