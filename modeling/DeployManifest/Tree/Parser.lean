import DeployManifest.Tree.Node
import DeployManifest.Tree.Token

/-! # Reading trees

A parser reads a part of a module from a position and leaves off at another, or refuses. A module is
either read whole or refused; where and why it is refused is not kept.
-/

namespace DeployManifest

/-- Reads from a position, or refuses. -/
abbrev Parser (α : Type) := StateT Cursor Option α

/-- What may follow an expression. -/
structure Follow where
  /-- Does the line end with it? -/
  newline : Bool
  /-- May a bracket be closed behind it? -/
  closer : Bool

namespace Follow

/-- An expression that a line may end with. -/
def line : Follow := ⟨true, false⟩

/-- An expression that a bracket may be closed behind. -/
def bracket : Follow := ⟨false, true⟩

/-- An expression that something else has to follow. -/
def inner : Follow := ⟨false, false⟩

def admits (f : Follow) : Admits := ⟨f.newline, false, false, f.closer, false, false⟩

end Follow

namespace Parser

variable {α β : Type}

def refuse : Parser α := fun _ => none

/-- Reads by the first parser, or by the second from the same position. -/
def or (first second : Parser α) : Parser α := fun c =>
  match first c with
  | some result => some result
  | none => second c

/-- Reads if possible. -/
def option (p : Parser α) : Parser (Option α) := fun c =>
  match p c with
  | some (a, c) => some (some a, c)
  | none => some (none, c)

/-- Reads as often as possible, at most `fuel` times. -/
def repeatWithin (p : Parser α) : Nat → Parser (List α)
  | 0 => fun c => some ([], c)
  | fuel + 1 => fun c =>
    match p c with
    | none => some ([], c)
    | some (a, c) =>
      match repeatWithin p fuel c with
      | some (as, c) => some (a :: as, c)
      | none => none

/-- Reads as often as possible. Each time takes up text, so the length of the rest bounds them. -/
def many (p : Parser α) : Parser (List α) := fun c => repeatWithin p (c.rest.length + 1) c

def oneOrMore (p : Parser α) : Parser (List α) := do
  let first ← p
  let rest ← many p
  return first :: rest

/-- What comes next, and where it starts. -/
def peek (a : Admits) : Parser (Lexeme × Cursor) := fun c => some (c.next a, c)

def moveTo (c : Cursor) : Parser Unit := fun _ => some ((), c)

/-- The number of bytes read. -/
def offset : Parser Nat := fun c => some (c.offset, c)

/-- The rest of the text at the next token, and where it starts, when no line structure and no
string comes first. -/
def token (a : Admits) : Parser Cursor := do
  match ← peek a with
  | (.token, here) => return here
  | _ => refuse

/-- Where the next token or string starts, when no line structure comes first. -/
def startOf (a : Admits) : Parser Nat := do
  match ← peek a with
  | (.token, here) => return here.offset
  | (.quotes _ start, _) => return start
  | _ => refuse

/-- Is the next token this mark, taken as long as possible? -/
def atMark (a : Admits) (mark : String) : Parser Bool := fun c =>
  match c.next a with
  | (.token, here) => some (Token.mark here.rest == mark, c)
  | _ => some (false, c)

def mark (a : Admits) (mark : String) : Parser Unit := do
  let here ← token a
  if Token.mark here.rest == mark then moveTo (here.advance mark.length) else refuse

/-- Reads one character, whatever mark it may start. -/
def character (a : Admits) (c : Char) : Parser Unit := do
  let here ← token a
  if here.rest.head? == some c then moveTo (here.advance 1) else refuse

/-- Reads one of several marks. -/
def oneOf (a : Admits) (marks : List String) : Parser String := do
  let here ← token a
  let found := Token.mark here.rest
  if marks.contains found then
    moveTo (here.advance found.length)
    return found
  else refuse

/-- The name that comes next, if one does, and the position behind it. -/
def name? (a : Admits) : Parser (Option (String × Cursor)) := fun c =>
  match c.next a with
  | (.token, here) =>
    match Token.nameLength here.rest with
    | 0 => some (none, c)
    | n => some (some (String.ofList (here.rest.take n), here.advance n), c)
  | _ => some (none, c)

def atWord (a : Admits) (word : String) : Parser Bool := do
  return (← name? a).any (·.1 == word)

def word (a : Admits) (word : String) : Parser Unit := do
  match ← name? a with
  | some (found, behind) => if found == word then moveTo behind else refuse
  | none => refuse

/-- Puts a node in its place among others. -/
def placed (n : Node) : List Node → List Node
  | [] => [n]
  | m :: ms => if n.start < m.start then n :: m :: ms else m :: placed n ms

/-- The joints of lines that have been passed since a start, outside of some nodes. -/
def jointsOutside (c : Cursor) (start : Nat) (nodes : List Node) : List Node :=
  let passed := c.joints.takeWhile fun joint => start < joint.1
  let outside := passed.filter fun joint =>
    nodes.all fun n => joint.2 ≤ n.start || n.stop ≤ joint.1
  outside.map fun joint => .mk .joint .plain joint.1 joint.2 []

/-- A node of a kind over what is read, from a given start up to here. -/
def finish (kind : NodeKind) (start : Nat) (children : List Node) : Parser Node := fun c =>
  some (.mk kind .plain start c.offset
    ((jointsOutside c start children).foldl (fun nodes n => placed n nodes) children), c)

/-- Reads any name as an identifier. -/
def identifier (a : Admits) : Parser Node := do
  let here ← token a
  match Token.nameLength here.rest with
  | 0 => refuse
  | n =>
    moveTo (here.advance n)
    finish .identifier here.offset []

/-- Reads the end of a statement's line. -/
def newline : Parser Unit := do
  match ← peek .line with
  | (.newline, here) => moveTo here
  | _ => refuse

def noWord (a : Admits) (words : List String) : Parser Unit := do
  if (← name? a).any fun (found, _) => words.contains found then refuse

end Parser

end DeployManifest
