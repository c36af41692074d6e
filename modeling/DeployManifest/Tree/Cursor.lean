import DeployManifest.Text.Identifier

/-! # Reading position

A cursor stands between two tokens of a module. Lines and indentation carry meaning, but only where
the grammar has a use for it: what a blank stretch means depends on what may follow. `Admits` says
what may follow, and `Cursor.next` tells what comes next under it.

Indentation is kept as a stack of widths; a tab counts eight. A line that is less indented than its
block ends the block, even where the grammar has no use for that, unless a line may end here, a
bracket may be closed, or the text is inside a formatted string.
-/

namespace DeployManifest

/-- What the grammar admits next. -/
structure Admits where
  /-- The end of a statement's line. -/
  newline : Bool
  /-- The start of an indented block. -/
  indent : Bool
  /-- The end of an indented block. -/
  dedent : Bool
  /-- A closing bracket. -/
  closer : Bool
  /-- A quoted string. -/
  string : Bool
  /-- A clause that handles exceptions. -/
  handler : Bool

namespace Admits

def nothing : Admits := ⟨false, false, false, false, false, false⟩

def operand : Admits := ⟨false, false, false, false, true, false⟩

/-- The first token of an expression, or a closing bracket. -/
def item : Admits := ⟨false, false, false, true, true, false⟩

def closing : Admits := ⟨false, false, false, true, false, false⟩

def operandOrLine : Admits := ⟨true, false, false, false, true, false⟩

def line : Admits := ⟨true, false, false, false, false, false⟩

/-- What stands after the colon of a compound statement. -/
def suite : Admits := ⟨true, true, false, false, true, false⟩

/-- The start of a statement, in an indented block or not. -/
def statement (inBlock : Bool) : Admits := ⟨false, false, inBlock, false, true, false⟩

/-- The clauses after the body of a protected block. -/
def handlers : Admits := ⟨false, false, false, false, false, true⟩

def handlersOrStatement (inBlock : Bool) : Admits := ⟨false, false, inBlock, false, true, true⟩

end Admits

/-- How a string is quoted. -/
structure Quotes where
  /-- Are substitutions between braces part of the string? -/
  format : Bool
  /-- Does a backslash stand for itself? -/
  raw : Bool
  bytes : Bool
  quote : Char
  triple : Bool

structure Cursor where
  /-- The text not yet read. -/
  rest : List Char
  /-- How many bytes have been read. -/
  offset : Nat
  /-- The widths of the open blocks, the innermost first. -/
  indents : List Nat
  /-- Has a formatted string been opened, and no string closed since? -/
  inFormat : Bool
  /-- The joints of lines that have been passed, the last one first: where each starts and ends. -/
  joints : List (Nat × Nat)

/-- What comes next. -/
inductive Lexeme where
  | newline
  | indent
  | dedent
  /-- A string that starts at an offset has been opened. -/
  | quotes (quotes : Quotes) (start : Nat)
  /-- Some other token, or the end of the module. -/
  | token

namespace Cursor

/-- The position at the start of a module. A byte order mark in front is passed over. -/
def ofText (cs : List Char) : Cursor :=
  match cs with
  | '\uFEFF' :: rest => ⟨rest, 3, [0], false, []⟩
  | cs => ⟨cs, 0, [0], false, []⟩

def byteCount (cs : List Char) : Nat := cs.foldl (fun n c => n + c.utf8Size) 0

/-- Reads a number of characters. -/
def advance (c : Cursor) (count : Nat) : Cursor :=
  { c with rest := c.rest.drop count, offset := c.offset + byteCount (c.rest.take count) }

/-- Reads the characters before the given rest. -/
def advanceTo (c : Cursor) (rest : List Char) : Cursor :=
  c.advance (c.rest.length - rest.length)

/-- What a stretch of white space amounts to. -/
structure Gap where
  /-- The indentation of the line where it ends. -/
  width : Nat
  /-- Does it hold the end of a line? -/
  endsLine : Bool
  /-- The indentation of the first comment in it. -/
  comment : Option Nat
  rest : List Char

/-- Measures the white space in front. Comments on lines of their own belong to it where line
structure is admitted; elsewhere, and after a token, a comment ends it. There is no gap at all
before a backslash that does not join two lines. -/
def measure (comments : Bool) (gap : Gap) : Bool → List Char → Option Gap
  | _, [] => some { gap with width := 0, endsLine := true, rest := [] }
  | true, c :: cs =>
    if c = '\n' then measure comments { gap with width := 0 } false cs
    else measure comments gap true cs
  | false, c :: cs =>
    if c = '\n' then measure comments { gap with width := 0, endsLine := true } false cs
    else if c = ' ' then measure comments { gap with width := gap.width + 1 } false cs
    else if c = '\r' ∨ c = '\x0c' then measure comments { gap with width := 0 } false cs
    else if c = '\t' then measure comments { gap with width := gap.width + 8 } false cs
    else if c = '#' ∧ comments then
      if gap.endsLine then
        measure comments { gap with comment := gap.comment.or (some gap.width) } true cs
      else none
    else if c = '\\' then
      match cs with
      | '\n' :: cs => measure comments gap false cs
      | '\r' :: '\n' :: cs => measure comments gap false cs
      | ['\r'] => some { gap with width := 0, endsLine := true, rest := [] }
      | [] => some { gap with width := 0, endsLine := true, rest := [] }
      | _ => none
    else some { gap with rest := c :: cs }

def isPrefixLetter (c : Char) : Bool :=
  c == 'f' || c == 'F' || c == 'r' || c == 'R' || c == 'b' || c == 'B' || c == 'u' || c == 'U'

/-- Opens a string: letters that say how it is read, and one or three quotes. -/
def openQuotes? (cs : List Char) : Option (Quotes × List Char) :=
  let letters := cs.takeWhile isPrefixLetter
  let has (small capital : Char) : Bool := letters.contains small || letters.contains capital
  let quotes (quote : Char) (triple : Bool) : Quotes :=
    ⟨has 'f' 'F', has 'r' 'R', has 'b' 'B', quote, triple⟩
  match cs.dropWhile isPrefixLetter with
  | '\'' :: '\'' :: '\'' :: rest => some (quotes '\'' true, rest)
  | '"' :: '"' :: '"' :: rest => some (quotes '"' true, rest)
  | '\'' :: rest => some (quotes '\'' false, rest)
  | '"' :: rest => some (quotes '"' false, rest)
  | c :: rest => if c.toNat = 96 then some (quotes c false, rest) else none
  | [] => none

/-- Does a quote, without letters, come first? -/
def startsQuoted (cs : List Char) : Bool :=
  cs.head?.any fun c => c == '"' || c == '\'' || c.toNat == 96

/-- The line structure or string that comes next, if one does. Marks of line structure take up no
text; a string is entered behind its opening quotes. -/
def layout? (a : Admits) (c : Cursor) : Option (Lexeme × Cursor) :=
  let comments := a.indent || a.dedent || a.newline || a.handler
  match measure comments ⟨0, false, none, []⟩ false c.rest with
  | none => none
  | some gap =>
    let current := c.indents.headD 0
    if gap.endsLine && a.indent && current < gap.width then
      some (.indent, { c with indents := gap.width :: c.indents })
    else if gap.endsLine
        && (a.dedent || (!a.newline && !(a.string && startsQuoted gap.rest) && !a.closer))
        && gap.width < current && !c.inFormat && gap.comment.all (· < current) then
      some (.dedent, { c with indents := c.indents.drop 1 })
    else if gap.endsLine && a.newline then some (.newline, c)
    else if gap.comment.isNone && a.string then
      (openQuotes? gap.rest).map fun (quotes, rest) =>
        (.quotes quotes (c.advanceTo gap.rest).offset,
          { c.advanceTo rest with inFormat := quotes.format })
    else none

def isSpace (c : Char) : Bool :=
  (0x09 ≤ c.toNat && c.toNat ≤ 0x0D) || c == ' ' || c.toNat == 0xFEFF || c.toNat == 0x2060
    || c.toNat == 0x200B

def skipSpace (c : Cursor) : Cursor := c.advance (c.rest.takeWhile isSpace).length

/-- Passes over a joint of lines: a backslash and the end of its line. -/
def skipJoint (c : Cursor) (length : Nat) : Cursor :=
  { c.advance length with joints := (c.offset, c.offset + length) :: c.joints }

/-- What comes next, and the position of its first character, or behind the opening quotes of a
string. Comments and joints of lines are passed over one by one, at most `fuel` of them. -/
def nextWithin (a : Admits) : Nat → Cursor → Lexeme × Cursor
  | 0, c => (.token, c)
  | fuel + 1, c =>
    match c.layout? a with
    | some found => found
    | none =>
      let here := c.skipSpace
      match here.rest with
      | '#' :: cs =>
        nextWithin a fuel (here.advance (1 + (cs.takeWhile (· != '\n')).length))
      | '\\' :: '\n' :: _ => nextWithin a fuel (here.skipJoint 2)
      | '\\' :: '\r' :: '\n' :: _ => nextWithin a fuel (here.skipJoint 3)
      | ['\\'] => nextWithin a fuel (here.skipJoint 1)
      | _ => (.token, here)

def next (a : Admits) (c : Cursor) : Lexeme × Cursor := nextWithin a (c.rest.length + 1) c

end Cursor

end DeployManifest
