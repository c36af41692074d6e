import DeployManifest.Expr.Constant

/-! # Settings files

A settings file is in TOML: a line for each key, an equals sign and a value. The values of settings
are texts and lists of texts, so other values are refused here. Texts are quoted in four ways, and
lists may go over several lines.
-/

namespace DeployManifest.Toml

inductive Value where
  | text (s : String)
  | texts (items : List String)

/-- Reads from the front of a text, or refuses. -/
abbrev Reader (α : Type) := List Char → Option (α × List Char)

def isSpace (c : Char) : Bool := c == ' ' || c == '\t'

/-- A character that neither ends a line nor controls a device. -/
def isPlain (c : Char) : Bool := c == '\t' || (0x20 ≤ c.toNat && c.toNat != 0x7F)

/-- Passes over white space inside a line. -/
def skipSpace (cs : List Char) : List Char := cs.dropWhile isSpace

def skipComment (cs : List Char) : List Char :=
  match cs with
  | '#' :: rest => rest.dropWhile isPlain
  | cs => cs

/-- The text behind the end of a line, if that comes first. -/
def lineEnd? (cs : List Char) : Option (List Char) :=
  match cs with
  | '\n' :: rest => some rest
  | '\r' :: '\n' :: rest => some rest
  | _ => none

/-- Passes over white space, comments and ends of lines, at most `fuel` of them. -/
def skipLinesWithin : Nat → List Char → List Char
  | 0, cs => cs
  | fuel + 1, cs =>
    let rest := skipComment (skipSpace cs)
    match lineEnd? rest with
    | some rest => skipLinesWithin fuel rest
    | none => rest

def skipLines (cs : List Char) : List Char := skipLinesWithin (cs.length + 1) cs

def letter? (c : Char) : Option Char :=
  match c with
  | 'b' => some '\x08'
  | 'e' => some '\x1b'
  | 'f' => some '\x0c'
  | 'n' => some '\n'
  | 'r' => some '\r'
  | 't' => some '\t'
  | '"' => some '"'
  | '\\' => some '\\'
  | _ => none

/-- The character that an escape stands for, behind its backslash. -/
def escape : Reader Char
  | [] => none
  | c :: rest =>
    match letter? c with
    | some d => some (d, rest)
    | none =>
      match Constant.codeWidth? c with
      | none => none
      | some width =>
        let ds := rest.take width
        if ds.length = width then
          ((Numeral.value? 16 ds).bind Constant.scalar?).map fun d => (d, rest.drop width)
        else none

/-- The text behind a joint of lines, after its backslash: the end of the line and all white space
around it. -/
def joint? (cs : List Char) : Option (List Char) :=
  (lineEnd? (skipSpace cs)).map fun rest => rest.dropWhile fun c => isSpace c || c == '\n' || c == '\r'

/-- The rest behind the quotes that close a text over several lines, and the quotes that belong to
the text: up to two may stand in front of the closing ones. -/
def closing? (quote : Char) (cs : List Char) : Option (List Char × List Char) :=
  let quotes := min 5 (cs.takeWhile (· == quote)).length
  if 3 ≤ quotes then some (List.replicate (quotes - 3) quote, cs.drop quotes) else none

/-- Reads the rest of a text between double quotes, in at most `fuel` steps. -/
def escapedWithin (multiline : Bool) : Nat → Reader (List Char)
  | 0, _ => none
  | fuel + 1, cs =>
    let further (piece rest : List Char) : Option (List Char × List Char) :=
      (escapedWithin multiline fuel rest).map fun (s, rest) => (piece ++ s, rest)
    match cs with
    | [] => none
    | '"' :: rest =>
      if multiline then
        match closing? '"' cs with
        | some found => some found
        | none => further ['"'] rest
      else some ([], rest)
    | '\\' :: rest =>
      match if multiline then joint? rest else none with
      | some rest => further [] rest
      | none => (escape rest).bind fun (c, rest) => further [c] rest
    | c :: rest =>
      if isPlain c then further [c] rest
      else if multiline then (lineEnd? cs).bind fun rest => further ['\n'] rest
      else none

def literalWithin (multiline : Bool) : Nat → Reader (List Char)
  | 0, _ => none
  | fuel + 1, cs =>
    let further (piece rest : List Char) : Option (List Char × List Char) :=
      (literalWithin multiline fuel rest).map fun (s, rest) => (piece ++ s, rest)
    match cs with
    | [] => none
    | '\'' :: rest =>
      if multiline then
        match closing? '\'' cs with
        | some found => some found
        | none => further ['\''] rest
      else some ([], rest)
    | c :: rest =>
      if isPlain c then further [c] rest
      else if multiline then (lineEnd? cs).bind fun rest => further ['\n'] rest
      else none

/-- The text without the end of a line at its front. -/
def dropLineEnd (cs : List Char) : List Char := (lineEnd? cs).getD cs

def lineText : Reader (List Char)
  | '"' :: rest => escapedWithin false (rest.length + 1) rest
  | '\'' :: rest => literalWithin false (rest.length + 1) rest
  | _ => none

def text : Reader (List Char)
  | '"' :: '"' :: '"' :: rest => escapedWithin true (rest.length + 1) (dropLineEnd rest)
  | '\'' :: '\'' :: '\'' :: rest => literalWithin true (rest.length + 1) (dropLineEnd rest)
  | cs => lineText cs

/-- Reads the items of a list and its closing bracket, in at most `fuel` steps. -/
def itemsWithin : Nat → Reader (List String)
  | 0, _ => none
  | fuel + 1, cs =>
    match skipLines cs with
    | ']' :: rest => some ([], rest)
    | cs =>
      (text cs).bind fun (s, rest) =>
        match skipLines rest with
        | ']' :: rest => some ([String.ofList s], rest)
        | ',' :: rest =>
          (itemsWithin fuel rest).map fun (items, rest) => (String.ofList s :: items, rest)
        | _ => none

def value : Reader Value
  | '[' :: rest => (itemsWithin (rest.length + 1) rest).map fun (items, rest) => (.texts items, rest)
  | cs => (text cs).map fun (s, rest) => (.text (String.ofList s), rest)

def isKeyChar (c : Char) : Bool := c.isAlphanum || c == '_' || c == '-'

def key (cs : List Char) : Option (List Char × List Char) :=
  match cs.takeWhile isKeyChar with
  | [] => lineText cs
  | name => some (name, cs.dropWhile isKeyChar)

/-- Reads a key with its value, up to the end of the line. -/
def entry (cs : List Char) : Option ((String × Value) × List Char) :=
  (key cs).bind fun (name, rest) =>
    match skipSpace rest with
    | '=' :: rest =>
      (value (skipSpace rest)).bind fun (v, rest) =>
        match skipComment (skipSpace rest) with
        | [] => some ((String.ofList name, v), [])
        | rest => (lineEnd? rest).map fun rest => ((String.ofList name, v), rest)
    | _ => none

def entriesWithin : Nat → List Char → Option (List (String × Value))
  | 0, _ => none
  | fuel + 1, cs =>
    match skipLines cs with
    | [] => some []
    | cs => (entry cs).bind fun (found, rest) => (entriesWithin fuel rest).map (found :: ·)

/-- The entries of a file. A byte order mark in front is passed over. -/
def entries? (cs : List Char) : Option (List (String × Value)) :=
  let cs :=
    match cs with
    | '\uFEFF' :: rest => rest
    | cs => cs
  entriesWithin (cs.length + 1) cs

end DeployManifest.Toml
