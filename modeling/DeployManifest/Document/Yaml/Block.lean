import DeployManifest.Document.Yaml.Scalar

/-! # Documents as YAML

Lists and records are written as blocks, one item or field a line; a list inside a record stands
under its key without further indentation. An empty list is a pair of square brackets and an empty
record a pair of curly ones. The text is built back to front, so that a new line starts only where
the last one has not ended already.
-/

namespace DeployManifest.Yaml

/-- Text written so far, its last character first. -/
abbrev Written := List Char

def put (cs : List Char) (out : Written) : Written := cs.reverseAux out

/-- Ends the current line if it has text. -/
def endLine : Written → Written
  | [] => []
  | c :: out => if isBreak c then c :: out else '\n' :: c :: out

/-- Starts a line at a column. -/
def freshLine (column : Nat) (out : Written) : Written := put (spaces column) (endLine out)

/-- Where a value stands: after the colon of a key on the same line, or after another mark. A block
after a key starts on a line of its own, after another mark on the same line. -/
inductive Place where
  | key
  | mark

/-- The column of a list whose place is in a block at column `indent`. -/
def Place.listColumn (indent : Nat) : Place → Nat
  | .key => indent
  | .mark => indent + 2

def Place.start (column : Nat) (out : Written) : Place → Written
  | .key => freshLine column out
  | .mark => put [' '] out

mutual

/-- Writes a value after the mark before it, in a block at column `indent`. -/
def value (indent : Nat) (place : Place) (out : Written) : Document → Written
  | .null => put " null".toList out
  | .bool true => put " true".toList out
  | .bool false => put " false".toList out
  | .int n => put (' ' :: Numeral.signed n) out
  | .float x => put (' ' :: float x) out
  | .text s => put (' ' :: writeText (indent + 2) s) out
  | .list [] => put [' ', '[', ']'] out
  | .list (item :: rest) =>
    let column := place.listColumn indent
    items column (value column .mark (put ['-'] (place.start column out)) item) rest
  | .record [] => put [' ', '\x7b', '\x7d'] out
  | .record ((name, first) :: rest) =>
    let column := indent + 2
    let out := place.start column out
    fields column
      (if isSimpleKey name then
        value column .key (put (writeText (column + 2) name ++ [':']) out) first
      else
        let out := put ('?' :: ' ' :: writeText (column + 2) name) out
        value column .mark (put [':'] (freshLine column out)) first)
      rest

/-- Writes the further items of a list, each on a line of its own. -/
def items (column : Nat) (out : Written) : List Document → Written
  | [] => out
  | item :: rest =>
    items column (value column .mark (put ['-'] (freshLine column out)) item) rest

/-- Writes the further fields of a record, each on a line of its own. A name that is long or has
line breaks stands after a question mark, and its value on the next line. -/
def fields (column : Nat) (out : Written) : List (String × Document) → Written
  | [] => out
  | (name, first) :: rest =>
    let out := freshLine column out
    fields column
      (if isSimpleKey name then
        value column .key (put (writeText (column + 2) name ++ [':']) out) first
      else
        let out := put ('?' :: ' ' :: writeText (column + 2) name) out
        value column .mark (put [':'] (freshLine column out)) first)
      rest

end

def root : Document → Written
  | .list (item :: rest) => items 0 [] (item :: rest)
  | .record (field :: rest) => fields 0 [] (field :: rest)
  | .text s => put (writeText 2 s) []
  | scalar => ((value 0 .mark [] scalar).reverse.drop 1).reverse

/-- The document as YAML; the last line is ended. -/
def write (d : Document) : String := String.ofList (endLine (root d)).reverse

end DeployManifest.Yaml
