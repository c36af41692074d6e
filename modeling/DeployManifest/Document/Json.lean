import DeployManifest.Document.Basic

/-! # Documents as JSON

The compact form holds no white space; the indented form puts every item and field on a line of its
own. Text is quoted with a backslash before quotes and backslashes, the five short escapes, and four
hexadecimal digits for the other control characters. JSON has no infinities, so these become `null`.
-/

namespace DeployManifest.Json

def escape (c : Char) : List Char :=
  if c = '"' then ['\\', '"']
  else if c = '\\' then ['\\', '\\']
  else if c = '\n' then ['\\', 'n']
  else if c = '\r' then ['\\', 'r']
  else if c = '\t' then ['\\', 't']
  else if c = '\x08' then ['\\', 'b']
  else if c = '\x0c' then ['\\', 'f']
  else if c.toNat < 0x20 then '\\' :: 'u' :: Numeral.hexadecimal 4 c.toNat
  else [c]

def quote (cs : List Char) : List Char := '"' :: (cs.flatMap escape ++ ['"'])

/-- Numbers are positional up to sixteen digits before the point and down to five places after it,
and a positive exponent carries its sign. -/
def floatText : FloatText := ⟨16, 5, true⟩

def float (x : Binary64) : List Char :=
  if x.isFinite then floatText.write x else ['n', 'u', 'l', 'l']

/-- The text of a value that is neither a list nor a record. -/
def scalar : Document → List Char
  | .null => ['n', 'u', 'l', 'l']
  | .bool true => ['t', 'r', 'u', 'e']
  | .bool false => ['f', 'a', 'l', 's', 'e']
  | .int n => Numeral.signed n
  | .float x => float x
  | .text s => quote s.toList
  | .list _ => []
  | .record _ => []

mutual

def compactChars : Document → List Char
  | .null => scalar .null
  | .bool b => scalar (.bool b)
  | .int n => scalar (.int n)
  | .float x => scalar (.float x)
  | .text s => scalar (.text s)
  | .list items => '[' :: (compactItems items ++ [']'])
  | .record fields => '{' :: (compactFields fields ++ ['}'])

/-- The items with commas between them. -/
def compactItems : List Document → List Char
  | [] => []
  | [item] => compactChars item
  | item :: next :: items => compactChars item ++ ',' :: compactItems (next :: items)

def compactFields : List (String × Document) → List Char
  | [] => []
  | [(name, value)] => quote name.toList ++ ':' :: compactChars value
  | (name, value) :: next :: fields =>
    quote name.toList ++ ':' :: compactChars value ++ ',' :: compactFields (next :: fields)

end

/-- A new line with two spaces for each level. -/
def newline (level : Nat) : List Char := '\n' :: List.replicate (2 * level) ' '

mutual

/-- The text with every item and field on its own line, at a level of indentation. -/
def indentedChars (level : Nat) : Document → List Char
  | .null => scalar .null
  | .bool b => scalar (.bool b)
  | .int n => scalar (.int n)
  | .float x => scalar (.float x)
  | .text s => scalar (.text s)
  | .list [] => ['[', ']']
  | .list (item :: items) =>
    '[' :: (newline (level + 1) ++ indentedChars (level + 1) item
      ++ indentedItems (level + 1) items ++ newline level ++ [']'])
  | .record [] => ['{', '}']
  | .record ((name, value) :: fields) =>
    '{' :: (newline (level + 1) ++ quote name.toList ++ [':', ' ']
      ++ indentedChars (level + 1) value ++ indentedFields (level + 1) fields
      ++ newline level ++ ['}'])

/-- The items after the first one. -/
def indentedItems (level : Nat) : List Document → List Char
  | [] => []
  | item :: items =>
    ',' :: (newline level ++ indentedChars level item ++ indentedItems level items)

def indentedFields (level : Nat) : List (String × Document) → List Char
  | [] => []
  | (name, value) :: fields =>
    ',' :: (newline level ++ quote name.toList ++ [':', ' ']
      ++ indentedChars level value ++ indentedFields level fields)

end

def compact (d : Document) : String := String.ofList (compactChars d)

def indented (d : Document) : String := String.ofList (indentedChars 0 d)

end DeployManifest.Json
