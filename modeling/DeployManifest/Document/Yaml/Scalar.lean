import DeployManifest.Document.Basic
import DeployManifest.Number.Word

/-! # Scalars in YAML

A text is written plain when a reader takes the plain form for that very text, otherwise in single
quotes, as an indented block when it has line feeds, or in double quotes when it holds characters
that only an escape can show. `style` makes the choice and `write` carries it out.
-/

namespace DeployManifest.Yaml

/-- The line breaks of the format: carriage return, line feed, next line, and the line and
paragraph separators. -/
def isBreak (c : Char) : Bool :=
  c == '\r' || c == '\n' || c.toNat == 0x85 || c.toNat == 0x2028 || c.toNat == 0x2029

/-- A space, a tab, a line break, or the null character. -/
def isBlank (c : Char) : Bool := c == ' ' || c == '\t' || c.toNat == 0 || isBreak c

/-- May the character stand in the output as it is? -/
def isPrintable (c : Char) : Bool :=
  let n := c.toNat
  n == 0x0A || (0x20 ≤ n && n ≤ 0x7E) || (0xA0 ≤ n && n ≤ 0xD7FF)
    || (0xE000 ≤ n && n ≤ 0xFFFD && n != 0xFEFF) || 0x10000 ≤ n

/-- Words that stand for nothing or for a truth value. -/
def keywords : List String :=
  ["", "null", "Null", "NULL", "~", "true", "True", "TRUE", "false", "False", "FALSE"]

/-- Words that stand for the floating point numbers without digits. -/
def floatWords : List String :=
  [".inf", ".Inf", ".INF", "+.inf", "+.Inf", "+.INF", "-.inf", "-.Inf", "-.INF",
    ".nan", ".NaN", ".NAN"]

/-- Two or more digits with a zero in front, after an optional sign. -/
def isZeroPadded (cs : List Char) : Bool :=
  match (match cs with | '+' :: ds => ds | '-' :: ds => ds | ds => ds) with
  | '0' :: d :: ds => (d :: ds).all Char.isDigit
  | _ => false

/-- Are these the digits, after a base mark, of a number that is below `limit`? -/
def isBased (limit : Nat) : List Char → Bool
  | '0' :: 'x' :: ds => below 16 ds
  | '0' :: 'o' :: ds => below 8 ds
  | '0' :: 'b' :: ds => below 2 ds
  | _ => false
where
  /-- Is it a numeral of a number below the limit? -/
  below (base : Nat) (ds : List Char) : Bool :=
    match Numeral.value? base ds with
    | some n => n < limit
    | none => false

/-- Does a reader take the plain text for a number? Whole numbers have up to 128 bits. -/
def isNumber (cs : List Char) : Bool :=
  let unsigned := match cs with | '+' :: ds => ds | ds => ds
  isBased (1 <<< 128) unsigned
    || (match cs with | '-' :: ds => isBased ((1 <<< 127) + 1) ds | _ => false)
    || isZeroPadded cs
    || match cs, unsigned with
      | '+' :: _, '-' :: _ => false
      | '+' :: _, '+' :: _ => false
      | _, ds => (Binary64.read? ds).any Binary64.isFinite

/-- Does a reader take the plain text for something other than a text? -/
def readsOtherwise (s : String) : Bool :=
  keywords.contains s || floatWords.contains s || isNumber s.toList

/-- Is a character of the first class followed at once by one of the second? -/
def hasPair (p q : Char → Bool) : List Char → Bool
  | c :: d :: cs => (p c && q d) || hasPair p q (d :: cs)
  | _ => false

/-- The characters that mean something else at the start of a plain text. -/
def indicators : List Char :=
  ['#', ',', '[', ']', '{', '}', '&', '*', '!', '|', '>', '\'', '"', '%', '@', Char.ofNat 96]

def startsSpecial (cs : List Char) : Bool :=
  ['-', '-', '-'].isPrefixOf cs || ['.', '.', '.'].isPrefixOf cs ||
    match cs with
    | c :: rest =>
      indicators.contains c || ((c == '?' || c == '-') && rest.head?.all isBlank)
    | [] => false

/-- Does a plain text hold the end of a key or the start of a comment? -/
def holdsSpecial (cs : List Char) : Bool :=
  hasPair (· == ':') isBlank cs || cs.getLast? == some ':' || hasPair isBlank (· == '#') cs

/-- Does it start or end with a space or a line break? -/
def hasLooseEnds (cs : List Char) : Bool :=
  let loose (c : Char) : Bool := c == ' ' || isBreak c
  cs.head?.any loose || cs.getLast?.any loose

/-- Characters that only an escape can show, or a space that a line break would swallow. -/
def needsEscapes (cs : List Char) : Bool :=
  cs.any (fun c => !isPrintable c) || hasPair (· == ' ') isBreak cs

inductive Style where
  | plain
  | singleQuoted
  | doubleQuoted
  | block
  deriving DecidableEq

/-- The way a text is written outside a key that shares the line with its value. -/
def style (s : String) : Style :=
  let cs := s.toList
  if cs.contains '\n' then
    if needsEscapes cs || cs.getLast? == some ' ' then .doubleQuoted else .block
  else if needsEscapes cs || hasPair isBreak (· == ' ') cs then
    .doubleQuoted
  else if readsOtherwise s || hasLooseEnds cs || cs.any isBreak || startsSpecial cs
      || holdsSpecial cs then
    .singleQuoted
  else .plain

def escape (c : Char) : List Char :=
  let n := c.toNat
  if isPrintable c && !isBreak c && c != '"' && c != '\\' then [c]
  else
    '\\' ::
      match n with
      | 0x00 => ['0']
      | 0x07 => ['a']
      | 0x08 => ['b']
      | 0x09 => ['t']
      | 0x0A => ['n']
      | 0x0B => ['v']
      | 0x0C => ['f']
      | 0x0D => ['r']
      | 0x1B => ['e']
      | 0x22 => ['"']
      | 0x5C => ['\\']
      | 0x85 => ['N']
      | 0x2028 => ['L']
      | 0x2029 => ['P']
      | n =>
        if n ≤ 0xFF then 'x' :: Numeral.hexadecimalCapital 2 n
        else if n ≤ 0xFFFF then 'u' :: Numeral.hexadecimalCapital 4 n
        else 'U' :: Numeral.hexadecimalCapital 8 n

def spaces (column : Nat) : List Char := List.replicate column ' '

/-- The inside of single quotes: a quote is written twice, and text after line breaks is indented. -/
def quoted (indent : Nat) : Bool → List Char → List Char
  | afterBreak, [] => if afterBreak then spaces indent else []
  | afterBreak, c :: cs =>
    if isBreak c then c :: quoted indent true cs
    else
      (if afterBreak then spaces indent else [])
        ++ (if c = '\'' then ['\'', '\''] else [c]) ++ quoted indent false cs

/-- The lines of a block: each that is not empty is indented. -/
def blockLines (indent : Nat) : Bool → List Char → List Char
  | _, [] => []
  | afterBreak, c :: cs =>
    if isBreak c then c :: blockLines indent true cs
    else (if afterBreak then spaces indent else []) ++ c :: blockLines indent false cs

/-- How a block ends: `-` cuts the last line feed, `+` keeps more than one. -/
def chomping (cs : List Char) : List Char :=
  match cs.reverse with
  | [] => ['-']
  | [c] => if isBreak c then ['+'] else ['-']
  | c :: d :: _ => if !isBreak c then ['-'] else if isBreak d then ['+'] else []

/-- A block: its head, with the width of the indentation if the text starts blank, and its lines. -/
def blockText (indent : Nat) (cs : List Char) : List Char :=
  let width := if cs.head?.any fun c => c == ' ' || isBreak c then ['2'] else []
  '|' :: (width ++ chomping cs ++ '\n' :: blockLines indent true cs)

def writeText (indent : Nat) (s : String) : List Char :=
  let cs := s.toList
  match style s with
  | .plain => cs
  | .singleQuoted => '\'' :: (quoted indent false cs ++ ['\''])
  | .doubleQuoted => '"' :: (cs.flatMap escape ++ ['"'])
  | .block => blockText indent cs

def floatText : FloatText := ⟨16, 5, false⟩

def float (x : Binary64) : List Char :=
  if x.isFinite then floatText.write x
  else if x.isNaN then ".nan".toList
  else if x.negative then "-.inf".toList
  else ".inf".toList

/-- May the text stand before a colon on one line? It has no line break and at most 128 bytes. -/
def isSimpleKey (s : String) : Bool := !s.toList.any isBreak && s.utf8ByteSize ≤ 128

end DeployManifest.Yaml
