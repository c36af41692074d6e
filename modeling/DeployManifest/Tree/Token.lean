import DeployManifest.Tree.Cursor
import DeployManifest.Text.Cut

/-! # Tokens

How many characters the longest name, number or operator at a position takes. A number may hold one
underscore after each digit, and the one that ends it counts as part of it.
-/

namespace DeployManifest.Token

/-- The length of the name in front, zero if there is none. -/
def nameLength (cs : List Char) : Nat :=
  match cs with
  | [] => 0
  | c :: rest =>
    if Text.isIdentifierStart c then 1 + (rest.takeWhile Text.isIdentifierRest).length else 0

/-- The length of a row of digits, each with at most one underscore behind it. -/
def digitsLength : List Char → Nat
  | [] => 0
  | c :: cs =>
    if c.isDigit then
      match cs with
      | '_' :: rest => 2 + digitsLength rest
      | cs => 1 + digitsLength cs
    else 0

/-- The length of digits of a class, each with at most one underscore before it. -/
def basedLength (p : Char → Bool) : List Char → Nat
  | [] => 0
  | c :: cs =>
    if p c then 1 + basedLength p cs
    else if c = '_' then
      match cs with
      | d :: rest => if p d then 2 + basedLength p rest else 0
      | [] => 0
    else 0

def isHexDigit (c : Char) : Bool :=
  c.isDigit || ('a' ≤ c && c ≤ 'f') || ('A' ≤ c && c ≤ 'F')

def isOctalDigit (c : Char) : Bool := '0' ≤ c && c ≤ '7'

def isBinaryDigit (c : Char) : Bool := c == '0' || c == '1'

/-- The length with a suffix of one of the letters, if it is there. -/
def withSuffix (letters : List Char) (cs : List Char) (length : Nat) : Nat :=
  match cs.drop length with
  | c :: _ => if letters.contains c then length + 1 else length
  | [] => length

/-- The length of a number after its base mark of two characters, if it has digits. -/
def markedLength? (p : Char → Bool) (cs : List Char) : Option Nat :=
  match basedLength p (cs.drop 2) with
  | 0 => none
  | n => some (withSuffix ['L', 'l'] cs (2 + n))

/-- The length of the whole number in front, zero if there is none. -/
def integerLength (cs : List Char) : Nat :=
  let marked :=
    match cs with
    | '0' :: 'x' :: _ => markedLength? isHexDigit cs
    | '0' :: 'X' :: _ => markedLength? isHexDigit cs
    | '0' :: 'o' :: _ => markedLength? isOctalDigit cs
    | '0' :: 'O' :: _ => markedLength? isOctalDigit cs
    | '0' :: 'b' :: _ => markedLength? isBinaryDigit cs
    | '0' :: 'B' :: _ => markedLength? isBinaryDigit cs
    | _ => none
  match marked with
  | some n => n
  | none =>
    match digitsLength cs with
    | 0 => 0
    | n => withSuffix ['L', 'l', 'j', 'J'] cs n

/-- The length of an exponent: a letter, an optional sign, and digits. -/
def exponentLength (cs : List Char) : Nat :=
  match cs with
  | c :: rest =>
    if c = 'e' ∨ c = 'E' then
      let sign :=
        match rest with
        | '+' :: _ => 1
        | '-' :: _ => 1
        | _ => 0
      match digitsLength (rest.drop sign) with
      | 0 => 0
      | n => 1 + sign + n
    else 0
  | [] => 0

/-- The length of the floating point number in front, zero if there is none: digits with a point
or an exponent. -/
def floatLength (cs : List Char) : Nat :=
  let whole := digitsLength cs
  let afterWhole := cs.drop whole
  let body :=
    match afterWhole with
    | '.' :: rest =>
      let fraction := digitsLength rest
      if whole = 0 ∧ fraction = 0 then 0
      else
        let n := whole + 1 + fraction
        n + exponentLength (cs.drop n)
    | _ =>
      if whole = 0 then 0
      else
        match exponentLength afterWhole with
        | 0 => 0
        | n => whole + n
  if body = 0 then 0 else withSuffix ['L', 'l', 'j', 'J'] cs body

/-- Operators and marks of more than one character. -/
def longMarks : List String :=
  ["**=", "//=", ">>=", "<<=", "...", "**", "//", ">>", "<<", "==", "!=", "<=", ">=", "<>", "->",
    ":=", "+=", "-=", "*=", "/=", "%=", "@=", "&=", "|=", "^="]

/-- The operators that change their left side. -/
def augmentedMarks : List String :=
  ["**=", "//=", ">>=", "<<=", "+=", "-=", "*=", "/=", "%=", "@=", "&=", "|=", "^="]

/-- The longest mark in front; any other character is a mark of its own. -/
def mark (cs : List Char) : String :=
  match longMarks.find? fun m => m.toList.isPrefixOf cs with
  | some m => m
  | none => String.ofList (cs.take 1)

end DeployManifest.Token
