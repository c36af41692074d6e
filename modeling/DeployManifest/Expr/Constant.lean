import DeployManifest.Number.Binary64
import DeployManifest.Number.Word
import DeployManifest.Text.Cut

/-! # Written constants

What number or text a constant of the source stands for. Numbers may be grouped by underscores. A
quoted text may have letters in front that say how it is read; those of bytes and of texts with
substitutions are no constants.
-/

namespace DeployManifest.Constant

/-- A character with its capital letters made small. -/
def small (c : Char) : Char := c.toLower

/-- The digits of a number without the underscores between them. -/
def ungrouped (cs : List Char) : List Char := cs.filter (· != '_')

/-- The whole number that a written constant stands for, when it has 64 bits. A mark in front of the
digits names their base; without one they are decimal, also behind zeros. -/
def integer? (cs : List Char) : Option Int :=
  match (ungrouped cs).map small with
  | '0' :: 'x' :: ds => Word.read? 16 ds
  | '0' :: 'o' :: ds => Word.read? 8 ds
  | '0' :: 'b' :: ds => Word.read? 2 ds
  | ds => Word.read? 10 ds

/-- The floating point number that a written constant stands for, unless it is imaginary. -/
def float? (cs : List Char) : Option Binary64 :=
  let ds := ungrouped cs
  match ds.getLast? with
  | some 'j' => none
  | some 'J' => none
  | _ => Binary64.read? ds

def scalar? (n : Nat) : Option Char := if n.isValidChar then some (Char.ofNat n) else none

/-- What a single character after a backslash stands for; a line end stands for nothing. -/
def letter? (c : Char) : Option (List Char) :=
  match c with
  | '\n' => some []
  | '\\' => some ['\\']
  | '\'' => some ['\'']
  | '"' => some ['"']
  | 'n' => some ['\n']
  | 't' => some ['\t']
  | 'r' => some ['\r']
  | '0' => some ['\x00']
  | 'a' => some ['\x07']
  | 'b' => some ['\x08']
  | 'f' => some ['\x0c']
  | 'v' => some ['\x0b']
  | _ => none

/-- How many digits of base 16 follow the letter of a code point. -/
def codeWidth? (c : Char) : Option Nat :=
  match c with
  | 'x' => some 2
  | 'u' => some 4
  | 'U' => some 8
  | _ => none

/-- The character whose code point is written in base 16 by exactly `width` characters. A plus sign
counts as one of them. -/
def coded? (width : Nat) (cs : List Char) : Option Char :=
  if cs.length = width then
    match cs with
    | '+' :: ds => (Numeral.value? 16 ds).bind scalar?
    | ds => (Numeral.value? 16 ds).bind scalar?
  else none

/-- What a backslash and the characters behind it stand for, and how many of these it takes. An
escape that means nothing stands for itself. -/
def escape (cs : List Char) : List Char × Nat :=
  match cs with
  | [] => (['\\'], 0)
  | c :: rest =>
    match letter? c with
    | some out => (out, 1)
    | none =>
      match codeWidth? c with
      | none => (['\\', c], 1)
      | some width =>
        let digits := rest.take width
        match coded? width digits with
        | some decoded => ([decoded], 1 + width)
        | none => ('\\' :: c :: digits, 1 + digits.length)

/-- The text without the first `skip` characters and with its escapes replaced. -/
def unescapeAfter : Nat → List Char → List Char
  | _, [] => []
  | skip + 1, _ :: cs => unescapeAfter skip cs
  | 0, c :: cs =>
    if c = '\\' then (escape cs).1 ++ unescapeAfter (escape cs).2 cs
    else c :: unescapeAfter 0 cs

def unescape (cs : List Char) : List Char := unescapeAfter 0 cs

def isQuote (c : Char) : Bool := c == '"' || c == '\''

/-- The quotes that a text starts with: three of a kind, or one. -/
def quotes (cs : List Char) : List Char :=
  if ['"', '"', '"'].isPrefixOf cs || ['\'', '\'', '\''].isPrefixOf cs then cs.take 3
  else cs.take 1

def text? (cs : List Char) : Option (List Char) :=
  let letters := (cs.takeWhile (!isQuote ·)).map small
  let body := cs.dropWhile (!isQuote ·)
  if body.isEmpty || letters.contains 'f' || letters.contains 'b' then none
  else
    let marks := quotes body
    ((Text.after? marks body).bind (Text.before? marks)).map fun inner =>
      if letters.contains 'r' then inner else unescape inner

end DeployManifest.Constant
