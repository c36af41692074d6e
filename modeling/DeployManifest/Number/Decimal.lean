import DeployManifest.Number.Numeral
import DeployManifest.Text.Blank

/-! # Decimal fractions

A decimal is a sign, the digits without their point, and the power of ten they are scaled by. This
is the exact value of a written number, before any rounding.
-/

namespace DeployManifest

/-- The number `± digits · 10 ^ exponent`. -/
structure Decimal where
  negative : Bool
  digits : Nat
  exponent : Int
  deriving DecidableEq

namespace Decimal

/-- Reads an exponent: a letter `e` of either case, an optional sign, and digits. -/
def readExponent? : List Char → Option Int
  | [] => some 0
  | c :: cs =>
    if c = 'e' ∨ c = 'E' then
      match cs with
      | '-' :: ds => (Numeral.value? 10 ds).map fun n => -(n : Int)
      | '+' :: ds => (Numeral.value? 10 ds).map fun n => (n : Int)
      | ds => (Numeral.value? 10 ds).map fun n => (n : Int)
    else none

/-- Reads digits with at most one point among them and an optional exponent. -/
def readUnsigned? (negative : Bool) (cs : List Char) : Option Decimal :=
  let whole := cs.takeWhile Char.isDigit
  let rest := cs.dropWhile Char.isDigit
  let (fraction, rest) :=
    match rest with
    | '.' :: after => (after.takeWhile Char.isDigit, after.dropWhile Char.isDigit)
    | rest => ([], rest)
  match Numeral.value? 10 (whole ++ fraction), readExponent? rest with
  | some n, some e => some ⟨negative, n, e - fraction.length⟩
  | _, _ => none

/-- Reads a written number: an optional sign, digits with at most one point among them, and an
optional exponent. -/
def read? : List Char → Option Decimal
  | '-' :: cs => readUnsigned? true cs
  | '+' :: cs => readUnsigned? false cs
  | cs => readUnsigned? false cs

end Decimal

end DeployManifest
