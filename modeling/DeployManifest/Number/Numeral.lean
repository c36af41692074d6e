/-! # Numerals

Digits of a natural number in a base, and the number that digits stand for. Letters of either case
count as digits above nine. `value?_decimal` says that a number is read back from its decimal digits.
-/

namespace DeployManifest.Numeral

/-- The value of a character as a digit below `base`, which is at most 36. -/
def digit? (base : Nat) (c : Char) : Option Nat :=
  let value :=
    if c.isDigit then c.toNat - '0'.toNat
    else if c.isLower then c.toNat - 'a'.toNat + 10
    else if c.isUpper then c.toNat - 'A'.toNat + 10
    else base
  if value < base then some value else none

/-- The number that digits stand for, read after the digits of `seen`. -/
def extend? (base : Nat) : Nat → List Char → Option Nat
  | seen, [] => some seen
  | seen, c :: cs =>
    match digit? base c with
    | some d => extend? base (seen * base + d) cs
    | none => none

def value? (base : Nat) (cs : List Char) : Option Nat :=
  if cs.isEmpty then none else extend? base 0 cs

def digitChar (d : Nat) : Char := if d < 10 then Char.ofNat (48 + d) else Char.ofNat (87 + d)

/-- The digits of a number, without zeros in front; at least one. -/
def digits (base : Nat) (n : Nat) : List Char :=
  if _large : n < base ∨ base < 2 then [digitChar n]
  else digits base (n / base) ++ [digitChar (n % base)]
termination_by n
decreasing_by exact Nat.div_lt_self (by omega) (by omega)

def decimal (n : Nat) : List Char := digits 10 n

/-- The decimal text of an integer; only negative ones carry a sign. -/
def signed (n : Int) : List Char :=
  match n with
  | .ofNat m => decimal m
  | .negSucc m => '-' :: decimal (m + 1)

/-- The digits of a number in base 16, with zeros in front up to a width. -/
def hexadecimal (width n : Nat) : List Char :=
  let ds := digits 16 n
  List.replicate (width - ds.length) '0' ++ ds

def hexadecimalCapital (width n : Nat) : List Char :=
  (hexadecimal width n).map Char.toUpper

theorem extend?_append (base seen : Nat) (cs ds : List Char) :
    extend? base seen (cs ++ ds) = (extend? base seen cs).bind fun n => extend? base n ds := by
  induction cs generalizing seen with
  | nil => rfl
  | cons c cs ih =>
    simp only [List.cons_append, extend?]
    cases digit? base c with
    | none => rfl
    | some d => exact ih _

theorem digit?_digitChar {d : Nat} (small : d < 10) : digit? 10 (digitChar d) = some d := by
  have cases : d = 0 ∨ d = 1 ∨ d = 2 ∨ d = 3 ∨ d = 4 ∨ d = 5 ∨ d = 6 ∨ d = 7 ∨ d = 8 ∨ d = 9 := by
    omega
  rcases cases with rfl | rfl | rfl | rfl | rfl | rfl | rfl | rfl | rfl | rfl <;> decide

theorem extend?_decimal (n : Nat) : extend? 10 0 (decimal n) = some n := by
  induction n using Nat.strongRecOn with
  | ind n ih =>
    unfold decimal digits
    split
    · rename_i small
      have : n < 10 := by omega
      simp [extend?, digit?_digitChar this]
    · rename_i large
      have smaller : n / 10 < n := by omega
      have last : n % 10 < 10 := by omega
      rw [extend?_append]
      have ih := ih (n / 10) smaller
      unfold decimal at ih
      rw [ih]
      simp only [Option.bind_some, extend?, digit?_digitChar last]
      congr 1
      omega

theorem decimal_ne_nil (n : Nat) : decimal n ≠ [] := by
  unfold decimal digits
  split <;> simp

theorem value?_decimal (n : Nat) : value? 10 (decimal n) = some n := by
  simp [value?, decimal_ne_nil, extend?_decimal]

end DeployManifest.Numeral
