import DeployManifest.Number.Decimal

/-! # Binary floating point numbers of 64 bits

A number is its bit pattern in the interchange format of IEEE 754, so infinities, not-a-numbers and
the sign of zero are values like any other. `ofDecimal` rounds a decimal to the nearest number, a
tie to the even one. `shortest` finds the decimal with the fewest digits that rounds back.
-/

namespace DeployManifest

/-- A binary64 number, as its bits. -/
structure Binary64 where
  bits : UInt64
  deriving DecidableEq

namespace Binary64

def negative (x : Binary64) : Bool := x.bits.toNat ≥ 1 <<< 63

/-- The eleven bits of the exponent. -/
def exponentField (x : Binary64) : Nat := (x.bits.toNat >>> 52) % 2048

/-- The 52 bits of the fraction. -/
def fraction (x : Binary64) : Nat := x.bits.toNat % (1 <<< 52)

def isFinite (x : Binary64) : Bool := x.exponentField != 2047

def isNaN (x : Binary64) : Bool := x.exponentField == 2047 && x.fraction != 0

def neg (x : Binary64) : Binary64 := ⟨x.bits ^^^ 0x8000000000000000⟩

/-- The magnitude of a finite number as `m · 2 ^ q`: the pair of `m` and `q`. -/
def magnitude (x : Binary64) : Nat × Int :=
  if x.exponentField = 0 then (x.fraction, -1074)
  else (x.fraction + (1 <<< 52), (x.exponentField : Int) - 1075)

/-- The quotient rounded to the nearest integer, a tie to the even one. -/
def roundDiv (num den : Nat) : Nat :=
  let q := num / den
  let r := num % den
  if 2 * r < den then q else if den < 2 * r then q + 1 else if q % 2 = 0 then q else q + 1

/-- The bits of the magnitude nearest to `num / den`, which is positive; past the largest finite
number this is infinity. -/
def roundRatio (num den : Nat) : Nat :=
  let guess : Int := (Nat.log2 num : Int) - (Nat.log2 den : Int) - 52
  -- the quotient scaled by `2 ^ -guess` is below `2 ^ 53`, and at least `2 ^ 51`
  let low : Bool :=
    if guess ≥ 0 then num < den <<< (guess.toNat + 52)
    else num <<< (-guess).toNat < den <<< 52
  let q : Int := max (-1074) (if low then guess - 1 else guess)
  let m :=
    if q ≥ 0 then roundDiv num (den <<< q.toNat) else roundDiv (num <<< (-q).toNat) den
  min (((q + 1074).toNat <<< 52) + m) (2047 <<< 52)

/-- The number nearest to a decimal. Exponents far outside the range are cut off before any power
of ten is formed. -/
def ofDecimal (d : Decimal) : Binary64 :=
  let top : Int := d.exponent + (Numeral.decimal d.digits).length
  let bits : Nat :=
    if d.digits = 0 then 0
    else if top > 320 then 2047 <<< 52
    else if top < -340 then 0
    else if d.exponent ≥ 0 then roundRatio (d.digits * Nat.pow 10 d.exponent.toNat) 1
    else roundRatio d.digits (Nat.pow 10 (-d.exponent).toNat)
  ⟨UInt64.ofNat (bits + if d.negative then 1 <<< 63 else 0)⟩

def read? (cs : List Char) : Option Binary64 := (Decimal.read? cs).map ofDecimal

/-- The reals that round to a finite positive number: `center`, `low` and `high` over the common
denominator `den`; the ends belong to it when `closed` holds. -/
structure Interval where
  center : Nat
  low : Nat
  high : Nat
  den : Nat
  closed : Bool

/-- The interval of a finite number other than zero, without its sign. Below a power of two the
numbers lie twice as close. -/
def interval (x : Binary64) : Interval :=
  let (m, q) := x.magnitude
  let narrow := x.fraction = 0 && x.exponentField > 1
  let scale := 1 <<< (q - 2).toNat
  ⟨4 * m * scale, (4 * m - if narrow then 1 else 2) * scale, (4 * m + 2) * scale,
    1 <<< (2 - q).toNat, m % 2 = 0⟩

namespace Interval

/-- Does `d / unit` of the scaled interval lie inside? -/
def holds (i : Interval) (grow shrink d : Nat) : Bool :=
  let point := d * (i.den * shrink)
  if i.closed then i.low * grow ≤ point && point ≤ i.high * grow
  else i.low * grow < point && point < i.high * grow

/-- The nearer of the center's two neighbours on the grid of `10 ^ p` that lie inside, if any. -/
def onGrid? (i : Interval) (p : Int) : Option Nat :=
  let grow := Nat.pow 10 (-p).toNat
  let shrink := Nat.pow 10 p.toNat
  let below := i.center * grow / (i.den * shrink)
  let rest := i.center * grow % (i.den * shrink)
  match i.holds grow shrink below, i.holds grow shrink (below + 1) with
  | true, true =>
    let nearest := roundDiv (i.center * grow) (i.den * shrink)
    some nearest
  | true, false => some below
  | false, true => if rest = 0 then none else some (below + 1)
  | false, false => none

/-- The position of the leading decimal digit of the center: the largest `p` such that
`10 ^ p` does not exceed it. -/
def leading (i : Interval) : Int :=
  ((Numeral.decimal (i.center * Nat.pow 10 400 / i.den)).length : Int) - 401

/-- The first grid, from coarse to fine, with a point inside, and that point. -/
def search (i : Interval) (p : Int) : Nat → Nat × Int
  | 0 => (0, p)
  | tries + 1 =>
    match i.onGrid? p with
    | some d => (d, p)
    | none => search i (p - 1) tries

end Interval

/-- Divides by ten as long as nothing is lost, at most `tries` times. -/
def dropZeros (d : Nat) (p : Int) : Nat → Nat × Int
  | 0 => (d, p)
  | tries + 1 => if d % 10 = 0 && d != 0 then dropZeros (d / 10) (p + 1) tries else (d, p)

/-- The decimal with the fewest digits that rounds to the number; of those, the nearest to it. -/
def shortest (x : Binary64) : Decimal :=
  if x.fraction = 0 && x.exponentField = 0 then ⟨x.negative, 0, 0⟩
  else
    let i := x.interval
    let (d, p) := i.search i.leading 20
    let (d, p) := dropZeros d p 400
    ⟨x.negative, d, p⟩

end Binary64

end DeployManifest
