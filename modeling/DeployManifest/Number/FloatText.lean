import DeployManifest.Number.Binary64

/-! # Writing binary floating point numbers

A finite number is written with the fewest digits that read back. The record `FloatText` holds what
is left to decide: where positional notation ends, and whether a positive exponent carries a sign.
-/

namespace DeployManifest

/-- How the shortest digits are laid out. -/
structure FloatText where
  /-- The point stands among or after at most this many digits in positional notation. -/
  maxWhole : Int
  /-- Positional notation puts fewer than this many zeros between the point and the digits. -/
  maxZeros : Int
  /-- Is a positive exponent written with a sign? -/
  plusSign : Bool

namespace FloatText

/-- The exponent of scientific notation. -/
def exponent (style : FloatText) (e : Int) : List Char :=
  'e' :: (if style.plusSign && e ≥ 0 then '+' :: Numeral.signed e else Numeral.signed e)

/-- The text of digits scaled by a power of ten. At least one digit stands on both sides of a
point. -/
def layout (style : FloatText) (ds : List Char) (e : Int) : List Char :=
  let whole : Int := ds.length + e
  if 0 ≤ e && whole ≤ style.maxWhole then
    ds ++ List.replicate e.toNat '0' ++ ['.', '0']
  else if 0 < whole && whole ≤ style.maxWhole then
    ds.take whole.toNat ++ '.' :: ds.drop whole.toNat
  else if -style.maxZeros < whole && whole ≤ 0 then
    '0' :: '.' :: (List.replicate (-whole).toNat '0' ++ ds)
  else
    match ds with
    | [] => []
    | [d] => d :: style.exponent (whole - 1)
    | d :: ds => d :: '.' :: (ds ++ style.exponent (whole - 1))

/-- The text of a finite number. Zero keeps its sign. -/
def write (style : FloatText) (x : Binary64) : List Char :=
  let d := x.shortest
  let body := style.layout (Numeral.decimal d.digits) d.exponent
  if d.negative then '-' :: body else body

end FloatText

end DeployManifest
