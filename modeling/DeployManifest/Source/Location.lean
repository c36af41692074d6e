import DeployManifest.Number.Numeral

/-! # Source locations

A location names a module by its path below the source root, with slashes between the parts, and
counts lines and columns from one.
-/

namespace DeployManifest

structure Location where
  file : String
  line : Nat
  column : Nat
  deriving DecidableEq, Inhabited

namespace Location

/-- The location as messages show it: file, line and column between colons. -/
def text (l : Location) : String :=
  l.file ++ ":" ++ String.ofList (Numeral.decimal l.line) ++ ":"
    ++ String.ofList (Numeral.decimal l.column)

end Location

end DeployManifest
