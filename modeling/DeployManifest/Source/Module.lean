import DeployManifest.Source.Location

/-! # Source modules

A module is a text with a name. Its places are counted in bytes by offsets, and in lines and
columns by locations.
-/

namespace DeployManifest

/-- A module: its path below the source root and its text. -/
structure SourceModule where
  name : String
  text : List Char
  deriving DecidableEq

namespace SourceModule

/-- The line and column behind the characters of the first `offset` bytes, when the text starts at
the given line and column. Lines end with line feeds, and a column is one character. -/
def placeFrom (line column : Nat) : List Char → Nat → Nat × Nat
  | [], _ => (line, column)
  | c :: cs, offset =>
    if offset = 0 then (line, column)
    else if c = '\n' then placeFrom (line + 1) 1 cs (offset - c.utf8Size)
    else placeFrom line (column + 1) cs (offset - c.utf8Size)

/-- The line and column at an offset. -/
def place (m : SourceModule) (offset : Nat) : Nat × Nat := placeFrom 1 1 m.text offset

def location (m : SourceModule) (offset : Nat) : Location :=
  let (line, column) := m.place offset
  ⟨m.name, line, column⟩

def dropBytes : Nat → List Char → List Char
  | _, [] => []
  | count, c :: cs => if count = 0 then c :: cs else dropBytes (count - c.utf8Size) cs

def takeBytes : Nat → List Char → List Char
  | _, [] => []
  | count, c :: cs => if count = 0 then [] else c :: takeBytes (count - c.utf8Size) cs

/-- The characters between two offsets. -/
def slice (m : SourceModule) (start stop : Nat) : List Char :=
  takeBytes (stop - start) (dropBytes start m.text)

end SourceModule

end DeployManifest
