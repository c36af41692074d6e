import DeployManifest.Text.Cut
import DeployManifest.Text.Utf8

/-! # Paths

A path is a sequence of bytes with slashes between its parts; like the names of files, they need not
encode a text. Parts that are empty or a single point stay where they are; two points lead back.
-/

namespace DeployManifest

abbrev FileName := List UInt8

structure Path where
  bytes : List UInt8
  deriving DecidableEq

namespace Path

def slash : UInt8 := 0x2F

def point : UInt8 := 0x2E

def ofText (s : String) : Path := ⟨Text.bytes s⟩

def text (p : Path) : String := Text.lossy p.bytes

/-- Names with slashes between them. -/
def ofNames (names : List FileName) : Path := ⟨Text.join [slash] names⟩

def isAbsolute (p : Path) : Bool := p.bytes.head? == some slash

/-- The second path, read from the first one. -/
def join (base p : Path) : Path :=
  if p.isAbsolute then p
  else if base.bytes.isEmpty || base.bytes.getLast? == some slash then ⟨base.bytes ++ p.bytes⟩
  else ⟨base.bytes ++ slash :: p.bytes⟩

def parts (p : Path) : List FileName := Text.cut slash p.bytes

/-- The reversed bytes of a path without slashes and single points at its end; the root stays. -/
def trimReversed : List UInt8 → List UInt8
  | [] => []
  | b :: rest =>
    if b = slash then if rest.isEmpty then [slash] else trimReversed rest
    else if b = point ∧ rest.head? = some slash then trimReversed rest
    else b :: rest

/-- The path without its last part, unless it is empty or the root. -/
def parent? (p : Path) : Option Path :=
  let trimmed := trimReversed p.bytes.reverse
  if trimmed = [] ∨ trimmed = [slash] then none
  else some ⟨(trimReversed (trimmed.dropWhile (· != slash))).reverse⟩

/-- The directory that the path lies in, where the path names one. -/
def directory? (p : Path) : Option Path := p.parent?.filter (!·.bytes.isEmpty)

/-- The path without slashes and single points at its start. -/
def trimStart : List UInt8 → List UInt8
  | [] => []
  | b :: rest =>
    if b = slash ∨ b = point ∧ ∀ next ∈ rest.head?, next = slash then trimStart rest
    else b :: rest

/-- What follows the first part of a path, if that is the given one. -/
def after? (first : FileName) (p : Path) : Option Path :=
  match Text.after? first p.bytes with
  | some [] => some ⟨[]⟩
  | some (b :: rest) =>
    if b = slash then some ⟨(trimReversed (trimStart rest).reverse).reverse⟩ else none
  | none => none

/-- The parts that are neither empty nor a single point. -/
def names (p : Path) : List FileName := p.parts.filter fun part => part != [] && part != [point]

def fileName (p : Path) : FileName := p.names.getLast?.getD []

/-- What a path is made of: the root or a single point at its start, and the names behind it. -/
def components (p : Path) : List FileName :=
  (if p.isAbsolute then [[slash]] else if p.parts.head? == some [point] then [[point]] else []) ++
    p.names

/-- The name of a path below a root, as it is shown: what comes behind the components of the root, or
the last part if nothing does. A path elsewhere is named whole. -/
def nameBelow (root p : Path) : String :=
  let rest :=
    if root.components.isPrefixOf p.components then p.components.drop root.components.length
    else p.components
  let joined := "/".intercalate (rest.map Text.lossy)
  if joined == "" then Text.lossy p.fileName else joined

def append (p : Path) (ending : String) : Path := ⟨p.bytes ++ Text.bytes ending⟩

end Path

end DeployManifest
