import DeployManifest.Number.Word
import DeployManifest.Text.Cut

/-! # Sizes of memory

A size is written as an amount and a unit. Sizes are kept in megabytes; a size that does not fit into
64 bits is no size.
-/

namespace DeployManifest.MemorySize

/-- The units, and the megabytes that one of each is. -/
def units : List (String × Int) :=
  [("MiB", 1), ("MB", 1), ("Mi", 1), ("GiB", 1024), ("GB", 1024), ("Gi", 1024)]

/-- The megabytes of an amount in a unit, when the text ends with the unit. -/
def inUnit? (cs : List Char) (unit : String × Int) : Option Int :=
  ((Text.before? unit.1.toList cs).bind fun amount => Word.read? 10 (Text.trim amount)).bind
    fun amount => Word.mul? amount unit.2

/-- The megabytes that a text stands for, in the first unit that fits. -/
def parse? (cs : List Char) : Option Int := units.findSome? (inUnit? (Text.trim cs))

end DeployManifest.MemorySize
