import DeployManifest.Number.FloatText

/-! # Documents

The tree of plain data that a manifest is written as. Both written forms are read off this tree, so
whether a field is present, and in which order the fields stand, is decided once.
-/

namespace DeployManifest

/-- A tree of plain data; the fields of a record keep their order. -/
inductive Document where
  | null
  | bool (value : Bool)
  | int (value : Int)
  | float (value : Binary64)
  | text (value : String)
  | list (items : List Document)
  | record (fields : List (String × Document))

namespace Document

/-- A field, when there is something to write. -/
def field? {α : Type} (name : String) (write : α → Document) : Option α → List (String × Document)
  | some value => [(name, write value)]
  | none => []

mutual

/-- Does `null` stand anywhere in the tree? -/
def hasNull : Document → Bool
  | .null => true
  | .bool _ => false
  | .int _ => false
  | .float _ => false
  | .text _ => false
  | .list items => anyHasNull items
  | .record fields => anyFieldHasNull fields

def anyHasNull : List Document → Bool
  | [] => false
  | item :: items => hasNull item || anyHasNull items

def anyFieldHasNull : List (String × Document) → Bool
  | [] => false
  | (_, value) :: fields => hasNull value || anyFieldHasNull fields

end

end Document

end DeployManifest
