import DeployManifest.Tree.Rule

/-! # Imports

An import names modules, or names of one module; each may be given another name.
-/

namespace DeployManifest.Parser

/-- Reads names with points between them. -/
def dottedName (first : Admits) (follow : Follow) : Parser Node := do
  let head ← identifier first
  let rest ← many (do mark follow.admits "."; identifier .nothing)
  spanning .dottedName (head :: rest)

def importedName (first : Admits) (follow : Follow) : Parser Node := do
  let name ← dottedName first follow
  if ← atWord follow.admits "as" then
    word follow.admits "as"
    let given ← identifier .nothing
    spanning .aliasedImport [name.withRole .name, given.withRole .alias]
  else return name.withRole .name

def importedNames (follow : Follow) : Parser (List Node) := do
  let first ← importedName .nothing follow
  let rest ← many (do mark follow.admits ","; importedName follow.admits follow)
  let _ ← option (mark follow.admits ",")
  return first :: rest

/-- Reads imported names, in parentheses or not. -/
def importedList : Parser (List Node) := do
  if (← option (character .nothing '(')).isSome then
    let names ← importedNames .bracket
    character .closing ')'
    return names
  else importedNames .line

def importedModule : Parser Node := do
  let start ← startOf .nothing
  match ← many (character .nothing '.') with
  | [] => dottedName .nothing .inner
  | _ =>
    if ← atWord .nothing "import" then finish .relativeImport start []
    else finish .relativeImport start [← dottedName .nothing .inner]

/-- Reads an import of names from a module. -/
def importFrom (start : Nat) : Parser Node := do
  if ← atWord .nothing "__future__" then
    word .nothing "__future__"
    word .nothing "import"
    finish .futureImportStatement start (← importedList)
  else
    let module ← importedModule
    word .nothing "import"
    let names ←
      if ← atMark .nothing "*" then do
        let here ← startOf .nothing
        mark .nothing "*"
        pure [← finish .wildcardImport here []]
      else importedList
    finish .importFromStatement start (module.withRole .moduleName :: names)

end DeployManifest.Parser
