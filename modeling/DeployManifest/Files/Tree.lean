import DeployManifest.Files.Path
import DeployManifest.KeyMap

/-! # Trees of files

A tree of files is a file with its bytes, or a directory whose entries have names and stand in
ascending order. A place in the tree is the list of the names on the way to it.
-/

namespace DeployManifest

/-- A file, or a directory with its entries. -/
inductive FileTree where
  | file (content : ByteArray)
  | directory (entries : List (FileName × FileTree))

namespace FileTree

def isDirectory : FileTree → Bool
  | file _ => false
  | directory _ => true

def entry? (name : FileName) : FileTree → Option FileTree
  | file _ => none
  | directory entries => KeyMap.get? name entries

def at? : List FileName → FileTree → Option FileTree
  | [], t => some t
  | name :: names, t => (t.entry? name).bind (at? names)

/-- The tree with something put at a place, whose directory has to be there. -/
def put? : FileTree → List FileName → FileTree → Option FileTree
  | _, [], new => some new
  | file _, _ :: _, _ => none
  | directory entries, [name], new => some (directory (KeyMap.insert name new entries))
  | directory entries, name :: names, new =>
    match KeyMap.get? name entries with
    | none => none
    | some t => (put? t names new).map fun t => directory (KeyMap.insert name t entries)

def remove : List FileName → FileTree → FileTree
  | [], t => t
  | _ :: _, file content => file content
  | [name], directory entries => directory (entries.filter (·.1 != name))
  | name :: names, directory entries =>
    match KeyMap.get? name entries with
    | none => directory entries
    | some t => directory (KeyMap.insert name (remove names t) entries)

mutual

/-- The files of the tree with their places. -/
def files : FileTree → List (List FileName × ByteArray)
  | file content => [([], content)]
  | directory entries => filesOf entries

def filesOf : List (FileName × FileTree) → List (List FileName × ByteArray)
  | [] => []
  | (name, t) :: rest => (files t).map (fun f => (name :: f.1, f.2)) ++ filesOf rest

end

end FileTree

end DeployManifest
