import DeployManifest.Files.Disk
import DeployManifest.Source.Module

/-! # The modules of a source tree

The modules below a source root are the files with the extension of sources, apart from those in
excluded directories. They stand in the order of the walk: entries of a directory by name, and what
a directory holds in its place.
-/

namespace DeployManifest

/-- The directories that are passed over if nothing else is said. -/
def defaultExcludes : List String := [".git", ".venv", "venv", "__pycache__", "node_modules"]

/-- Is a file of this name a module? An extension alone is no name. -/
def isSourceName (name : FileName) : Bool :=
  (Text.bytes ".py").isSuffixOf name && 3 < name.length

/-- Is a name among those of directories that are passed over? Those are texts. -/
def isExcluded (exclude : List String) (name : FileName) : Bool :=
  exclude.any fun text => Text.ofBytes? name == some text

namespace FileTree

mutual

/-- The modules in something with a name, as the names on the way. -/
def sources (exclude : List String) (name : FileName) : FileTree → List (List FileName)
  | file _ => if isSourceName name then [[name]] else []
  | directory entries =>
    if isExcluded exclude name then [] else (sourcesOf exclude entries).map (name :: ·)

def sourcesOf (exclude : List String) : List (FileName × FileTree) → List (List FileName)
  | [] => []
  | (name, t) :: rest => sources exclude name t ++ sourcesOf exclude rest

end

end FileTree

/-- A module that has been found: its name, and the path to read it from. -/
structure SourceFile where
  name : String
  path : Path

/-- A file named by its path below a root. -/
def SourceFile.ofPath (root path : Path) : SourceFile := ⟨root.nameBelow path, path⟩

namespace Disk

/-- The modules below a source root, which may also be a single file. The root is never excluded. -/
def sources (d : Disk) (root : Path) (exclude : List String) :
    Except FileError (List SourceFile) :=
  (d.find root).map fun t =>
    match t with
    | .file _ => if isSourceName root.fileName then [.ofPath root root] else []
    | .directory entries =>
      (FileTree.sourcesOf exclude entries).map fun names => .ofPath root (root.join (.ofNames names))

def readSource (d : Disk) (file : SourceFile) : Except FileError SourceModule :=
  (d.readText file.path).map fun text => ⟨file.name, text.toList⟩

end Disk

end DeployManifest
