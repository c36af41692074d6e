import DeployManifest.Files.Tree

/-! # Disks

A disk is a tree of files with a working directory, from which relative paths are read. An operation
gives the disk afterwards, or the reason why nothing was changed. `replaceFile` is the exception: it
works in several steps, and tells both the outcome and the disk.
-/

namespace DeployManifest

/-- Why an operation on files fails. -/
inductive FileError where
  | notFound
  | busy
  | exists
  | notADirectory
  | isADirectory
  /-- The bytes of the file are no text. -/
  | notText
  deriving DecidableEq

/-- The message of the platform. -/
def FileError.message : FileError → String
  | notFound => "No such file or directory (os error 2)"
  | busy => "Device or resource busy (os error 16)"
  | .exists => "File exists (os error 17)"
  | notADirectory => "Not a directory (os error 20)"
  | isADirectory => "Is a directory (os error 21)"
  | notText => "stream did not contain valid UTF-8"

/-- A tree of files, and the place of the working directory. -/
structure Disk where
  root : FileTree
  here : List FileName

namespace Disk

/-- Does a part of a path lead nowhere else? -/
def isStill (part : FileName) : Bool := part == [] || part == [Path.point]

def isBack (part : FileName) : Bool := part == [Path.point, Path.point]

/-- Follows the parts of a path from a place. Every part but the last has to be a directory. -/
def follow (root : FileTree) (place : List FileName) :
    List FileName → Except FileError (List FileName)
  | [] => .ok place
  | part :: parts =>
    match root.at? place with
    | none => .error .notFound
    | some (.file _) => .error .notADirectory
    | some (.directory entries) =>
      if isStill part then follow root place parts
      else if isBack part then follow root place.dropLast parts
      else
        match KeyMap.get? part entries with
        | none => .error .notFound
        | some _ => follow root (place ++ [part]) parts

def start (d : Disk) (p : Path) : List FileName := if p.isAbsolute then [] else d.here

/-- The place that a path leads to, where there is something. -/
def place (d : Disk) (p : Path) : Except FileError (List FileName) :=
  if p.bytes.isEmpty then .error .notFound else follow d.root (d.start p) p.parts

def find (d : Disk) (p : Path) : Except FileError FileTree :=
  (d.place p).bind fun place =>
    match d.root.at? place with
    | some t => .ok t
    | none => .error .notFound

def isDirectory (d : Disk) (p : Path) : Bool :=
  match d.find p with
  | .ok t => t.isDirectory
  | .error _ => false

def contains (d : Disk) (p : Path) : Bool :=
  match d.find p with
  | .ok _ => true
  | .error _ => false

def readText (d : Disk) (p : Path) : Except FileError String :=
  (d.find p).bind fun t =>
    match t with
    | .directory _ => .error .isADirectory
    | .file content =>
      match String.fromUTF8? content with
      | some s => .ok s
      | none => .error .notText

/-- The place that a path names, whether something is there or not; its directory is there. -/
def target (d : Disk) (p : Path) : Except FileError (List FileName) :=
  let parts := p.parts
  match parts.getLast? with
  | none => .error .notFound
  | some name =>
    if p.bytes.isEmpty then .error .notFound
    else if isStill name || isBack name then .error .isADirectory
    else
      (follow d.root (d.start p) parts.dropLast).bind fun place =>
        match d.root.at? place with
        | some (.directory _) => .ok (place ++ [name])
        | _ => .error .notADirectory

/-- The disk with a file put at a place that is no directory. -/
def putFile (d : Disk) (place : List FileName) (content : ByteArray) : Except FileError Disk :=
  match d.root.at? place with
  | some (.directory _) => .error .isADirectory
  | _ =>
    match d.root.put? place (.file content) with
    | some root => .ok { d with root }
    | none => .error .notFound

/-- Writes a file; one that is there is written anew. -/
def write (d : Disk) (p : Path) (text : String) : Except FileError Disk :=
  (d.target p).bind fun place => d.putFile place text.toUTF8

/-- Writes at the end of a file, which is made if it is not there. -/
def append (d : Disk) (p : Path) (text : String) : Except FileError Disk :=
  (d.target p).bind fun place =>
    match d.root.at? place with
    | some (.file content) => d.putFile place (content ++ text.toUTF8)
    | _ => d.putFile place text.toUTF8

/-- Makes the directories on a way that are not there. -/
def makeAlong (root : FileTree) (place : List FileName) : List FileName → Except FileError FileTree
  | [] => .ok root
  | part :: parts =>
    if isStill part then makeAlong root place parts
    else if isBack part then makeAlong root place.dropLast parts
    else
      match root.at? (place ++ [part]) with
      | some (.directory _) => makeAlong root (place ++ [part]) parts
      | some (.file _) => .error (if parts.all isStill then .exists else .notADirectory)
      | none =>
        match root.put? (place ++ [part]) (.directory []) with
        | some root => makeAlong root (place ++ [part]) parts
        | none => .error .notADirectory

/-- Makes a directory, and those it lies in. -/
def makeDirectory (d : Disk) (p : Path) : Except FileError Disk :=
  (makeAlong d.root (d.start p) p.parts).map fun root => { d with root }

def makeParent (d : Disk) (p : Path) : Except FileError Disk :=
  match p.directory? with
  | some parent => d.makeDirectory parent
  | none => .ok d

/-- The place that a file can be moved to. -/
def moveTarget (d : Disk) (p : Path) : Except FileError (List FileName) :=
  match (p.parts.reverse.dropWhile (·.isEmpty)).head? with
  | none => .error (if p.bytes.isEmpty then .notFound else .busy)
  | some last =>
    if isStill last || isBack last then .error .busy
    else if p.bytes.getLast? == some Path.slash then .error .notADirectory
    else d.target p

/-- Moves a file; a file at its new place is lost. -/
def move (d : Disk) (source p : Path) : Except FileError Disk := do
  let origin ← d.place source
  let place ← d.moveTarget p
  match d.root.at? origin with
  | some (.file content) =>
    let d ← d.putFile place content
    return if origin = place then d else { d with root := d.root.remove origin }
  | _ => throw .notFound

/-- Removes a file, if one is there. -/
def removeFile (d : Disk) (p : Path) : Disk :=
  match d.target p with
  | .error _ => d
  | .ok place =>
    match d.root.at? place with
    | some (.file _) => { d with root := d.root.remove place }
    | _ => d

/-! ### Whole writes -/

/-- The path of the file that is written before it takes the place of another. -/
def temporary (p : Path) : Path := p.append ".tmp"

inductive WriteStep where
  | makeParent
  | write
  | move
  deriving DecidableEq

/-- A step that fails although nothing on the disk is in its way, and the disk that it leaves. -/
structure Accident where
  step : WriteStep
  cause : FileError
  left : Disk

/-- Does a step, unless it fails by accident. -/
def attempt (d : Disk) (accident : Option Accident) (step : WriteStep)
    (act : Disk → Except FileError Disk) : Except FileError Unit × Disk :=
  match accident.filter (·.step = step) with
  | some a => (.error a.cause, a.left)
  | none =>
    match act d with
    | .error e => (.error e, d)
    | .ok d => (.ok (), d)

/-- Writes a file under the other name, which is then changed. -/
def writeAndMove (d : Disk) (p : Path) (text : String) (accident : Option Accident) :
    Except FileError Unit × Disk :=
  match d.attempt accident .write (·.write (temporary p) text) with
  | (.error e, d) => (.error e, d)
  | (.ok (), d) => d.attempt accident .move (·.move (temporary p) p)

/-- Writes a file whole or not at all. If a step behind the making of directories fails, the file
under the other name is removed. -/
def replaceFile (d : Disk) (p : Path) (text : String) (accident : Option Accident := none) :
    Except FileError Unit × Disk :=
  match d.attempt accident .makeParent (·.makeParent p) with
  | (.error e, d) => (.error e, d)
  | (.ok (), d) =>
    match d.writeAndMove p text accident with
    | (.error e, d) => (.error e, d.removeFile (temporary p))
    | (.ok (), d) => (.ok (), d)

end Disk

end DeployManifest
