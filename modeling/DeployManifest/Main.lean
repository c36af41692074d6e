import DeployManifest.Command.Run
import Std.Time.Format

/-! # The program

Reads the part of the file system that a request is about, has the request answered on it, and writes
back what has changed.
-/

namespace DeployManifest.Main

/-- The tree at a real path. Excluded directories stay empty, of the files only sources are read, and
links are passed over. -/
partial def readTree (exclude : List String) (path : String) : IO FileTree := do
  let found ← ((← IO.currentDir) / path).readDir
  let entries ← found.toList.filterMapM fun entry => do
    let name := entry.fileName
    let below := path ++ "/" ++ name
    match (← entry.path.symlinkMetadata).type with
    | .dir =>
      if exclude.contains name then return some (Text.bytes name, FileTree.directory [])
      return some (Text.bytes name, ← readTree exclude below)
    | .file =>
      let name := Text.bytes name
      let content ← if isSourceName name then IO.FS.readBinFile below else pure .empty
      return some (name, FileTree.file content)
    | _ => return none
  return .directory (KeyMap.ofList entries)

def load (d : Disk) (p : Path) : IO Disk := do
  let real := (← IO.currentDir) / p.text
  if ← real.isDir then return (d.makeDirectory p).toOption.getD d
  if !(← real.pathExists) then return d
  let content ← IO.FS.readBinFile real
  return ((d.target p).bind fun place => d.putFile place content).toOption.getD d

def loadAlong (d : Disk) (p : Path) : IO Disk :=
  let ways := (List.range p.parts.length).map fun n =>
    Path.ofNames (p.parts.take (n + 1))
  (ways.filter fun way => !way.bytes.isEmpty).foldlM load d

def loadSource (d : Disk) (exclude : List String) (source : Path) : IO Disk := do
  let d ← loadAlong d source
  match d.place source with
  | .error _ => return d
  | .ok place =>
    if !d.isDirectory source then return d
    let t ← readTree exclude source.text
    return { d with root := (d.root.put? place t).getD d.root }

/-- The paths that a task is about, apart from the source tree. -/
def pathsOf (env : Environment) (settings : Settings) (task : Task) (source : Path) : List Path :=
  let output :=
    match task with
    | .build (.file path) format => [settings.outputOr source path (settings.formatOr format)]
    | _ => []
  Settings.path env.settings source :: (settings.logPath env.home).toList ++ output

def loadRequest (env : Environment) (d : Disk) (request : Option Request) : IO Disk := do
  match request with
  | some (.run _ task source) =>
    let source := source.getD (.ofText ".")
    let found ← loadAlong d (Settings.path env.settings source)
    let settings := (Settings.load found env.settings source).toOption.getD .none
    let d ← loadSource d settings.excludes source
    (pathsOf env settings task source).foldlM loadAlong d
  | _ => return d

partial def store (path : String) (before : Option FileTree) (now : FileTree) : IO Unit := do
  match before, now with
  | some (.file content), .file changed =>
    if content != changed then IO.FS.writeBinFile path changed
  | _, .file content => IO.FS.writeBinFile path content
  | before, .directory entries =>
    if !before.any (·.isDirectory) then IO.FS.createDirAll path
    for (name, t) in entries do
      store (path ++ "/" ++ Text.lossy name) (before.bind fun t => t.entry? name) t
    if let some (.directory old) := before then
      for (name, _) in old do
        if (KeyMap.get? name entries).isNone then IO.FS.removeFile (path ++ "/" ++ Text.lossy name)

def environment : IO Environment := do
  let terminal ← (← IO.getStdout).isTty
  return {
    settings := ← IO.getEnv "TRIGR_CONFIG"
    home := ((← IO.getEnv "HOME").filter (!·.isEmpty)).map .ofText
    colours := Environment.coloured (← IO.getEnv "CLICOLOR_FORCE") (← IO.getEnv "NO_COLOR")
      (← IO.getEnv "CLICOLOR") terminal
    recovery := .whole }

/-- The disk that holds no more than the way to the working directory. -/
def workingDirectory : IO Disk := do
  let here := Path.ofText (toString (← IO.currentDir))
  let d := Disk.mk (.directory []) []
  let d := (d.makeDirectory here).toOption.getD d
  return { d with here := here.parts.filter (!·.isEmpty) }

/-- Does what the arguments ask for, and tells how to ask where they make no sense. The result is the
exit status. -/
def run (args : List String) : IO UInt32 := do
  let env ← environment
  let time := (← Std.Time.PlainDateTime.now).format "uuuu-MM-dd HH:mm:ss"
  let request := Request.ofArguments args
  let d ← loadRequest env (← workingDirectory) request
  let (status, s) := Request.answer env d time request
  store "" (some d.root) s.disk.root
  IO.print s.stdout
  IO.eprint (if request.isNone then Request.helpText else s.stderr)
  return status

end DeployManifest.Main

def main (args : List String) : IO UInt32 := DeployManifest.Main.run args
