import DeployManifest.Command.Request
import DeployManifest.Command.Summary
import DeployManifest.Compile.Basic
import DeployManifest.Settings.Basic

/-! # Running a command

A command opens a source tree with its settings, compiles it, and writes or shows the result. The
first failure ends it and is told to the user.
-/

namespace DeployManifest

/-- What the environment says. -/
structure Environment where
  /-- The path of the settings, if they are not in the source root. -/
  settings : Option String
  home : Option Path
  /-- Does the terminal have colours? -/
  colours : Bool
  recovery : Recovery

/-- Are colours on? They are forced, or kept off, by variables; otherwise a terminal decides. -/
def Environment.coloured (force no_color colour : Option String) (terminal : Bool) : Bool :=
  if force.any (· != "0") then true
  else if no_color.isSome then false
  else (colour.all (· != "0")) && terminal

/-- Why a command fails. -/
inductive CommandError where
  | missingSource (source : Path)
  | settings (cause : SettingsError)
  | compile (source : Path) (cause : CompileError)
  | write (output : Path) (cause : FileError)

/-- The message with its causes, the first cause last. -/
def CommandError.message (recovery : Recovery) : CommandError → String
  | missingSource source => "Source directory '" ++ source.text ++ "' does not exist"
  | .settings cause => "Invalid configuration: " ++ cause.message
  | compile source cause =>
    let origin :=
      match cause with
      | .unreadable _ e => ": " ++ e.message
      | _ => ""
    "Failed to compile " ++ source.text ++ ": " ++ cause.message recovery ++ origin
  | write output cause =>
    "Failed to write manifest to " ++ output.text ++ ": IO error: " ++ cause.message ++ ": "
      ++ cause.message

/-- A step of a command, which goes on with the session or fails. -/
abbrev Step (α : Type) := ExceptT CommandError (StateM Session) α

namespace Step

def tell (level : MessageLevel) (message : String) : Step Unit := modify (·.tell level message)

def print (text : String) : Step Unit := modify (·.print text)

/-- Opens a source tree: reads its settings and starts its log. -/
def openSource (env : Environment) (flags : Flags) (source : Path) : Step Settings := do
  let s ← get
  if !s.disk.isDirectory source then throw (.missingSource source)
  match Settings.load s.disk env.settings source with
  | .error e => throw (.settings e)
  | .ok settings =>
    match s.configure flags.verbosity flags.quiet (settings.logPath env.home) with
    | .ok s => set s
    | .error e => tell .warn ("Failed to initialize log file: " ++ e.message)
    tell .step ("Source root: " ++ source.text)
    return settings

def compile (settings : Settings) (source : Path) : Step Manifest := do
  tell .debug ("Excluded directories: " ++ ", ".intercalate settings.excludes)
  match Manifest.ofDisk (← get).disk source settings.excludes with
  | .ok m => return m
  | .error e => throw (.compile source e)

def countText (m : Manifest) : String :=
  String.ofList (Numeral.decimal m.endpoints.values.length) ++ " endpoint(s)"

/-- Writes a manifest to a file. -/
def write (m : Manifest) (format : Format) (output : Path) : Step Unit := do
  let s ← get
  let (outcome, disk) := s.disk.replaceFile output (m.render format)
  set { s with disk }
  match outcome with
  | .ok () => tell .success ("Wrote " ++ countText m ++ " to " ++ output.text)
  | .error e => throw (.write output e)

def perform (env : Environment) (flags : Flags) (task : Task) (source : Path) : Step Unit := do
  let settings ← openSource env flags source
  let m ← compile settings source
  match task with
  | .build .stream format => print (m.render (settings.formatOr format))
  | .build (.file path) format =>
    let format := settings.formatOr format
    write m format (settings.outputOr source path format)
  | .check =>
    if !flags.quiet then print (m.summary (← get).console.colours (0 < flags.verbosity))
    tell .success (countText m ++ " compiled from " ++ source.text)
  | .keys => print m.keyList

end Step

namespace Request

def versionText : String := "trigr 0.1.0\n"

def helpText : String :=
  String.join <| List.map (· ++ "\n")
    ["Usage: trigr [-q] [-v]... [--no-color] <build|check|keys> [SOURCE]",
     "",
     "build  Compile the sources and write the manifest",
     "       [-o, --output <PATH>] [-f, --format <yaml|json>] [--stdout]",
     "check  Compile the sources and print a summary without writing anything",
     "keys   List endpoint keys with their source locations"]

/-- Does what is asked for. The result is the exit status, and the session at the end. -/
def answer (env : Environment) (disk : Disk) (time : String) (request : Option Request) :
    UInt32 × Session :=
  let session (colours : Bool) : Session := ⟨disk, .plain colours, time, "", ""⟩
  match request with
  | none => (2, session env.colours)
  | some .help => (0, (session env.colours).print helpText)
  | some .version => (0, (session env.colours).print versionText)
  | some (.run flags task source) =>
    let s := session (env.colours && !flags.noColour)
    let s := { s with console := { s.console with verbosity := flags.verbosity, quiet := flags.quiet } }
    match (Step.perform env flags task (source.getD (.ofText "."))).run.run s with
    | (.ok (), s) => (0, s)
    | (.error e, s) => (1, (s.tell .error (e.message env.recovery)).tellLog)

end Request

end DeployManifest
