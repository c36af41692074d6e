import DeployManifest.Files.Source
import DeployManifest.Manifest.Format
import DeployManifest.Settings.Toml

/-! # Settings of a source tree

A source tree may have a file of settings: where the manifest goes and in what form, which
directories are passed over, and where the log is kept. What is said on the command line comes
first, then the settings, then the defaults.
-/

namespace DeployManifest

/-- The settings of a source tree; those that are not made are missing. -/
structure Settings where
  output : Option Path
  format : Option Format
  exclude : Option (List String)
  logFile : Option Path

inductive SettingsError where
  | unreadable (path : Path) (cause : FileError)
  | invalid (path : Path)
  deriving DecidableEq

def SettingsError.message : SettingsError → String
  | unreadable path cause => "Failed to read " ++ path.text ++ ": " ++ cause.message
  | invalid path => "Invalid config " ++ path.text ++ ": TOML parse error"

namespace Settings

def none : Settings := ⟨.none, .none, .none, .none⟩

def format? : String → Option Format
  | "yaml" => some .yaml
  | "json" => some .json
  | _ => .none

/-- The settings with one more; each is made at most once. -/
def add? (s : Settings) (entry : String × Toml.Value) : Option Settings :=
  match entry with
  | ("output", .text t) =>
    if s.output.isNone then some { s with output := some (.ofText t) } else .none
  | ("format", .text t) =>
    if s.format.isNone then (format? t).map fun f => { s with format := some f } else .none
  | ("exclude", .texts items) =>
    if s.exclude.isNone then some { s with exclude := some items } else .none
  | ("log_file", .text t) =>
    if s.logFile.isNone then some { s with logFile := some (.ofText t) } else .none
  | _ => .none

def parse? (cs : List Char) : Option Settings :=
  (Toml.entries? cs).bind fun entries => entries.foldlM add? none

/-- The name of the file of settings in a source root. -/
def fileName : String := "trigr.toml"

/-- The path of the settings of a source root, which the environment may name. -/
def path (named : Option String) (source : Path) : Path :=
  match named with
  | some name =>
    match Text.trim name.toList with
    | [] => source.join (.ofText fileName)
    | cs => .ofText (String.ofList cs)
  | .none => source.join (.ofText fileName)

def read (d : Disk) (p : Path) : Except SettingsError Settings :=
  match d.readText p with
  | .error e => .error (.unreadable p e)
  | .ok text =>
    match parse? text.toList with
    | some s => .ok s
    | .none => .error (.invalid p)

/-- Reads the settings of a source root; without a file there are none. -/
def load (d : Disk) (named : Option String) (source : Path) : Except SettingsError Settings :=
  let p := path named source
  if d.contains p then read d p else .ok none

def formatOr (s : Settings) (chosen : Option Format) : Format :=
  (chosen.or s.format).getD .yaml

def outputOr (s : Settings) (source : Path) (chosen : Option Path) (format : Format) : Path :=
  match chosen with
  | some p => p
  | .none => source.join (s.output.getD (.ofText ("functions." ++ format.name)))

def excludes (s : Settings) : List String := s.exclude.getD defaultExcludes

/-- The path of the log; a tilde as its first part stands for the home directory. -/
def logPath (s : Settings) (home : Option Path) : Option Path :=
  match s.logFile with
  | .none => .none
  | some p =>
    match p.after? (Text.bytes "~") with
    | .none => some p
    | some rest => home.map (·.join rest)

end Settings

end DeployManifest
