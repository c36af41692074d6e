import DeployManifest.Files.Disk
import DeployManifest.Number.Numeral

/-! # Messages to the user

Messages go to the error stream, so that the output stream holds nothing but results. Every message
also goes to the log, if one is kept, whatever is shown; a log that cannot be written is passed over.
-/

namespace DeployManifest

inductive MessageLevel where
  | debug
  | step
  | warn
  | error
  | success
  deriving DecidableEq

/-- How a text stands out on a terminal that has colours: by the codes of its style. -/
structure Style where
  codes : String

namespace Style

def bold (colour : String) : Style := ⟨"1;" ++ colour⟩

def red : String := "31"

def green : String := "32"

def yellow : String := "33"

def blue : String := "34"

def cyan : String := "36"

def dimmed : Style := ⟨"2"⟩

def apply (style : Style) (colours : Bool) (text : String) : String :=
  if colours then "\x1b[" ++ style.codes ++ "m" ++ text ++ "\x1b[0m" else text

end Style

namespace MessageLevel

def tag : MessageLevel → String
  | debug => "DEBUG"
  | step => "STEP"
  | warn => "WARN"
  | error => "ERROR"
  | success => "SUCCESS"

def mark : MessageLevel → String
  | debug => "debug:"
  | step => "trace:"
  | warn => "warning:"
  | error => "error:"
  | success => "✔"

def style : MessageLevel → Style
  | debug => .bold Style.blue
  | step => .dimmed
  | warn => .bold Style.yellow
  | error => .bold Style.red
  | success => .bold Style.green

/-- Is a message of the level shown? Errors always are. -/
def isShown (verbosity : Nat) (quiet : Bool) : MessageLevel → Bool
  | error => true
  | debug => !quiet && 1 ≤ verbosity
  | step => !quiet && 2 ≤ verbosity
  | warn => !quiet
  | success => !quiet

end MessageLevel

structure Console where
  verbosity : Nat
  quiet : Bool
  log : Option Path
  colours : Bool

namespace Console

/-- A console that shows warnings and keeps no log. -/
def plain (colours : Bool) : Console := ⟨0, false, none, colours⟩

/-- The level of details that the verbosity stands for. -/
def detail (c : Console) : String :=
  if c.quiet then "error" else
    match c.verbosity with
    | 0 => "warn"
    | 1 => "debug"
    | _ => "trace"

/-- The shown line of a message, nothing if it is not shown. -/
def shown (c : Console) (level : MessageLevel) (message : String) : String :=
  if level.isShown c.verbosity c.quiet then
    level.style.apply c.colours level.mark ++ " " ++ message ++ "\n"
  else ""

def logLine (time : String) (level : MessageLevel) (message : String) : String :=
  "[" ++ time ++ "] " ++ level.tag ++ " " ++ message ++ "\n"

/-- The line that tells where the log is, nothing if none is kept. -/
def logNotice (c : Console) : String :=
  match c.log with
  | some p => "Log file: " ++ p.text ++ "\n"
  | none => ""

end Console

/-- A run of the program: the files, what is shown, and what has been printed so far. -/
structure Session where
  disk : Disk
  console : Console
  /-- The time as the log gives it. -/
  time : String
  stdout : String
  stderr : String

namespace Session

/-- Why no log can be kept. -/
structure LogError where
  directory : Path
  cause : FileError

def LogError.message (e : LogError) : String :=
  "Failed to create log directory " ++ e.directory.text ++ ": " ++ e.cause.message

def print (s : Session) (text : String) : Session := { s with stdout := s.stdout ++ text }

def tell (s : Session) (level : MessageLevel) (message : String) : Session :=
  let disk :=
    match s.console.log with
    | none => s.disk
    | some p =>
      match s.disk.append p (Console.logLine s.time level message) with
      | .ok d => d
      | .error _ => s.disk
  { s with disk, stderr := s.stderr ++ s.console.shown level message }

/-- Sets what is shown, and where the log is kept from now on. The directory of the log is made;
where it cannot be, nothing is set. -/
def configure (s : Session) (verbosity : Nat) (quiet : Bool) (log : Option Path) :
    Except LogError Session :=
  match log with
  | none => .ok { s with console := { s.console with verbosity, quiet } }
  | some p =>
    let console := { s.console with verbosity, quiet, log := some p }
    match p.directory? with
    | none => .ok { s with console }
    | some directory =>
      match s.disk.makeDirectory directory with
      | .ok disk => .ok { s with disk, console }
      | .error cause => .error ⟨directory, cause⟩

def tellLog (s : Session) : Session := { s with stderr := s.stderr ++ s.console.logNotice }

end Session

end DeployManifest
