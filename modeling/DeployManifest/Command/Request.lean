import DeployManifest.Files.Path
import DeployManifest.Manifest.Format

/-! # The command line

What the user asks for. Flags may stand in front of the task or behind it; the options of a task stand
behind it. Short ones may share a hyphen, and the last of them may carry its value. Behind two hyphens
alone everything is a source.
-/

namespace DeployManifest

structure Flags where
  quiet : Bool
  verbose : Nat
  noColour : Bool

def Flags.verbosity (f : Flags) : Nat := if f.quiet then 0 else f.verbose

/-- Where the manifest goes: to a file, perhaps of a given path, or to the output stream. -/
inductive Destination where
  | file (path : Option Path)
  | stream

/-- What is to be done with the manifest of a source tree. -/
inductive Task where
  /-- Writes the manifest. -/
  | build (destination : Destination) (format : Option Format)
  /-- Prints a summary. -/
  | check
  /-- Prints the keys and where they are defined. -/
  | keys

/-- What the user asks for. -/
inductive Request where
  | help
  | version
  | run (flags : Flags) (task : Task) (source : Option Path)

namespace Request

/-- Why the arguments are read no further. -/
inductive Stop where
  | usage
  | help
  | version

/-- A flag without a value. -/
inductive Switch where
  | quiet
  | verbose
  | noColour
  | stdout
  | help
  | version

inductive Valued where
  | output
  | format

/-- The tasks, by which the known flags and options differ. -/
inductive Command where
  | build
  | check
  | keys

/-- What has been given so far. -/
structure Given where
  quiet : Bool
  verbose : Nat
  noColour : Bool
  stdout : Bool
  output : Option Path
  format : Option Format
  source : Option Path

def Given.nothing : Given := ⟨false, 0, false, false, none, none, none⟩

/-- The flag of a long name, in front of the task or behind it. -/
def longSwitch? (command : Option Command) (name : String) : Option Switch :=
  match name, command with
  | "quiet", _ => some .quiet
  | "verbose", _ => some .verbose
  | "no-color", _ => some .noColour
  | "help", _ => some .help
  | "version", none => some .version
  | "stdout", some .build => some .stdout
  | _, _ => none

def shortSwitch? (command : Option Command) (letter : Char) : Option Switch :=
  match letter, command with
  | 'q', _ => some .quiet
  | 'v', _ => some .verbose
  | 'h', _ => some .help
  | 'V', none => some .version
  | _, _ => none

def longValued? (command : Option Command) (name : String) : Option Valued :=
  match name, command with
  | "output", some .build => some .output
  | "format", some .build => some .format
  | _, _ => none

def shortValued? (command : Option Command) (letter : Char) : Option Valued :=
  match letter, command with
  | 'o', some .build => some .output
  | 'f', some .build => some .format
  | _, _ => none

/-- Sets a flag that has not been set yet. -/
def once (already : Bool) (g : Given) : Except Stop Given :=
  if already then .error .usage else .ok g

namespace Given

/-- Sets a flag. Only the one for more detail may be repeated. -/
def switch (g : Given) : Switch → Except Stop Given
  | .quiet => once g.quiet { g with quiet := true }
  | .verbose => .ok { g with verbose := g.verbose + 1 }
  | .noColour => once g.noColour { g with noColour := true }
  | .stdout => once g.stdout { g with stdout := true }
  | .help => .error .help
  | .version => .error .version

def set (g : Given) (option : Valued) (value : String) : Except Stop Given :=
  match option with
  | .output =>
    if value.isEmpty then .error .usage
    else once g.output.isSome { g with output := some (.ofText value) }
  | .format =>
    match Format.parse? value with
    | some f => once g.format.isSome { g with format := some f }
    | none => .error .usage

def setSource (g : Given) (value : String) : Except Stop Given :=
  if value.isEmpty then .error .usage
  else once g.source.isSome { g with source := some (.ofText value) }

end Given

/-- Reads letters that share a hyphen. An option takes the rest as its value, behind an equals sign or
not; where nothing is left it waits for one. -/
def letters (command : Option Command) (g : Given) : List Char → Except Stop (Given × Option Valued)
  | [] => .ok (g, none)
  | c :: cs =>
    match shortSwitch? command c with
    | some s => (g.switch s).bind fun g => letters command g cs
    | none =>
      match shortValued? command c, cs with
      | none, _ => .error .usage
      | some option, [] => .ok (g, some option)
      | some option, '=' :: value => (g.set option (String.ofList value)).map (·, none)
      | some option, value => (g.set option (String.ofList value)).map (·, none)

def long (command : Option Command) (g : Given) (cs : List Char) :
    Except Stop (Given × Option Valued) :=
  let name := String.ofList (cs.takeWhile (· != '='))
  let value := (cs.dropWhile (· != '=')).tail?.map String.ofList
  match longSwitch? command name, longValued? command name, value with
  | some s, _, none => (g.switch s).map (·, none)
  | none, some option, some value => (g.set option value).map (·, none)
  | none, some option, none => .ok (g, some option)
  | _, _, _ => .error .usage

/-- Can the argument be the value of the option in front of it? -/
def isValue (arg : String) : Bool :=
  match arg.toList with
  | '-' :: _ :: _ => false
  | _ => true

/-- Reads the arguments behind a task. `sources` says that two hyphens alone have been passed. -/
def afterTask (command : Command) (sources : Bool) (g : Given) : List String → Except Stop Given
  | [] => .ok g
  | arg :: args =>
    let further (read : Except Stop (Given × Option Valued)) : Except Stop Given :=
      match read, args with
      | .error stop, _ => .error stop
      | .ok (g, none), args => afterTask command false g args
      | .ok (_, some _), [] => .error .usage
      | .ok (g, some option), value :: args =>
        if isValue value then (g.set option value).bind fun g => afterTask command false g args
        else .error .usage
    if sources then (g.setSource arg).bind fun g => afterTask command true g args
    else
      match arg.toList with
      | ['-', '-'] => afterTask command true g args
      | '-' :: '-' :: cs => further (long command g cs)
      | '-' :: c :: cs => further (letters command g (c :: cs))
      | _ => (g.setSource arg).bind fun g => afterTask command false g args

def command? : String → Option Command
  | "build" => some .build
  | "check" => some .check
  | "keys" => some .keys
  | _ => none

/-- The task with its options. A path for the manifest and the output stream exclude each other. -/
def taskOf (command : Command) (g : Given) : Except Stop Task :=
  match command with
  | .build =>
    if g.stdout then
      if g.output.isSome then .error .usage else .ok (.build .stream g.format)
    else .ok (.build (.file g.output) g.format)
  | .check => .ok .check
  | .keys => .ok .keys

/-- The flags given in front of the task and behind it. -/
def flagsOf (before after : Given) : Flags :=
  ⟨before.quiet || after.quiet, if after.verbose = 0 then before.verbose else after.verbose,
    before.noColour || after.noColour⟩

/-- Does the help go on to a topic that there is? -/
def isTopic (args : List String) : Bool :=
  match args with
  | [] => true
  | [name] => (command? name).isSome || name == "help"
  | _ => false

def read (g : Given) : List String → Except Stop Request
  | [] => .error .usage
  | arg :: args =>
    match arg.toList with
    | ['-', '-'] => .error .usage
    | '-' :: '-' :: cs => (long none g cs).bind fun (g, _) => read g args
    | '-' :: c :: cs => (letters none g (c :: cs)).bind fun (g, _) => read g args
    | _ =>
      match command? arg with
      | some command => do
        let after ← afterTask command false .nothing args
        return .run (flagsOf g after) (← taskOf command after) after.source
      | none => if arg == "help" && isTopic args then .error .help else .error .usage

/-- What the arguments ask for, if they make sense. -/
def ofArguments (args : List String) : Option Request :=
  match read .nothing args with
  | .ok r => some r
  | .error .help => some .help
  | .error .version => some .version
  | .error .usage => none

end Request

end DeployManifest
