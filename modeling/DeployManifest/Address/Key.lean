import DeployManifest.Text.Blank

/-! # Manifest keys

The key of an endpoint is the name under which it was registered, or its method followed by what is
left of its address. The compiler and the dispatcher both derive keys by these functions.
-/

namespace DeployManifest

inductive KeyScheme where
  /-- The address is the key. -/
  | explicit
  /-- The method and the address of the resource. -/
  | address
  /-- The method and the schedule. -/
  | schedule
  /-- The method alone. -/
  | method
  deriving DecidableEq

namespace KeyScheme

def keeps (c : Char) : Bool := c.isAlphanum || c == '_'

/-- What becomes of a character of an address, if anything. -/
def addressChar? (c : Char) : Option Char :=
  if c = '/' ∨ c = '-' ∨ c = '.' ∨ c = ' ' then some '_' else if keeps c then some c else none

def scheduleChar? (c : Char) : Option Char :=
  if c = ' ' ∨ c = '-' then some '_' else if keeps c then some c else none

/-- The part of a key that stands for an address: outer slashes go, separators become underscores,
braces and everything else that no key holds is dropped. -/
def sanitizeAddress (address : String) : String :=
  String.ofList ((Text.stripEnds (· == '/') address.toList).filterMap addressChar?)

def sanitizeSchedule (schedule : String) : String :=
  String.ofList (schedule.toList.filterMap scheduleChar?)

/-- The method with a part after an underscore, or alone if the part is empty. -/
def join (method part : String) : String :=
  if part.isEmpty then method else method ++ "_" ++ part

def key (scheme : KeyScheme) (method : String) (address : Option String) : String :=
  match scheme, address with
  | .explicit, some name => name
  | .address, some resource => join method (sanitizeAddress resource)
  | .schedule, some cron => join method (sanitizeSchedule cron)
  | _, _ => method

end KeyScheme

end DeployManifest
