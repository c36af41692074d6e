import DeployManifest.Endpoint.Trigger
import DeployManifest.Options.Filling

/-! # Triggers of registrations

The trigger that a registration stands for, made of its family, its method, its address and the
options of its family. Only the platform's own defaults are filled in.
-/

namespace DeployManifest

namespace Filling

def invoker : Filling (Option Setting) := option "invoker" Field.stringList

/-- The repetition settings, with the number of attempts under its own name. -/
def retry (attemptsName : String) : Filling Retry := do
  let attempts ← typed attemptsName .int
  let maxRetrySeconds ← typed "maxRetrySeconds" .int
  let minBackoffSeconds ← typed "minBackoffSeconds" .int
  let maxBackoffSeconds ← typed "maxBackoffSeconds" .int
  let maxDoublings ← typed "maxDoublings" .int
  return ⟨attempts, maxRetrySeconds, minBackoffSeconds, maxBackoffSeconds, maxDoublings⟩

def taskQueue : Filling Trigger := do
  let retry ← retry "maxAttempts"
  let concurrent ← typed "maxConcurrentDispatches" .int
  let perSecond ← typed "maxDispatchesPerSecond" .number
  let invoker ← invoker
  return .taskQueue retry.orNone (RateLimits.mk concurrent perSecond).orNone invoker

def schedule (cron : String) : Filling Trigger := do
  let retry ← retry "retryCount"
  let timeZone ← typed "timeZone" .string
  return .schedule cron timeZone retry.orNone

/-- Is a token passed on, or may it be? -/
def isPassed : Setting → Bool
  | .literal (.bool b) => b
  | .literal _ => false
  | .param _ => true
  | .choice _ _ _ => true
  | .reset => false

/-- The entry of a token; none unless it is passed on. -/
def token (name : String) : Filling (KeyMap Setting) := do
  return ((← typed name .boolean).filter isPassed).toList.map fun value => (name, value)

def blocking (eventType : String) : Filling Trigger := do
  let idToken ← token "idToken"
  let accessToken ← token "accessToken"
  let refreshToken ← token "refreshToken"
  return .blocking eventType (accessToken ++ idToken ++ refreshToken)

/-- The entry of a filter; a default if the option is missing, none if it is reset. -/
def filterOr (name default : String) : Filling (KeyMap String) := do
  let text ← option name Field.filterText
  return (text.getD (some default)).toList.map fun text => (name, text)

def pattern (address : Address) : Except CompileError PathPattern :=
  (PathPattern.parse address.value).mapError fun cause =>
    .invalidPattern address.location address.value cause

/-- The events of a document; one with captures is a pattern. -/
def firestore (address : Address) (filter : EventFilter) : Filling EventFilter := do
  let document ← ofOutcome (pattern address)
  let database ← filterOr "database" "(default)"
  let space ← filterOr "namespace" "(default)"
  let entry : KeyMap String := [("document", document.text)]
  if document.hasCaptures then
    return { filter with filters := database ++ space, patterns := entry }
  else return { filter with filters := database ++ entry ++ space }

/-- The events of a reference, in one or all instances. -/
def database (address : Address) (filter : EventFilter) : Filling EventFilter := do
  let reference ← ofOutcome (pattern address)
  let inst ← filterOr "instance" "*"
  return { filter with patterns := inst ++ [("ref", reference.text)] }

/-- Custom events with filters on a channel. -/
def eventarc (filter : EventFilter) : Filling EventFilter := do
  let filters ← option "filters" Field.stringMap
  let channel ← option "channel" Field.filterText
  return { filter with filters := filters.getD [], channel := channel.join }

def event (family : Family) (address : Option Address) (eventType : String) : Filling Trigger := do
  let retry ← typed "retry" .boolean
  let filter : EventFilter := ⟨eventType, [], [], none, retry.or (some (.bool false))⟩
  match family, address with
  | .pubSub, some topic => return .event { filter with filters := [("topic", topic.value)] }
  | .storage, some bucket => return .event { filter with filters := [("bucket", bucket.value)] }
  | .firestore, some address => return .event (← firestore address filter)
  | .database, some address => return .event (← database address filter)
  | .eventarc, _ => return .event (← eventarc filter)
  | _, _ => return .event filter

def trigger (family : Family) (address : Option Address) (eventType : String) : Filling Trigger :=
  match family with
  | .https => do return .https (← invoker)
  | .callable => return .callable
  | .taskQueue => taskQueue
  | .scheduler => schedule ((address.map (·.value)).getD "")
  | .identity => blocking eventType
  | _ => event family address eventType

end Filling

/-- What a trigger is made of. -/
structure TriggerSource where
  family : Family
  method : String
  address : Option Address
  options : OptionSet
  params : ParamTable

namespace TriggerSource

def eventType (s : TriggerSource) : String :=
  match s.family, s.address with
  | .eventarc, some address => address.value
  | .eventarc, none => ""
  | family, _ => (family.eventType? s.method).getD ""

/-- What a program makes of the options of the registration. -/
def read {α : Type} (s : TriggerSource) (p : Filling α) : Except CompileError α :=
  p.read s.params s.options

def trigger (s : TriggerSource) : Except CompileError Trigger :=
  s.read (.trigger s.family s.address s.eventType)

end TriggerSource

end DeployManifest
