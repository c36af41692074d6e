import DeployManifest.Value.Setting

/-! # Triggers

A trigger says what invokes an endpoint: a request, a call from a client, an event, a blocking
sign-in event, a schedule, or a task queue. A group of settings is written only if it is there, and
a setting only if it is not reset.
-/

namespace DeployManifest

structure Retry where
  attempts : Option Setting
  maxRetrySeconds : Option Setting
  minBackoffSeconds : Option Setting
  maxBackoffSeconds : Option Setting
  maxDoublings : Option Setting

structure RateLimits where
  maxConcurrentDispatches : Option Setting
  maxDispatchesPerSecond : Option Setting

/-- The events that an endpoint listens to: their type, attributes with fixed values, and attributes
that have to match a path pattern. -/
structure EventFilter where
  eventType : String
  filters : KeyMap String
  patterns : KeyMap String
  channel : Option String
  retry : Option Setting

inductive Trigger where
  | https (invoker : Option Setting)
  | callable
  | event (filter : EventFilter)
  | blocking (eventType : String) (tokens : KeyMap Setting)
  | schedule (cron : String) (timeZone : Option Setting) (retry : Option Retry)
  | taskQueue (retry : Option Retry) (limits : Option RateLimits) (invoker : Option Setting)

namespace Retry

/-- Is every setting missing or reset? -/
def isEmpty (r : Retry) : Bool :=
  Setting.isOmitted r.attempts && Setting.isOmitted r.maxRetrySeconds
    && Setting.isOmitted r.minBackoffSeconds && Setting.isOmitted r.maxBackoffSeconds
    && Setting.isOmitted r.maxDoublings

/-- The group as plain data; the number of attempts has a name of its own for each trigger. -/
def document (attemptsName : String) (r : Retry) : Document :=
  .record (
    Setting.field attemptsName r.attempts
      ++ Setting.field "maxRetrySeconds" r.maxRetrySeconds
      ++ Setting.field "minBackoffSeconds" r.minBackoffSeconds
      ++ Setting.field "maxBackoffSeconds" r.maxBackoffSeconds
      ++ Setting.field "maxDoublings" r.maxDoublings)

def orNone (r : Retry) : Option Retry := if r.isEmpty then none else some r

end Retry

namespace RateLimits

def isEmpty (r : RateLimits) : Bool :=
  Setting.isOmitted r.maxConcurrentDispatches && Setting.isOmitted r.maxDispatchesPerSecond

def document (r : RateLimits) : Document :=
  .record (
    Setting.field "maxConcurrentDispatches" r.maxConcurrentDispatches
      ++ Setting.field "maxDispatchesPerSecond" r.maxDispatchesPerSecond)

def orNone (r : RateLimits) : Option RateLimits := if r.isEmpty then none else some r

end RateLimits

def KeyMap.document {α : Type} (write : α → Document) (map : KeyMap α) : Document :=
  .record (map.map fun entry => (entry.1, write entry.2))

/-- A field holding a map, left out when the map is empty. -/
def KeyMap.field {α : Type} (name : String) (write : α → Document) (map : KeyMap α) :
    List (String × Document) :=
  if map.isEmpty then [] else [(name, KeyMap.document write map)]

namespace Trigger

/-- The name of the manifest field that holds the trigger. -/
def wireName : Trigger → String
  | .https _ => "httpsTrigger"
  | .callable => "callableTrigger"
  | .event _ => "eventTrigger"
  | .blocking _ _ => "blockingTrigger"
  | .schedule _ _ _ => "scheduleTrigger"
  | .taskQueue _ _ _ => "taskQueueTrigger"

/-- The type of the events that invoke the endpoint. -/
def eventType? : Trigger → Option String
  | .event filter => some filter.eventType
  | .blocking eventType _ => some eventType
  | _ => none

def document : Trigger → Document
  | .https invoker => .record (Setting.field "invoker" invoker)
  | .callable => .record []
  | .event filter =>
    .record (
      [("eventType", .text filter.eventType)]
        ++ KeyMap.field "eventFilters" .text filter.filters
        ++ KeyMap.field "eventFilterPathPatterns" .text filter.patterns
        ++ Document.field? "channel" .text filter.channel
        ++ Setting.field "retry" filter.retry)
  | .blocking eventType tokens =>
    .record (
      [("eventType", .text eventType)] ++ KeyMap.field "options" Setting.document tokens)
  | .schedule cron timeZone retry =>
    .record (
      [("schedule", .text cron)]
        ++ Setting.field "timeZone" timeZone
        ++ Document.field? "retryConfig" (Retry.document "retryCount") retry)
  | .taskQueue retry limits invoker =>
    .record (
      Document.field? "retryConfig" (Retry.document "maxAttempts") retry
        ++ Document.field? "rateLimits" RateLimits.document limits
        ++ Setting.field "invoker" invoker)

end Trigger

end DeployManifest
