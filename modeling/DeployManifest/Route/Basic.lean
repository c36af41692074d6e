import DeployManifest.Address.Pattern
import DeployManifest.Manifest.Basic

/-! # Routing

A dispatcher maps an inbound event or request to the key of the endpoint that handles it. The key of
an event endpoint follows from its trigger alone, so a manifest whose keys disagree with their
triggers is refused.
-/

namespace DeployManifest

def capitalize : List Char → List Char
  | [] => []
  | c :: cs => c.toUpper :: cs

namespace EventFilter

/-- The key of a method and the address that an attribute holds, as a pattern or as a value. -/
def addressKey (filter : EventFilter) (method name : String) : String :=
  KeyScheme.address.key method
    ((filter.patterns.get? name).or (filter.filters.get? name))

/-- The families whose method follows the end of the event type: the start of the type, the start
of the method, and the attribute with the address. -/
def suffixedFamilies : List (String × String × String) :=
  [("google.cloud.firestore.document.v1.", "onDocument", "document"),
    ("google.firebase.database.ref.v1.", "onValue", "ref"),
    ("google.cloud.storage.object.v1.", "onObject", "bucket")]

def suffixedKey? (filter : EventFilter) : List (String × String × String) → Option String
  | [] => none
  | (typeStart, methodStart, name) :: rest =>
    match Text.after? typeStart.toList filter.eventType.toList with
    | some action =>
      some (filter.addressKey (methodStart ++ String.ofList (capitalize action)) name)
    | none => suffixedKey? filter rest

/-- The key of an event endpoint. Custom events are addressed by their type. -/
def key (filter : EventFilter) : String :=
  if filter.eventType = "google.cloud.pubsub.topic.v1.messagePublished" then
    filter.addressKey "onMessagePublished" "topic"
  else if filter.eventType = "google.firebase.remoteconfig.remoteConfig.v1.updated" then
    "onConfigUpdated"
  else if filter.eventType = "google.firebase.testlab.testMatrix.v1.completed" then
    "onTestMatrixCompleted"
  else
    match filter.suffixedKey? suffixedFamilies with
    | some key => key
    | none => KeyScheme.address.key "onCustomEventPublished" (some filter.eventType)

end EventFilter

namespace Trigger

/-- The key that follows from a trigger; triggers under a name of their own give none. -/
def key? : Trigger → Option String
  | .https _ => none
  | .callable => none
  | .taskQueue _ _ _ => none
  | .schedule cron _ _ => some (KeyScheme.schedule.key "onSchedule" (some cron))
  | .blocking eventType _ =>
    if eventType = "providers/cloud.auth/eventTypes/user.beforeCreate" then
      some "beforeUserCreated"
    else if eventType = "providers/cloud.auth/eventTypes/user.beforeSignIn" then
      some "beforeUserSignedIn"
    else none
  | .event filter => some filter.key

end Trigger

/-- An event as it is delivered: its type and the attributes of its resource. -/
structure InboundEvent where
  eventType : String
  attributes : KeyMap String

structure EventRoute where
  key : String
  eventType : String
  filters : KeyMap String
  patterns : List (String × PathPattern)

/-- Where an event goes, and the values of the captures on the way. -/
structure RouteMatch where
  key : String
  params : KeyMap String
  deriving DecidableEq

/-- Why a manifest has no route table. -/
inductive RouteError where
  /-- The key of an endpoint is not the one that follows from its trigger. -/
  | keyMismatch (key derived : String)
  | invalidPattern (pattern : String) (cause : PatternError)
  deriving DecidableEq

def RouteError.message : RouteError → String
  | .keyMismatch key derived =>
    "Endpoint '" ++ key ++ "' does not match its trigger; the dispatcher derives '" ++ derived
      ++ "'"
  | .invalidPattern pattern cause =>
    "Invalid path pattern '" ++ pattern ++ "': " ++ cause.reason

namespace EventRoute

/-- The bindings of all patterns together; a name bound by several keeps the last value. -/
def bindings? (event : InboundEvent) : List (String × PathPattern) → KeyMap String →
    Option (KeyMap String)
  | [], bound => some bound
  | (name, pattern) :: patterns, bound =>
    match event.attributes.get? name with
    | none => none
    | some value =>
      match pattern.match? value with
      | none => none
      | some captures => bindings? event patterns (bound.union captures)

/-- The values of the captures, when the route accepts the event: the type and every filter are
equal and every pattern matches. -/
def match? (route : EventRoute) (event : InboundEvent) : Option (KeyMap String) :=
  if route.eventType = event.eventType
      && route.filters.all fun entry => event.attributes.get? entry.1 == some entry.2 then
    bindings? event route.patterns []
  else none

end EventRoute

/-- The endpoints of a manifest by how they are invoked. -/
structure RouteTable where
  events : List EventRoute
  /-- The keys that requests are sent to, each once. -/
  http : List String

namespace RouteTable

/-- Reads the patterns of a filter. The first one that is none decides the error. -/
def readPatterns (patterns : KeyMap String) : Except RouteError (List (String × PathPattern)) :=
  patterns.mapM fun entry =>
    match PathPattern.parse entry.2 with
    | .ok pattern => .ok (entry.1, pattern)
    | .error cause => .error (.invalidPattern entry.2 cause)

/-- The table with one more endpoint under a key. -/
def add (table : RouteTable) (entry : String × Endpoint) : Except RouteError RouteTable :=
  match entry.2.trigger.key? with
  | some derived =>
    if derived = entry.1 then route entry.2.trigger else .error (.keyMismatch entry.1 derived)
  | none => route entry.2.trigger
where
  /-- Enters the key by the trigger; schedules and queues invoke their endpoints directly. -/
  route : Trigger → Except RouteError RouteTable
    | .https _ => .ok { table with http := table.http.insert entry.1 }
    | .callable => .ok { table with http := table.http.insert entry.1 }
    | .event filter =>
      match readPatterns filter.patterns with
      | .ok patterns =>
        .ok { table with
          events := table.events ++ [⟨entry.1, filter.eventType, filter.filters, patterns⟩] }
      | .error e => .error e
    | .blocking eventType _ =>
      .ok { table with events := table.events ++ [⟨entry.1, eventType, [], []⟩] }
    | .schedule _ _ _ => .ok table
    | .taskQueue _ _ _ => .ok table

def ofManifest (m : Manifest) : Except RouteError RouteTable :=
  m.endpoints.entries.foldlM add ⟨[], []⟩

/-- The first endpoint, in manifest order, whose trigger accepts the event. -/
def route? (table : RouteTable) (event : InboundEvent) : Option RouteMatch :=
  table.events.findSome? fun route =>
    (route.match? event).map fun params => ⟨route.key, params⟩

/-- The endpoint that a request path starts with. -/
def routeHttp? (table : RouteTable) (path : String) : Option String :=
  let first := (path.toList.dropWhile (· == '/')).takeWhile (· != '/')
  table.http.find? fun key => key.toList == first

/-- How many endpoints are routed to. -/
def size (table : RouteTable) : Nat := table.events.length + table.http.length

end RouteTable

end DeployManifest
