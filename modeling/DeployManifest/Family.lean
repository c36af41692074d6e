import DeployManifest.Address.Key

/-! # Trigger families

A family is a set of registration methods under one namespace and its aliases. The tables say which
calls register an endpoint, which options they take, and how their address becomes a key.
-/

namespace DeployManifest

/-- The families of registrations. -/
inductive Family where
  | https
  | callable
  | taskQueue
  | pubSub
  | firestore
  | database
  | storage
  | scheduler
  | eventarc
  | identity
  | remoteConfig
  | testLab
  deriving DecidableEq

namespace Family

def all : List Family :=
  [.https, .callable, .taskQueue, .pubSub, .firestore, .database, .storage, .scheduler, .eventarc,
    .identity, .remoteConfig, .testLab]

/-- The name of the family in messages. -/
def label : Family → String
  | .https => "Https"
  | .callable => "Callable"
  | .taskQueue => "TaskQueue"
  | .pubSub => "PubSub"
  | .firestore => "Firestore"
  | .database => "Database"
  | .storage => "Storage"
  | .scheduler => "Scheduler"
  | .eventarc => "Eventarc"
  | .identity => "Identity"
  | .remoteConfig => "RemoteConfig"
  | .testLab => "TestLab"

/-- The namespace under which messages name the family's methods. -/
def namespaceName : Family → String
  | .https => "https"
  | .callable => "https"
  | .taskQueue => "tasks"
  | .pubSub => "pubsub"
  | .firestore => "firestore"
  | .database => "database"
  | .storage => "storage"
  | .scheduler => "scheduler"
  | .eventarc => "eventarc"
  | .identity => "identity"
  | .remoteConfig => "remoteConfig"
  | .testLab => "testLab"

/-- The other namespace under which the methods are found. -/
def namespaceAlias : Family → String
  | .https => "https_fn"
  | .callable => "https_fn"
  | .taskQueue => "tasks_fn"
  | .pubSub => "pubsub_fn"
  | .firestore => "firestore_fn"
  | .database => "db_fn"
  | .storage => "storage_fn"
  | .scheduler => "scheduler_fn"
  | .eventarc => "eventarc_fn"
  | .identity => "identity_fn"
  | .remoteConfig => "remote_config_fn"
  | .testLab => "test_lab_fn"

def namespaces (f : Family) : List String := [f.namespaceName, f.namespaceAlias]

/-- The methods that register an endpoint of the family. -/
def methods : Family → List String
  | .https => ["onRequest"]
  | .callable => ["onCall"]
  | .taskQueue => ["onTaskDispatched"]
  | .pubSub => ["onMessagePublished"]
  | .firestore =>
    ["onDocumentCreated", "onDocumentUpdated", "onDocumentDeleted", "onDocumentWritten"]
  | .database => ["onValueCreated", "onValueUpdated", "onValueDeleted", "onValueWritten"]
  | .storage =>
    ["onObjectFinalized", "onObjectArchived", "onObjectDeleted", "onObjectMetadataUpdated"]
  | .scheduler => ["onSchedule"]
  | .eventarc => ["onCustomEventPublished"]
  | .identity => ["beforeUserCreated", "beforeUserSignedIn"]
  | .remoteConfig => ["onConfigUpdated"]
  | .testLab => ["onTestMatrixCompleted"]

/-- The keyword of the address, which may also be the first positional argument. -/
def addressKeyword? : Family → Option String
  | .https => some "name"
  | .callable => some "name"
  | .taskQueue => some "name"
  | .pubSub => some "topic"
  | .firestore => some "document"
  | .database => some "reference"
  | .storage => some "bucket"
  | .scheduler => some "schedule"
  | .eventarc => some "eventType"
  | .identity => none
  | .remoteConfig => none
  | .testLab => none

def keyScheme : Family → KeyScheme
  | .https => .explicit
  | .callable => .explicit
  | .taskQueue => .explicit
  | .pubSub => .address
  | .firestore => .address
  | .database => .address
  | .storage => .address
  | .eventarc => .address
  | .scheduler => .schedule
  | .identity => .method
  | .remoteConfig => .method
  | .testLab => .method

/-- The options that every family takes. -/
def baseOptions : List String :=
  ["region", "memory", "cpu", "timeoutSeconds", "minInstances", "maxInstances", "concurrency",
    "serviceAccount", "ingressSettings", "vpcConnector", "vpcConnectorEgressSettings", "labels",
    "secrets", "omit"]

/-- The options that the family takes besides. -/
def triggerOptions : Family → List String
  | .https => ["invoker"]
  | .callable => []
  | .taskQueue =>
    ["invoker", "maxAttempts", "maxRetrySeconds", "minBackoffSeconds", "maxBackoffSeconds",
      "maxDoublings", "maxConcurrentDispatches", "maxDispatchesPerSecond"]
  | .pubSub => ["retry"]
  | .storage => ["retry"]
  | .remoteConfig => ["retry"]
  | .testLab => ["retry"]
  | .firestore => ["retry", "database", "namespace"]
  | .database => ["retry", "instance"]
  | .eventarc => ["retry", "channel", "filters"]
  | .scheduler =>
    ["timeZone", "retryCount", "maxRetrySeconds", "minBackoffSeconds", "maxBackoffSeconds",
      "maxDoublings"]
  | .identity => ["idToken", "accessToken", "refreshToken"]

def accepts (f : Family) (keyword : String) : Bool :=
  baseOptions.contains keyword || f.triggerOptions.contains keyword

/-- An interface of the platform that has to be enabled, and why. -/
structure RequiredApi where
  api : String
  reason : String
  deriving DecidableEq

def requiredApi? : Family → Option RequiredApi
  | .scheduler => some ⟨"cloudscheduler.googleapis.com", "Needed for scheduled functions."⟩
  | .taskQueue => some ⟨"cloudtasks.googleapis.com", "Needed for task queue functions."⟩
  | .identity =>
    some ⟨"identitytoolkit.googleapis.com", "Needed for auth blocking functions."⟩
  | _ => none

/-- The text with a small first letter. -/
def decapitalize : List Char → List Char
  | [] => []
  | c :: cs => c.toLower :: cs

/-- The event type made of a fixed start and what a method says after its own start. -/
def suffixedType? (typeStart methodStart method : String) : Option String :=
  if methodStart.toList.isPrefixOf method.toList then
    some (typeStart
      ++ String.ofList (decapitalize (method.toList.drop methodStart.toList.length)))
  else none

/-- The type of the events that a method listens to; custom events bring theirs as address. -/
def eventType? (f : Family) (method : String) : Option String :=
  match f with
  | .pubSub => some "google.cloud.pubsub.topic.v1.messagePublished"
  | .firestore => suffixedType? "google.cloud.firestore.document.v1." "onDocument" method
  | .database => suffixedType? "google.firebase.database.ref.v1." "onValue" method
  | .storage => suffixedType? "google.cloud.storage.object.v1." "onObject" method
  | .remoteConfig => some "google.firebase.remoteconfig.remoteConfig.v1.updated"
  | .testLab => some "google.firebase.testlab.testMatrix.v1.completed"
  | .identity =>
    match method with
    | "beforeUserCreated" => some "providers/cloud.auth/eventTypes/user.beforeCreate"
    | "beforeUserSignedIn" => some "providers/cloud.auth/eventTypes/user.beforeSignIn"
    | _ => none
  | _ => none

def isEvent : Family → Bool
  | .pubSub => true
  | .firestore => true
  | .database => true
  | .storage => true
  | .eventarc => true
  | .remoteConfig => true
  | .testLab => true
  | _ => false

def find? (space method : String) : Option Family :=
  all.find? fun f => f.namespaces.contains space && f.methods.contains method

end Family

end DeployManifest
