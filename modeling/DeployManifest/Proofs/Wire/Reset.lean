import DeployManifest.Proofs.Options.Reset
import DeployManifest.Proofs.Wire.Trigger
import DeployManifest.Proofs.Wire.Without

/-! # Fields of options that are reset

Each option is written in one place of an endpoint (`Family.optionPath`): in a field of its own, in
a group of fields, or in the trigger. With the option reset the endpoint is written without that
place, and nothing else of it changes, be it an option of every endpoint
(`BaseOptions.isWithout_of_endpoint`) or one of the trigger (`TriggerSource.trigger_reset`).
-/

namespace DeployManifest

open Outcome Document

/-! ### Where options are written -/

/-- Where an option of every endpoint is written. -/
def BaseOptions.path : String → List String
  | "memory" => ["availableMemoryMb"]
  | "serviceAccount" => ["serviceAccountEmail"]
  | "vpcConnector" => ["vpc", "connector"]
  | "vpcConnectorEgressSettings" => ["vpc", "egressSettings"]
  | "secrets" => ["secretEnvironmentVariables"]
  | keyword => [keyword]

/-- Where an option of a trigger is written in it. -/
def Trigger.path : String → List String
  | "maxAttempts" => ["retryConfig", "maxAttempts"]
  | "retryCount" => ["retryConfig", "retryCount"]
  | "maxRetrySeconds" => ["retryConfig", "maxRetrySeconds"]
  | "minBackoffSeconds" => ["retryConfig", "minBackoffSeconds"]
  | "maxBackoffSeconds" => ["retryConfig", "maxBackoffSeconds"]
  | "maxDoublings" => ["retryConfig", "maxDoublings"]
  | "maxConcurrentDispatches" => ["rateLimits", "maxConcurrentDispatches"]
  | "maxDispatchesPerSecond" => ["rateLimits", "maxDispatchesPerSecond"]
  | "idToken" => ["options", "idToken"]
  | "accessToken" => ["options", "accessToken"]
  | "refreshToken" => ["options", "refreshToken"]
  | "database" => ["eventFilters", "database"]
  | "namespace" => ["eventFilters", "namespace"]
  | "instance" => ["eventFilterPathPatterns", "instance"]
  | "filters" => ["eventFilters"]
  | keyword => [keyword]

namespace Family

/-- The field of an endpoint that holds the trigger. -/
def triggerName : Family → String
  | .https => "httpsTrigger"
  | .callable => "callableTrigger"
  | .taskQueue => "taskQueueTrigger"
  | .scheduler => "scheduleTrigger"
  | .identity => "blockingTrigger"
  | _ => "eventTrigger"

/-- Where an option of the family is written in an endpoint. -/
def optionPath (family : Family) (keyword : String) : List String :=
  if baseOptions.contains keyword then BaseOptions.path keyword
  else family.triggerName :: Trigger.path keyword

example : taskQueue.optionPath "maxAttempts" =
    ["taskQueueTrigger", "retryConfig", "maxAttempts"] := by decide

/-- Options of every endpoint are written beside the trigger. -/
theorem path_of_base {keyword : String} (shared : keyword ∈ baseOptions) :
    ∃ name path, BaseOptions.path keyword = name :: path ∧ name ∉ Trigger.wireNames := by
  simp only [baseOptions, List.mem_cons, List.not_mem_nil, or_false] at shared
  rcases shared with rfl | rfl | rfl | rfl | rfl | rfl | rfl | rfl | rfl | rfl | rfl | rfl | rfl |
    rfl <;> exact ⟨_, _, rfl, by decide⟩

theorem exists_path (keyword : String) : ∃ name path, Trigger.path keyword = name :: path := by
  unfold Trigger.path
  split <;> exact ⟨_, _, rfl⟩

/-- The options of events that are not custom ones. -/
theorem option_of_isEvent (family : Family) : family.isEvent = true → family ≠ .eventarc →
    ∀ keyword ∈ family.triggerOptions,
      keyword ∈ ["retry", "database", "namespace", "instance"] := by
  cases family <;> decide

end Family

/-! ### Groups -/

namespace Setting

variable {name : String} {setting : Option Setting}

@[simp] theorem field_reset : field name (some .reset) = [] := rfl

theorem field_present? : field name (present? setting) = field name setting := by
  rcases setting with _ | (_ | _ | _ | _) <;> rfl

theorem field_eq_nil_iff : field name setting = [] ↔ isOmitted setting = true := by
  rw [isOmitted_eq_true_iff, field]
  cases present? setting <;> simp [field?]

end Setting

namespace Retry

/-- The fields of the group. -/
def entries (attemptsName : String) (r : Retry) : List (String × Document) :=
  Setting.field attemptsName r.attempts
    ++ Setting.field "maxRetrySeconds" r.maxRetrySeconds
    ++ Setting.field "minBackoffSeconds" r.minBackoffSeconds
    ++ Setting.field "maxBackoffSeconds" r.maxBackoffSeconds
    ++ Setting.field "maxDoublings" r.maxDoublings

theorem field?_orNone (attemptsName : String) (r : Retry) :
    field? "retryConfig" (document attemptsName) r.orNone =
      groupField "retryConfig" (r.entries attemptsName) := by
  refine field?_ite (by decide) rfl ?_
  simp only [isEmpty, entries, Bool.and_eq_true, List.append_eq_nil_iff, Setting.field_eq_nil_iff]

end Retry

namespace RateLimits

/-- The fields of the group. -/
def entries (limits : RateLimits) : List (String × Document) :=
  Setting.field "maxConcurrentDispatches" limits.maxConcurrentDispatches
    ++ Setting.field "maxDispatchesPerSecond" limits.maxDispatchesPerSecond

theorem field?_orNone (limits : RateLimits) :
    field? "rateLimits" document limits.orNone = groupField "rateLimits" limits.entries := by
  refine field?_ite (by decide) rfl ?_
  simp only [isEmpty, entries, Bool.and_eq_true, List.append_eq_nil_iff, Setting.field_eq_nil_iff]

end RateLimits

namespace KeyMap

variable {α : Type} {write : α → Document} {map map' : KeyMap α}

/-- The fields of a map. -/
def entries (write : α → Document) (map : KeyMap α) : List (String × Document) :=
  map.map fun entry => (entry.1, write entry.2)

theorem field_eq_groupField {name : String} (group : name ∉ Trigger.wireNames) :
    field name write map = groupField name (entries write map) := by
  rw [groupField_of_not_trigger group, field]
  cases map <;> rfl

@[simp] theorem entries_nil : entries write ([] : KeyMap α) = [] := rfl

@[simp] theorem entries_cons {key : String} {value : α} :
    entries write ((key, value) :: map) = (key, write value) :: entries write map := rfl

@[simp] theorem entries_append :
    entries write (map ++ map') = entries write map ++ entries write map' := List.map_append ..

/-- Entries of one name go with it, and only with it. -/
theorem fieldsWithout_entries {keyword name : String} (named : ∀ entry ∈ map, entry.1 = name) :
    fieldsWithout [keyword] (entries write map) =
      entries write (if keyword = name then [] else map) := by
  have names : ∀ field ∈ entries write map, field.1 = name := by
    simpa only [entries, List.forall_mem_map] using named
  split
  · rename_i same
    exact List.filter_eq_nil_iff.mpr fun field member => by simp [names field member, same]
  · rename_i different
    refine fieldsWithout_of_ne fun field member => ?_
    rw [names field member]
    exact Ne.symm different

end KeyMap

/-! ### Triggers -/

namespace Trigger

variable {keyword : String}

theorem document_schedule (cron : String) (timeZone : Option Setting) (r : Retry) :
    (schedule cron timeZone r.orNone).document = .record (
      [("schedule", .text cron)] ++ Setting.field "timeZone" timeZone
        ++ groupField "retryConfig" (r.entries "retryCount")) := by
  rw [← r.field?_orNone]
  rfl

theorem document_taskQueue (r : Retry) (limits : RateLimits) (invoker : Option Setting) :
    (taskQueue r.orNone limits.orNone invoker).document = .record (
      groupField "retryConfig" (r.entries "maxAttempts")
        ++ groupField "rateLimits" limits.entries ++ Setting.field "invoker" invoker) := by
  rw [← r.field?_orNone, ← limits.field?_orNone]
  rfl

theorem document_blocking (eventType : String) (tokens : KeyMap Setting) :
    (blocking eventType tokens).document = .record (
      [("eventType", .text eventType)]
        ++ groupField "options" (KeyMap.entries Setting.document tokens)) := by
  rw [← KeyMap.field_eq_groupField (by decide)]
  rfl

theorem document_event (filter : EventFilter) :
    (event filter).document = .record (
      [("eventType", .text filter.eventType)]
        ++ groupField "eventFilters" (KeyMap.entries .text filter.filters)
        ++ groupField "eventFilterPathPatterns" (KeyMap.entries .text filter.patterns)
        ++ field? "channel" .text filter.channel
        ++ Setting.field "retry" filter.retry) := by
  rw [← KeyMap.field_eq_groupField (by decide), ← KeyMap.field_eq_groupField (by decide)]
  rfl

theorem schedule_reset (cron : String) (timeZone : Option Setting) (r : Retry)
    (own : keyword ∈ Family.triggerOptions .scheduler) :
    (schedule cron (Setting.resetAt keyword "timeZone" timeZone)
        (r.reset keyword "retryCount").orNone).document =
      (schedule cron timeZone r.orNone).document.without (path keyword) := by
  simp only [Family.triggerOptions, List.mem_cons, List.not_mem_nil, or_false] at own
  rw [document_schedule, document_schedule]
  rcases own with rfl | rfl | rfl | rfl | rfl | rfl <;>
    simp [Document.without, path, Retry.reset, Retry.entries]

theorem taskQueue_reset (r : Retry) (concurrent perSecond invoker : Option Setting)
    (own : keyword ∈ Family.triggerOptions .taskQueue) :
    (taskQueue (r.reset keyword "maxAttempts").orNone
        (RateLimits.mk (Setting.resetAt keyword "maxConcurrentDispatches" concurrent)
          (Setting.resetAt keyword "maxDispatchesPerSecond" perSecond)).orNone
        (Setting.resetAt keyword "invoker" invoker)).document =
      (taskQueue r.orNone (RateLimits.mk concurrent perSecond).orNone invoker).document.without
        (path keyword) := by
  simp only [Family.triggerOptions, List.mem_cons, List.not_mem_nil, or_false] at own
  rw [document_taskQueue, document_taskQueue]
  rcases own with rfl | rfl | rfl | rfl | rfl | rfl | rfl | rfl <;>
    simp [Document.without, path, Retry.reset, Retry.entries, RateLimits.entries]

theorem blocking_reset {eventType : String} {idToken accessToken refreshToken : KeyMap Setting}
    (idNamed : ∀ entry ∈ idToken, entry.1 = "idToken")
    (accessNamed : ∀ entry ∈ accessToken, entry.1 = "accessToken")
    (refreshNamed : ∀ entry ∈ refreshToken, entry.1 = "refreshToken")
    (own : keyword ∈ Family.triggerOptions .identity) :
    (blocking eventType ((if keyword = "accessToken" then [] else accessToken)
        ++ (if keyword = "idToken" then [] else idToken)
        ++ (if keyword = "refreshToken" then [] else refreshToken))).document =
      (blocking eventType (accessToken ++ idToken ++ refreshToken)).document.without
        (path keyword) := by
  simp only [Family.triggerOptions, List.mem_cons, List.not_mem_nil, or_false] at own
  rw [document_blocking, document_blocking]
  rcases own with rfl | rfl | rfl <;>
    simp [Document.without, path, KeyMap.fieldsWithout_entries idNamed,
      KeyMap.fieldsWithout_entries accessNamed, KeyMap.fieldsWithout_entries refreshNamed]

end Trigger

namespace TriggerSource

variable {s : TriggerSource} {options' : OptionSet} {keyword name : String}

theorem name_of_mem_token {entries : KeyMap Setting} (made : s.read (.token name) = .ok entries) :
    ∀ entry ∈ entries, entry.1 = name := fun _ member => ((mem_token_iff made).mp member).1

/-- The events that are listened to have the same filter, without what is reset. -/
theorem listens_reset (resets : s.options.Resets options' keyword)
    (event : s.family.isEvent = true) (own : keyword ∈ s.family.triggerOptions)
    {retry : Option Setting} {filter : EventFilter} (listens : s.Listens retry filter) :
    ∃ filter', (s.withOptions options').Listens (Setting.resetAt keyword "retry" retry) filter' ∧
      (Trigger.event filter').document =
        (Trigger.event filter).document.without (Trigger.path keyword) := by
  cases listens with
  | topic family addressed =>
    refine ⟨_, .topic family addressed, ?_⟩
    obtain rfl : keyword = "retry" := by simpa [family, Family.triggerOptions] using own
    simp [Trigger.document_event, Document.without, Trigger.path]
  | bucket family addressed =>
    refine ⟨_, .bucket family addressed, ?_⟩
    obtain rfl : keyword = "retry" := by simpa [family, Family.triggerOptions] using own
    simp [Trigger.document_event, Document.without, Trigger.path]
  | document family addressed read exact databaseGiven spaceGiven =>
    refine ⟨_, .document family addressed read exact (filterOr_reset resets databaseGiven)
      (filterOr_reset resets spaceGiven), ?_⟩
    have databaseNamed := name_of_mem_filterOr databaseGiven
    have spaceNamed := name_of_mem_filterOr spaceGiven
    simp only [family, Family.triggerOptions, List.mem_cons, List.not_mem_nil, or_false] at own
    rcases own with rfl | rfl | rfl <;>
      simp [Trigger.document_event, Document.without, Trigger.path,
        KeyMap.fieldsWithout_entries databaseNamed, KeyMap.fieldsWithout_entries spaceNamed]
  | documents family addressed read captures databaseGiven spaceGiven =>
    refine ⟨_, .documents family addressed read captures (filterOr_reset resets databaseGiven)
      (filterOr_reset resets spaceGiven), ?_⟩
    have databaseNamed := name_of_mem_filterOr databaseGiven
    have spaceNamed := name_of_mem_filterOr spaceGiven
    simp only [family, Family.triggerOptions, List.mem_cons, List.not_mem_nil, or_false] at own
    rcases own with rfl | rfl | rfl <;>
      simp [Trigger.document_event, Document.without, Trigger.path,
        KeyMap.fieldsWithout_entries databaseNamed, KeyMap.fieldsWithout_entries spaceNamed]
  | reference family addressed read instGiven =>
    refine ⟨_, .reference family addressed read (filterOr_reset resets instGiven), ?_⟩
    have instNamed := name_of_mem_filterOr instGiven
    simp only [family, Family.triggerOptions, List.mem_cons, List.not_mem_nil, or_false] at own
    rcases own with rfl | rfl <;>
      simp [Trigger.document_event, Document.without, Trigger.path,
        KeyMap.fieldsWithout_entries instNamed]
  | custom family filtersGiven channelGiven =>
    refine ⟨_, .custom family (resets.convert (fun _ => rfl) filtersGiven)
      (resets.convert (fun _ => rfl) channelGiven), ?_⟩
    have emptied : groupField "eventFilters" [] = [] := rfl
    have unset : field? "channel" text none = [] := rfl
    simp only [family, Family.triggerOptions, List.mem_cons, List.not_mem_nil, or_false] at own
    rcases own with rfl | rfl | rfl <;>
      simp [Trigger.document_event, Document.without, Trigger.path, emptied, unset]
  | all custom unaddressed =>
    refine ⟨_, .all custom unaddressed, ?_⟩
    have known := Family.option_of_isEvent s.family event custom keyword own
    simp only [List.mem_cons, List.not_mem_nil, or_false] at known
    rcases known with rfl | rfl | rfl | rfl <;>
      simp [Trigger.document_event, Document.without, Trigger.path]

theorem wireName_of_makes {t : Trigger} (makes : s.Makes t) :
    t.wireName = s.family.triggerName := by
  cases makes with
  | https family | callable family | taskQueue family | schedule family | blocking family =>
    rw [family]
    rfl
  | event family =>
    cases ofFamily : s.family <;> first | rfl | (rw [ofFamily] at family; cases family)

/-- When an option of the trigger is reset, its field is gone from the trigger, and nothing else. -/
theorem trigger_reset (resets : s.options.Resets options' keyword)
    (own : keyword ∈ s.family.triggerOptions) {t : Trigger} (made : s.trigger = .ok t) :
    ∃ t', (s.withOptions options').trigger = .ok t' ∧ t'.wireName = t.wireName ∧
      t'.document = t.document.without (Trigger.path keyword) := by
  have triggered {t' : Trigger} (makes : (s.withOptions options').Makes t') :
      (s.withOptions options').trigger = .ok t' := trigger_of_makes makes
  cases makes_of_trigger made with
  | https family invoker =>
    refine ⟨_, triggered (.https family (invoker_reset resets invoker)), rfl, ?_⟩
    obtain rfl : keyword = "invoker" := by simpa [family, Family.triggerOptions] using own
    simp [Trigger.document, Document.without, Trigger.path]
  | callable family =>
    rw [family] at own
    cases own
  | taskQueue family retry concurrent perSecond invoker =>
    rw [family] at own
    exact ⟨_, triggered (.taskQueue family (repeats_reset resets retry)
      (typed_reset resets concurrent) (typed_reset resets perSecond)
      (invoker_reset resets invoker)), rfl, Trigger.taskQueue_reset _ _ _ _ own⟩
  | schedule family retry timeZone =>
    rw [family] at own
    exact ⟨_, triggered (.schedule family (repeats_reset resets retry)
      (typed_reset resets timeZone)), rfl, Trigger.schedule_reset _ _ _ own⟩
  | blocking family idToken accessToken refreshToken =>
    rw [family] at own
    exact ⟨_, triggered (.blocking family (token_reset resets idToken)
      (token_reset resets accessToken) (token_reset resets refreshToken)), rfl,
      Trigger.blocking_reset (name_of_mem_token idToken) (name_of_mem_token accessToken)
        (name_of_mem_token refreshToken) own⟩
  | event family retry listens =>
    obtain ⟨filter', listens', left⟩ := listens_reset resets family own listens
    rw [← Setting.resetAt_or] at listens'
    exact ⟨_, triggered (.event family (typed_reset resets retry) listens'), rfl, left⟩

end TriggerSource

/-! ### Endpoints -/

namespace BaseOptions

variable {base : BaseOptions} {location : Location} {vpc : Option Vpc}

/-- The network settings are a group: where there is no connector, there is no egress. -/
theorem field?_vpc (made : base.vpc location = .ok vpc) :
    field? "vpc" Endpoint.vpcDocument vpc = groupField "vpc"
      (Setting.field "connector" base.vpcConnector
        ++ Setting.field "egressSettings" base.vpcEgress) := by
  obtain ⟨needed, rfl⟩ := vpc_eq_ok_iff.mp made
  have egressField : Setting.field "egressSettings" (Setting.present? base.vpcEgress) =
      Setting.field "egressSettings" base.vpcEgress := Setting.field_present?
  cases connector : Setting.present? base.vpcConnector with
  | some c =>
    have connectorField : Setting.field "connector" base.vpcConnector =
        [("connector", c.document)] := by
      rw [Setting.field, connector]
      rfl
    rw [connectorField, ← egressField]
    rfl
  | none =>
    have egress : Setting.present? base.vpcEgress = none := by
      rw [connector] at needed
      cases egress : Setting.present? base.vpcEgress with
      | none => rfl
      | some v => cases needed v egress
    rw [Setting.field, Setting.field, connector, egress]
    rfl

end BaseOptions

namespace Endpoint

variable {e e' : Endpoint} {name next : String} {path : List String}

@[simp] theorem fieldsWithout_secrets_self {secrets : List String} :
    fieldsWithout ["secretEnvironmentVariables"] (secretsField secrets) = [] := by
  cases secrets <;> simp [secretsField, fieldsWithout]

@[simp] theorem fieldsWithout_secrets_of_ne {secrets : List String}
    (other : "secretEnvironmentVariables" ≠ name) :
    fieldsWithout (name :: path) (secretsField secrets) = secretsField secrets :=
  fieldsWithout_of_ne <| by cases secrets <;> simp [secretsField, other]

/-- The second endpoint is the first without what is written under a path. -/
structure IsWithout (e' : Endpoint) (path : List String) (e : Endpoint) : Prop where
  key : e'.key = e.key
  location : e'.location = e.location
  document : e'.document = e.document.without path
  gone : ¬ e'.document.Has path

theorem document_without_entry (other : name ∉ Trigger.wireNames)
    (left : e'.entries = fieldsWithout (name :: path) e.entries) (same : e'.trigger = e.trigger) :
    e'.document = e.document.without (name :: path) := by
  have apart := Trigger.wireName_ne (t := e.trigger) other
  rw [document_eq, document_eq, left, same, Document.without, fieldsWithout_append,
    fieldsWithout_cons_of_ne apart, fieldsWithout_nil]

theorem fieldsWithout_entries (trigger : name ∈ Trigger.wireNames) :
    fieldsWithout (name :: path) e.entries = e.entries := by
  simp only [Trigger.wireNames, List.mem_cons, List.not_mem_nil, or_false] at trigger
  rcases trigger with rfl | rfl | rfl | rfl | rfl | rfl <;> simp [entries]

theorem document_without_trigger (same : e'.entries = e.entries)
    (named : e'.trigger.wireName = e.trigger.wireName)
    (left : e'.trigger.document = e.trigger.document.without (name :: path)) :
    e'.document = e.document.without (e.trigger.wireName :: name :: path) := by
  obtain ⟨inner, whole⟩ : ∃ inner, e.trigger.document = .record inner := by
    cases e.trigger <;> exact ⟨_, rfl⟩
  rw [document_eq, document_eq, same, named, left, whole, Document.without, Document.without,
    fieldsWithout_append, fieldsWithout_entries e.trigger.wireName_mem, fieldsWithout_record,
    groupField_trigger e.trigger.wireName_mem]

/-- An endpoint with another trigger. -/
theorem isWithout_of_trigger {t : Trigger} {keyword : String}
    (named : t.wireName = e.trigger.wireName)
    (left : t.document = e.trigger.document.without (Trigger.path keyword)) :
    ({ e with trigger := t } : Endpoint).IsWithout
      (e.trigger.wireName :: Trigger.path keyword) e := by
  let e' : Endpoint := { e with trigger := t }
  obtain ⟨name, path, place⟩ := Family.exists_path keyword
  rw [place] at left ⊢
  have document : e'.document = e.document.without (e.trigger.wireName :: name :: path) :=
    document_without_trigger rfl named left
  exact ⟨rfl, rfl, document, document ▸ Document.not_has_without _ _ _⟩

end Endpoint

namespace BaseOptions

variable {base : BaseOptions} {keyword key entryPoint : String} {location : Location}
  {trigger : Trigger} {e : Endpoint}

/-- The entries of an endpoint are those of the options that it is made of. -/
theorem entries_of_endpoint (made : base.endpoint key entryPoint location trigger = .ok e) :
    e.entries =
      [("entryPoint", .text entryPoint), ("platform", .text Endpoint.platform)]
        ++ Setting.field "region" (some (base.region.getD defaultRegion))
        ++ Setting.field "availableMemoryMb" base.memory
        ++ Setting.field "cpu" base.cpu
        ++ Setting.field "timeoutSeconds" base.timeoutSeconds
        ++ Setting.field "minInstances" base.minInstances
        ++ Setting.field "maxInstances" base.maxInstances
        ++ Setting.field "concurrency" base.concurrency
        ++ Setting.field "serviceAccountEmail" base.serviceAccount
        ++ Setting.field "ingressSettings" base.ingressSettings
        ++ groupField "vpc" (Setting.field "connector" base.vpcConnector
          ++ Setting.field "egressSettings" base.vpcEgress)
        ++ Setting.field "labels" base.labels
        ++ Endpoint.secretsField (base.secrets.getD [])
        ++ Setting.field "omit" base.omitted := by
  simp only [endpoint, bind_eq_ok_iff, pure_eq_ok_iff] at made
  obtain ⟨vpc, vpcMade, rfl⟩ := made
  rw [← field?_vpc vpcMade]
  rfl

/-- Where an option of every endpoint is reset, its field is gone from the endpoint, and nothing
else. -/
theorem entries_reset {e' : Endpoint} (shared : keyword ∈ Family.baseOptions)
    (made : base.endpoint key entryPoint location trigger = .ok e)
    (made' : (base.reset keyword).endpoint key entryPoint location trigger = .ok e') :
    e'.entries = fieldsWithout (path keyword) e.entries := by
  rw [entries_of_endpoint made, entries_of_endpoint made']
  simp only [Family.baseOptions, List.mem_cons, List.not_mem_nil, or_false] at shared
  have noSecrets : Endpoint.secretsField [] = [] := rfl
  rcases shared with rfl | rfl | rfl | rfl | rfl | rfl | rfl | rfl | rfl | rfl | rfl | rfl | rfl |
    rfl <;> simp [path, reset, noSecrets]

/-- An endpoint with one of its options reset. -/
theorem isWithout_of_endpoint {e' : Endpoint} (shared : keyword ∈ Family.baseOptions)
    (made : base.endpoint key entryPoint location trigger = .ok e)
    (made' : (base.reset keyword).endpoint key entryPoint location trigger = .ok e') :
    e'.IsWithout (path keyword) e := by
  obtain ⟨sameKey, -, sameLocation, sameTrigger⟩ := of_endpoint made
  obtain ⟨sameKey', -, sameLocation', sameTrigger'⟩ := of_endpoint made'
  obtain ⟨name, path, place, beside⟩ := Family.path_of_base shared
  have left := entries_reset shared made made'
  rw [place] at left ⊢
  have document := Endpoint.document_without_entry beside left
    (sameTrigger'.trans sameTrigger.symm)
  exact ⟨sameKey'.trans sameKey.symm, sameLocation'.trans sameLocation.symm, document,
    document ▸ Document.not_has_without _ _ _⟩

end BaseOptions

end DeployManifest
