import DeployManifest.Options.Trigger
import DeployManifest.Proofs.Options.Filling

/-! # What triggers are made of

All that a trigger can be, by the family of its registration (`makes_of_trigger`). Each case names
the options that went into it and how they were converted, so nothing later has to look at the
builders again. Where the parts are there, so is the trigger (`trigger_of_makes`).
-/

namespace DeployManifest.TriggerSource

open Outcome

variable {α β : Type} {s : TriggerSource}

/-- An option of a type. -/
def typed (s : TriggerSource) (name : String) (type : FieldType) :
    Except CompileError (Option Setting) := s.options.typed s.params name type

/-! ### Programs on the options of a registration -/

@[simp] theorem read_bind (p : Filling α) (f : α → Filling β) :
    s.read (p >>= f) = s.read p >>= fun value => s.read (f value) := Filling.read_bind ..

@[simp] theorem read_pure (value : α) : s.read (pure value) = .ok value := rfl

@[simp] theorem read_option (name : String) (conversion : Field → Setting → Except CompileError α) :
    s.read (.option name conversion) = s.options.convert s.params name conversion :=
  Filling.read_option ..

@[simp] theorem read_typed (name : String) (type : FieldType) :
    s.read (.typed name type) = s.typed name type := Filling.read_typed ..

@[simp] theorem read_ofOutcome (outcome : Except CompileError α) :
    s.read (.ofOutcome outcome) = outcome := Filling.read_ofOutcome ..

@[simp] theorem read_invoker :
    s.read .invoker = s.options.convert s.params "invoker" Field.stringList := read_option ..

theorem pattern_eq_ok_iff {address : Address} {p : PathPattern} :
    Filling.pattern address = .ok p ↔ PathPattern.parse address.value = .ok p := mapError_eq_ok_iff

theorem read_token_eq_ok_iff {name : String} {tokens : KeyMap Setting} :
    s.read (.token name) = .ok tokens ↔ ∃ given, s.typed name .boolean = .ok given ∧
      tokens = (given.filter Filling.isPassed).toList.map fun value => (name, value) := by
  simp only [Filling.token, read_bind, read_typed, read_pure, bind_eq_ok_iff, Except.ok.injEq,
    @eq_comm _ tokens]

theorem read_filterOr_eq_ok_iff {name default : String} {entries : KeyMap String} :
    s.read (.filterOr name default) = .ok entries ↔
      ∃ given, s.options.convert s.params name Field.filterText = .ok given ∧
        entries = (given.getD (some default)).toList.map fun text => (name, text) := by
  simp only [Filling.filterOr, read_bind, read_option, read_pure, bind_eq_ok_iff,
    Except.ok.injEq, @eq_comm _ entries]

/-! ### Triggers -/

/-- The events that a registration listens to, by its family. -/
inductive Listens (s : TriggerSource) (retry : Option Setting) : EventFilter → Prop where
  | topic {address : Address} (family : s.family = .pubSub) (addressed : s.address = some address) :
      Listens s retry ⟨s.eventType, [("topic", address.value)], [], none, retry⟩
  | bucket {address : Address} (family : s.family = .storage)
      (addressed : s.address = some address) :
      Listens s retry ⟨s.eventType, [("bucket", address.value)], [], none, retry⟩
  /-- One document. -/
  | document {address : Address} {document : PathPattern} {database space : KeyMap String}
      (family : s.family = .firestore) (addressed : s.address = some address)
      (read : PathPattern.parse address.value = .ok document)
      (exact : document.hasCaptures = false)
      (databaseGiven : s.read (.filterOr "database" "(default)") = .ok database)
      (spaceGiven : s.read (.filterOr "namespace" "(default)") = .ok space) :
      Listens s retry
        ⟨s.eventType, database ++ [("document", document.text)] ++ space, [], none, retry⟩
  /-- All documents of a pattern. -/
  | documents {address : Address} {document : PathPattern} {database space : KeyMap String}
      (family : s.family = .firestore) (addressed : s.address = some address)
      (read : PathPattern.parse address.value = .ok document)
      (captures : document.hasCaptures = true)
      (databaseGiven : s.read (.filterOr "database" "(default)") = .ok database)
      (spaceGiven : s.read (.filterOr "namespace" "(default)") = .ok space) :
      Listens s retry
        ⟨s.eventType, database ++ space, [("document", document.text)], none, retry⟩
  | reference {address : Address} {reference : PathPattern} {inst : KeyMap String}
      (family : s.family = .database) (addressed : s.address = some address)
      (read : PathPattern.parse address.value = .ok reference)
      (instGiven : s.read (.filterOr "instance" "*") = .ok inst) :
      Listens s retry ⟨s.eventType, [], inst ++ [("ref", reference.text)], none, retry⟩
  | custom {filters : Option (KeyMap String)} {channel : Option (Option String)}
      (family : s.family = .eventarc)
      (filtersGiven : s.options.convert s.params "filters" Field.stringMap = .ok filters)
      (channelGiven : s.options.convert s.params "channel" Field.filterText = .ok channel) :
      Listens s retry ⟨s.eventType, filters.getD [], [], channel.join, retry⟩
  /-- All events of the type. -/
  | all (family : s.family ≠ .eventarc)
      (unaddressed : s.address = none ∨ s.family = .remoteConfig ∨ s.family = .testLab) :
      Listens s retry ⟨s.eventType, [], [], none, retry⟩

theorem Listens.eventType_eq {retry : Option Setting} {filter : EventFilter}
    (listens : s.Listens retry filter) : filter.eventType = s.eventType := by
  cases listens <;> rfl

theorem Listens.retry_eq {retry : Option Setting} {filter : EventFilter}
    (listens : s.Listens retry filter) : filter.retry = retry := by
  cases listens <;> rfl

theorem listens_of_event {t : Trigger} (family : s.family.isEvent = true)
    (made : s.read (.event s.family s.address s.eventType) = .ok t) :
    ∃ given filter, s.typed "retry" .boolean = .ok given ∧ t = .event filter ∧
      s.Listens (given.or (some (.bool false))) filter := by
  rw [Filling.event, read_bind, read_typed, bind_eq_ok_iff] at made
  obtain ⟨given, retry, made⟩ := made
  refine ⟨given, ?_⟩
  dsimp only at made
  split at made
  · cases made
    exact ⟨_, retry, rfl, .topic ‹_› ‹_›⟩
  · cases made
    exact ⟨_, retry, rfl, .bucket ‹_› ‹_›⟩
  · rename_i ofFamily addressed
    simp only [Filling.firestore, read_bind, read_ofOutcome, bind_eq_ok_iff, pattern_eq_ok_iff]
      at made
    obtain ⟨filter, ⟨document, read, database, databaseGiven, space, spaceGiven, made⟩, ⟨⟩⟩ := made
    split at made
    · cases made
      exact ⟨_, retry, rfl, .documents ofFamily addressed read ‹_› databaseGiven spaceGiven⟩
    · cases made
      have exact := Bool.eq_false_iff.mpr ‹¬ document.hasCaptures = true›
      exact ⟨_, retry, rfl, .document ofFamily addressed read exact databaseGiven spaceGiven⟩
  · rename_i ofFamily addressed
    simp only [Filling.database, read_bind, read_ofOutcome, bind_eq_ok_iff, pattern_eq_ok_iff]
      at made
    obtain ⟨_, ⟨reference, read, inst, instGiven, ⟨⟩⟩, ⟨⟩⟩ := made
    exact ⟨_, retry, rfl, .reference ofFamily addressed read instGiven⟩
  · rename_i ofFamily
    simp only [Filling.eventarc, read_bind, read_option, bind_eq_ok_iff] at made
    obtain ⟨_, ⟨filters, filtersGiven, channel, channelGiven, ⟨⟩⟩, ⟨⟩⟩ := made
    exact ⟨_, retry, rfl, .custom ofFamily filtersGiven channelGiven⟩
  · cases made
    refine ⟨_, retry, rfl, .all ‹s.family = .eventarc → False› ?_⟩
    cases addressed : s.address with
    | none => exact .inl rfl
    | some address =>
      right
      cases ofFamily : s.family <;> simp_all [Family.isEvent]

/-- The repetition settings, one by one. -/
inductive Repeats (s : TriggerSource) (attemptsName : String) : Retry → Prop where
  | mk {attempts maxRetrySeconds minBackoffSeconds maxBackoffSeconds maxDoublings : Option Setting}
      (attemptsGiven : s.typed attemptsName .int = .ok attempts)
      (maxRetrySecondsGiven : s.typed "maxRetrySeconds" .int = .ok maxRetrySeconds)
      (minBackoffSecondsGiven : s.typed "minBackoffSeconds" .int = .ok minBackoffSeconds)
      (maxBackoffSecondsGiven : s.typed "maxBackoffSeconds" .int = .ok maxBackoffSeconds)
      (maxDoublingsGiven : s.typed "maxDoublings" .int = .ok maxDoublings) :
      Repeats s attemptsName
        ⟨attempts, maxRetrySeconds, minBackoffSeconds, maxBackoffSeconds, maxDoublings⟩

theorem read_retry_eq_ok_iff {attemptsName : String} {r : Retry} :
    s.read (.retry attemptsName) = .ok r ↔ s.Repeats attemptsName r := by
  simp only [Filling.retry, read_bind, read_typed, bind_eq_ok_iff]
  constructor
  · rintro ⟨_, attempts, _, maxRetry, _, minBackoff, _, maxBackoff, _, doublings, ⟨⟩⟩
    exact ⟨attempts, maxRetry, minBackoff, maxBackoff, doublings⟩
  · rintro ⟨attempts, maxRetry, minBackoff, maxBackoff, doublings⟩
    exact ⟨_, attempts, _, maxRetry, _, minBackoff, _, maxBackoff, _, doublings, rfl⟩

/-- The trigger of a registration, by its family. -/
inductive Makes (s : TriggerSource) : Trigger → Prop where
  | https {invoker : Option Setting} (family : s.family = .https)
      (invokerGiven : s.options.convert s.params "invoker" Field.stringList = .ok invoker) :
      Makes s (.https invoker)
  | callable (family : s.family = .callable) : Makes s .callable
  | taskQueue {retry : Retry} {concurrent perSecond invoker : Option Setting}
      (family : s.family = .taskQueue) (retryGiven : s.Repeats "maxAttempts" retry)
      (concurrentGiven : s.typed "maxConcurrentDispatches" .int = .ok concurrent)
      (perSecondGiven : s.typed "maxDispatchesPerSecond" .number = .ok perSecond)
      (invokerGiven : s.options.convert s.params "invoker" Field.stringList = .ok invoker) :
      Makes s (.taskQueue retry.orNone (RateLimits.mk concurrent perSecond).orNone invoker)
  | schedule {retry : Retry} {timeZone : Option Setting}
      (family : s.family = .scheduler) (retryGiven : s.Repeats "retryCount" retry)
      (timeZoneGiven : s.typed "timeZone" .string = .ok timeZone) :
      Makes s (.schedule ((s.address.map (·.value)).getD "") timeZone retry.orNone)
  | blocking {idToken accessToken refreshToken : KeyMap Setting} (family : s.family = .identity)
      (idTokenGiven : s.read (.token "idToken") = .ok idToken)
      (accessTokenGiven : s.read (.token "accessToken") = .ok accessToken)
      (refreshTokenGiven : s.read (.token "refreshToken") = .ok refreshToken) :
      Makes s (.blocking s.eventType (accessToken ++ idToken ++ refreshToken))
  | event {given : Option Setting} {filter : EventFilter} (family : s.family.isEvent = true)
      (retryGiven : s.typed "retry" .boolean = .ok given)
      (listens : s.Listens (given.or (some (.bool false))) filter) : Makes s (.event filter)

theorem makes_of_trigger {t : Trigger} (made : s.trigger = .ok t) : s.Makes t := by
  unfold trigger Filling.trigger at made
  split at made
  · rw [read_bind, read_invoker, bind_eq_ok_iff] at made
    obtain ⟨_, invoker, ⟨⟩⟩ := made
    exact .https ‹_› invoker
  · cases made
    exact .callable ‹_›
  · simp only [Filling.taskQueue, read_bind, read_typed, read_invoker, read_retry_eq_ok_iff,
      bind_eq_ok_iff] at made
    obtain ⟨_, retry, _, concurrent, _, perSecond, _, invoker, ⟨⟩⟩ := made
    exact .taskQueue ‹_› retry concurrent perSecond invoker
  · simp only [Filling.schedule, read_bind, read_typed, read_retry_eq_ok_iff, bind_eq_ok_iff]
      at made
    obtain ⟨_, retry, _, timeZone, ⟨⟩⟩ := made
    exact .schedule ‹_› retry timeZone
  · simp only [Filling.blocking, read_bind, bind_eq_ok_iff] at made
    obtain ⟨_, idToken, _, accessToken, _, refreshToken, ⟨⟩⟩ := made
    exact .blocking ‹_› idToken accessToken refreshToken
  · have family : s.family.isEvent = true := by
      cases ofFamily : s.family <;> simp_all [Family.isEvent]
    obtain ⟨_, _, retry, rfl, listens⟩ := listens_of_event family made
    exact .event family retry listens

/-! ### From the parts to the trigger -/

theorem event_of_listens {given : Option Setting} {filter : EventFilter}
    (retryGiven : s.typed "retry" .boolean = .ok given)
    (listens : s.Listens (given.or (some (.bool false))) filter) :
    s.read (.event s.family s.address s.eventType) = .ok (.event filter) := by
  rw [Filling.event, read_bind, read_typed, bind_eq_ok_iff]
  refine ⟨given, retryGiven, ?_⟩
  cases listens with
  | topic ofFamily addressed | bucket ofFamily addressed =>
    rw [ofFamily, addressed]
    rfl
  | document ofFamily addressed read exact databaseGiven spaceGiven =>
    rw [ofFamily, addressed]
    simp only [Filling.firestore, read_bind, read_ofOutcome, bind_eq_ok_iff, pattern_eq_ok_iff]
    refine ⟨_, ⟨_, read, _, databaseGiven, _, spaceGiven, ?_⟩, rfl⟩
    rw [if_neg (by simp [exact])]
    rfl
  | documents ofFamily addressed read captures databaseGiven spaceGiven =>
    rw [ofFamily, addressed]
    simp only [Filling.firestore, read_bind, read_ofOutcome, bind_eq_ok_iff, pattern_eq_ok_iff]
    refine ⟨_, ⟨_, read, _, databaseGiven, _, spaceGiven, ?_⟩, rfl⟩
    rw [if_pos captures]
    rfl
  | reference ofFamily addressed read instGiven =>
    rw [ofFamily, addressed]
    simp only [Filling.database, read_bind, read_ofOutcome, bind_eq_ok_iff, pattern_eq_ok_iff]
    exact ⟨_, ⟨_, read, _, instGiven, rfl⟩, rfl⟩
  | custom ofFamily filtersGiven channelGiven =>
    rw [ofFamily]
    simp only [Filling.eventarc, read_bind, read_option, bind_eq_ok_iff]
    exact ⟨_, ⟨_, filtersGiven, _, channelGiven, rfl⟩, rfl⟩
  | all custom unaddressed =>
    rcases unaddressed with unaddressed | ofFamily | ofFamily
    · rw [unaddressed]
      cases ofFamily : s.family <;> first | rfl | exact absurd ofFamily custom
    · rw [ofFamily]
      rfl
    · rw [ofFamily]
      rfl

/-- The parts are all that a trigger is made of. -/
theorem trigger_of_makes {t : Trigger} (makes : s.Makes t) : s.trigger = .ok t := by
  unfold trigger Filling.trigger
  cases makes with
  | https family invoker =>
    rw [family, read_bind, read_invoker, bind_eq_ok_iff]
    exact ⟨_, invoker, rfl⟩
  | callable family =>
    rw [family]
    rfl
  | taskQueue family retry concurrent perSecond invoker =>
    rw [family]
    simp only [Filling.taskQueue, read_bind, read_typed, read_invoker, read_retry_eq_ok_iff,
      bind_eq_ok_iff]
    exact ⟨_, retry, _, concurrent, _, perSecond, _, invoker, rfl⟩
  | schedule family retry timeZone =>
    rw [family]
    simp only [Filling.schedule, read_bind, read_typed, read_retry_eq_ok_iff, bind_eq_ok_iff]
    exact ⟨_, retry, _, timeZone, rfl⟩
  | blocking family idToken accessToken refreshToken =>
    rw [family]
    simp only [Filling.blocking, read_bind, bind_eq_ok_iff]
    exact ⟨_, idToken, _, accessToken, _, refreshToken, rfl⟩
  | event family retry listens =>
    have made := event_of_listens retry listens
    cases ofFamily : s.family <;> rw [ofFamily] at family made <;> first | exact made | cases family

end DeployManifest.TriggerSource
