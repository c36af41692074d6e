import DeployManifest.Proofs.Options.Basic
import DeployManifest.Proofs.Options.Trigger
import DeployManifest.Proofs.Wire.Field

/-! # Triggers as they are written

The fields of a trigger show what its options have been converted to
(`TriggerSource.fills_of_makes`), a group stands there with one of its fields only
(`TriggerSource.exists_of_group`), and the options of a blocking trigger are the tokens that are
passed on (`TriggerSource.hasAt_options_of_makes`).
-/

namespace DeployManifest

open Outcome

namespace TriggerSource

variable {s : TriggerSource} {e : Endpoint}

/-- The field shows what the option has been converted to, or its default. -/
def Fills (s : TriggerSource) (e : Endpoint) (field : WireField) : Prop :=
  ∃ value, s.options.convert s.params field.keyword field.conversion = .ok value ∧
    field.Shows e (value.or field.default)

theorem fills_typed {keyword name : String} {type : FieldType} {group : List String}
    {value : Option Setting} (converted : s.typed keyword type = .ok value)
    (stands : ∀ d, e.document.HasAt (group ++ [name]) d ↔ Setting.IsWritten value d) :
    s.Fills e (.typed keyword type group name) :=
  ⟨value, converted, fun d => by rw [WireField.typed, Option.or_none]; exact stands d⟩

theorem fills_invokerField {trigger : String} {value : Option Setting}
    (converted : s.options.convert s.params "invoker" Field.stringList = .ok value)
    (stands : ∀ d, e.document.HasAt [trigger, "invoker"] d ↔ Setting.IsWritten value d) :
    s.Fills e (Family.invokerField trigger) :=
  ⟨value, converted, fun d => by rw [Family.invokerField, Option.or_none]; exact stands d⟩

/-- The settings that repeat failed runs stand in their group. -/
theorem fills_retryFields {trigger attemptsName : String} {r : Retry}
    (repeats : s.Repeats attemptsName r)
    (own : attemptsName ∉ ["maxRetrySeconds", "minBackoffSeconds", "maxBackoffSeconds",
      "maxDoublings"])
    (stands : HasGroup e [trigger, "retryConfig"] r.isEmpty (r.document attemptsName)) :
    ∀ field ∈ Family.retryFields trigger attemptsName, s.Fills e field := by
  obtain ⟨attempts, maxRetry, minBackoff, maxBackoff, doublings⟩ := repeats
  simp only [List.mem_cons, List.not_mem_nil, or_false, not_or] at own
  obtain ⟨one, two, three, four⟩ := own
  simp only [Family.retryFields, List.forall_mem_cons]
  refine ⟨fills_typed attempts ?_, fills_typed maxRetry ?_, fills_typed minBackoff ?_,
    fills_typed maxBackoff ?_, fills_typed doublings ?_, by simp⟩
  all_goals
    intro d
    refine (stands.hasAt_iff Retry.document_of_isEmpty).trans ?_
    simp [Retry.document, one, two, three, four, Ne.symm one, Ne.symm two, Ne.symm three,
      Ne.symm four]

theorem fills_limitFields {concurrent perSecond : Option Setting}
    (concurrentGiven : s.typed "maxConcurrentDispatches" .int = .ok concurrent)
    (perSecondGiven : s.typed "maxDispatchesPerSecond" .number = .ok perSecond)
    (stands : HasGroup e ["taskQueueTrigger", "rateLimits"]
      (RateLimits.mk concurrent perSecond).isEmpty (RateLimits.mk concurrent perSecond).document) :
    ∀ field ∈ Family.limitFields, s.Fills e field := by
  simp only [Family.limitFields, List.forall_mem_cons]
  refine ⟨fills_typed concurrentGiven ?_, fills_typed perSecondGiven ?_, by simp⟩
  all_goals
    intro d
    refine (stands.hasAt_iff RateLimits.document_of_isEmpty).trans ?_
    simp [RateLimits.document]

theorem triggerFields_of_isEvent {family : Family} (event : family.isEvent = true) :
    family.triggerFields = [⟨"retry", fun f value => f.typed .boolean value, ["eventTrigger"],
      "retry", some (.bool false)⟩] := by
  cases family <;> first | rfl | cases event

/-- Under the name of its trigger an endpoint has this. -/
theorem hasAt_of_trigger {t : Trigger} (trigger : e.trigger = t) (path : List String)
    (d : Document) : e.document.HasAt (t.wireName :: path) d ↔ t.document.HasAt path d := by
  rw [← trigger]
  exact Endpoint.hasAt_trigger

theorem hasGroup_of_schedule {cron : String} {timeZone : Option Setting} {r : Retry}
    (trigger : e.trigger = .schedule cron timeZone r.orNone) :
    HasGroup e ["scheduleTrigger", "retryConfig"] r.isEmpty (r.document "retryCount") := by
  intro path d
  refine (hasAt_of_trigger trigger ("retryConfig" :: path) d).trans ?_
  rw [← Retry.hasAt_orNone]
  simp [Trigger.document, Setting.field]

theorem hasGroups_of_taskQueue {r : Retry} {limits : RateLimits} {invoker : Option Setting}
    (trigger : e.trigger = .taskQueue r.orNone limits.orNone invoker) :
    HasGroup e ["taskQueueTrigger", "retryConfig"] r.isEmpty (r.document "maxAttempts") ∧
      HasGroup e ["taskQueueTrigger", "rateLimits"] limits.isEmpty limits.document := by
  constructor
  · intro path d
    refine (hasAt_of_trigger trigger ("retryConfig" :: path) d).trans ?_
    rw [← Retry.hasAt_orNone]
    simp [Trigger.document, Setting.field]
  · intro path d
    refine (hasAt_of_trigger trigger ("rateLimits" :: path) d).trans ?_
    rw [← RateLimits.hasAt_orNone]
    simp [Trigger.document, Setting.field]

/-- The fields of a trigger hold what its options have been converted to. -/
theorem fills_of_makes (made : s.Makes e.trigger) :
    ∀ field ∈ s.family.triggerFields, s.Fills e field := by
  generalize trigger : e.trigger = t at made
  have stands := hasAt_of_trigger trigger
  cases made with
  | https family invoker =>
    rw [family]
    refine List.forall_mem_singleton.mpr (fills_invokerField invoker fun d => ?_)
    refine (stands ["invoker"] d).trans ?_
    simp [Trigger.document]
  | callable family =>
    rw [family]
    simp [Family.triggerFields]
  | taskQueue family retry concurrent perSecond invoker =>
    rw [family]
    obtain ⟨retryGroup, limitGroup⟩ := hasGroups_of_taskQueue trigger
    simp only [Family.triggerFields, List.forall_mem_append, List.forall_mem_singleton]
    refine ⟨⟨fills_retryFields retry (by decide) retryGroup,
      fills_limitFields concurrent perSecond limitGroup⟩, fills_invokerField invoker fun d => ?_⟩
    refine (stands ["invoker"] d).trans ?_
    simp [Trigger.document]
  | schedule family retry timeZone =>
    rw [family]
    simp only [Family.triggerFields, List.forall_mem_append, List.forall_mem_singleton]
    refine ⟨fills_retryFields retry (by decide) (hasGroup_of_schedule trigger),
      fills_typed timeZone fun d => ?_⟩
    refine (stands ["timeZone"] d).trans ?_
    simp [Trigger.document]
  | blocking family =>
    rw [family]
    simp [Family.triggerFields]
  | event family retry listens =>
    rw [triggerFields_of_isEvent family]
    refine List.forall_mem_singleton.mpr ⟨_, retry, fun d => ?_⟩
    refine (stands ["retry"] d).trans ?_
    simp [Trigger.document, listens.retry_eq]

/-- The groups of a trigger that are left out when nothing stands in them. -/
def groups : List (List String) :=
  [["scheduleTrigger", "retryConfig"], ["taskQueueTrigger", "retryConfig"],
    ["taskQueueTrigger", "rateLimits"]]

theorem wireName_of_has {name : String} {path : List String} (named : name ∈ Trigger.wireNames)
    (given : e.document.Has (name :: path)) : e.trigger.wireName = name := by
  obtain ⟨d, given⟩ := given
  exact ((Endpoint.hasAt_trigger_iff named).mp given).1

/-- A group of settings stands in a trigger only with one of them. -/
theorem exists_of_group (made : s.Makes e.trigger) : ∀ group ∈ groups, e.document.Has group →
    ∃ field ∈ s.family.triggerFields, field.group = group ∧ e.document.Has field.path := by
  generalize trigger : e.trigger = t at made
  have other {name : String} {path : List String} (named : name ∈ Trigger.wireNames)
      (differs : t.wireName ≠ name) : ¬ e.document.Has (name :: path) := by
    intro given
    exact differs (trigger ▸ wireName_of_has named given)
  simp only [groups, List.forall_mem_cons]
  cases made with
  | https | callable | blocking | event =>
    refine ⟨fun given => ?_, fun given => ?_, fun given => ?_, by simp⟩
    all_goals exact absurd given (other (by decide) (by simp [Trigger.wireName]))
  | taskQueue family =>
    obtain ⟨retryGroup, limitGroup⟩ := hasGroups_of_taskQueue trigger
    rw [family]
    refine ⟨fun given => ?_, fun given => ?_, fun given => ?_, by simp⟩
    · exact absurd given (other (by decide) (by simp [Trigger.wireName]))
    · obtain ⟨field, member, found⟩ := Retry.exists_field retryGroup given
      exact ⟨field, by simp [Family.triggerFields, member], found⟩
    · obtain ⟨field, member, found⟩ := RateLimits.exists_field limitGroup given
      exact ⟨field, by simp [Family.triggerFields, member], found⟩
  | schedule family =>
    rw [family]
    refine ⟨fun given => ?_, fun given => ?_, fun given => ?_, by simp⟩
    · obtain ⟨field, member, found⟩ := Retry.exists_field (hasGroup_of_schedule trigger) given
      exact ⟨field, by simp [Family.triggerFields, member], found⟩
    · exact absurd given (other (by decide) (by simp [Trigger.wireName]))
    · exact absurd given (other (by decide) (by simp [Trigger.wireName]))

/-! ### Tokens -/

/-- A token is passed on if it is true or depends on a parameter. -/
def Passes (v : Setting) : Prop := v = .bool true ∨ v.expression?.isSome

theorem isPassed_iff {v : Setting} : Filling.isPassed v = true ↔ Passes v := by
  cases v with
  | literal l => cases l <;> simp [Filling.isPassed, Passes, Setting.bool, Setting.expression?]
  | param name => simp [Filling.isPassed, Passes, Setting.expression?]
  | choice condition yes no => simp [Filling.isPassed, Passes, Setting.expression?]
  | reset => simp [Filling.isPassed, Passes, Setting.bool, Setting.expression?]

theorem mem_token_iff {name key : String} {v : Setting} {tokens : KeyMap Setting}
    (made : s.read (.token name) = .ok tokens) :
    (key, v) ∈ tokens ↔ key = name ∧ s.typed name .boolean = .ok (some v) ∧ Passes v := by
  obtain ⟨given, converted, rfl⟩ := read_token_eq_ok_iff.mp made
  rw [converted, List.mem_map]
  constructor
  · rintro ⟨value, member, ⟨⟩⟩
    obtain ⟨rfl, passed⟩ := Option.filter_eq_some_iff.mp (Option.mem_toList.mp member)
    exact ⟨rfl, rfl, isPassed_iff.mp passed⟩
  · rintro ⟨rfl, ⟨⟩, passes⟩
    exact ⟨v, by simp [isPassed_iff.mpr passes], rfl⟩

theorem mem_tokens_iff {idToken accessToken refreshToken : KeyMap Setting}
    (idTokenGiven : s.read (.token "idToken") = .ok idToken)
    (accessTokenGiven : s.read (.token "accessToken") = .ok accessToken)
    (refreshTokenGiven : s.read (.token "refreshToken") = .ok refreshToken)
    {name : String} {v : Setting} :
    (name, v) ∈ accessToken ++ idToken ++ refreshToken ↔
      name ∈ Family.identity.triggerOptions ∧ s.typed name .boolean = .ok (some v) ∧ Passes v := by
  simp only [List.mem_append, mem_token_iff idTokenGiven, mem_token_iff accessTokenGiven,
    mem_token_iff refreshTokenGiven, Family.triggerOptions, List.mem_cons, List.not_mem_nil,
    or_false]
  constructor
  · rintro ((⟨rfl, given⟩ | ⟨rfl, given⟩) | ⟨rfl, given⟩)
    · exact ⟨.inr (.inl rfl), given⟩
    · exact ⟨.inl rfl, given⟩
    · exact ⟨.inr (.inr rfl), given⟩
  · rintro ⟨rfl | rfl | rfl, given⟩
    · exact .inl (.inr ⟨rfl, given⟩)
    · exact .inl (.inl ⟨rfl, given⟩)
    · exact .inr ⟨rfl, given⟩

/-- Every token of a blocking trigger has been converted. -/
theorem exists_of_makes {name : String} {t : Trigger} (made : s.Makes t)
    (identity : s.family = .identity) (named : name ∈ Family.identity.triggerOptions) :
    ∃ value, s.typed name .boolean = .ok value := by
  have converted {name : String} {tokens : KeyMap Setting}
      (given : s.read (.token name) = .ok tokens) : ∃ value, s.typed name .boolean = .ok value := by
    obtain ⟨value, converted, -⟩ := read_token_eq_ok_iff.mp given
    exact ⟨value, converted⟩
  cases made with
  | blocking _ idToken accessToken refreshToken =>
    simp only [Family.triggerOptions, List.mem_cons, List.not_mem_nil, or_false] at named
    rcases named with rfl | rfl | rfl
    · exact converted idToken
    · exact converted accessToken
    · exact converted refreshToken
  | https family | callable family | taskQueue family | schedule family | event family =>
    rw [identity] at family
    cases family

theorem hasAt_options {eventType name : String} {tokens : KeyMap Setting} {d : Document} :
    (Trigger.blocking eventType tokens).document.HasAt ["options", name] d ↔
      ∃ v, (name, v) ∈ tokens ∧ v.document = d := by
  simp only [Trigger.document, Document.hasAt_record, Document.fieldAt_append,
    Document.fieldAt_cons, Document.not_fieldAt_nil, KeyMap.fieldAt_field, KeyMap.hasAt_document,
    Document.hasAt_nil, or_false]
  constructor
  · rintro (⟨other, -⟩ | ⟨-, -, found⟩)
    · exact absurd other (by decide)
    · exact found
  · rintro ⟨v, member, written⟩
    exact .inr ⟨trivial, List.ne_nil_of_mem member, v, member, written⟩

/-- The options of a blocking trigger are the tokens that are passed on. -/
theorem hasAt_options_of_makes (made : s.Makes e.trigger) (name : String) (d : Document) :
    e.document.HasAt ["blockingTrigger", "options", name] d ↔
      s.family = .identity ∧ name ∈ Family.identity.triggerOptions ∧
        ∃ v, s.typed name .boolean = .ok (some v) ∧ Passes v ∧ v.document = d := by
  generalize trigger : e.trigger = t at made
  have otherwise (differs : t.wireName ≠ "blockingTrigger") (family : s.family ≠ .identity) :
      e.document.HasAt ["blockingTrigger", "options", name] d ↔
        s.family = .identity ∧ name ∈ Family.identity.triggerOptions ∧
          ∃ v, s.typed name .boolean = .ok (some v) ∧ Passes v ∧ v.document = d := by
    refine iff_of_false (fun given => ?_) (fun given => family given.1)
    exact differs (trigger ▸ wireName_of_has (by decide) ⟨d, given⟩)
  cases made with
  | https family | callable family | taskQueue family | schedule family =>
    exact otherwise (by simp [Trigger.wireName]) (by simp [family])
  | event family =>
    refine otherwise (by simp [Trigger.wireName]) fun identity => ?_
    rw [identity] at family
    cases family
  | @blocking idToken accessToken refreshToken family idGiven accessGiven refreshGiven =>
    rw [family]
    refine (hasAt_of_trigger trigger ["options", name] d).trans (hasAt_options.trans ?_)
    constructor
    · rintro ⟨v, member, written⟩
      obtain ⟨named, given, passes⟩ := (mem_tokens_iff idGiven accessGiven refreshGiven).mp member
      exact ⟨rfl, named, v, given, passes, written⟩
    · rintro ⟨-, named, v, given, passes, written⟩
      exact ⟨v, (mem_tokens_iff idGiven accessGiven refreshGiven).mpr ⟨named, given, passes⟩,
        written⟩

theorem exists_of_options (given : e.document.Has ["blockingTrigger", "options"]) :
    ∃ name, e.document.Has ["blockingTrigger", "options", name] := by
  have wire := wireName_of_has (by decide) given
  obtain ⟨d, given⟩ := given
  cases trigger : e.trigger with
  | https | callable | taskQueue | schedule | event =>
    rw [trigger] at wire
    simp [Trigger.wireName] at wire
  | blocking eventType tokens =>
    have inside := (hasAt_of_trigger trigger ["options"] d).mp given
    cases tokens with
    | nil => simp [Trigger.document] at inside
    | cons token tokens =>
      refine ⟨token.1, token.2.document, (hasAt_of_trigger trigger ["options", token.1] _).mpr ?_⟩
      exact hasAt_options.mpr ⟨token.2, List.mem_cons_self .., rfl⟩

/-- An endpoint has options of a blocking trigger only if a token is among them. -/
theorem has_options_iff : e.document.Has ["blockingTrigger", "options"] ↔
    ∃ name, e.document.Has ["blockingTrigger", "options", name] := by
  refine ⟨fun given => ?_, fun ⟨name, inside⟩ => ?_⟩
  · exact exists_of_options given
  · have member : e.document.Has (["blockingTrigger", "options"] ++ [name]) := inside
    exact member.of_append

end TriggerSource

end DeployManifest
