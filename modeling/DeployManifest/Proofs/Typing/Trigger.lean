import DeployManifest.Proofs.Typing.Endpoint

/-! # Types of trigger fields

The fields of a trigger are for options of the endpoint alone. The texts in the filter of an event
are those of the source, of the platform, or stand for an option that may depend on a parameter
(`TextIsSound`).
-/

namespace DeployManifest

open Outcome

/-- The fields of a group of settings for repetition. -/
def Retry.fields (attemptsName : String) (r : Retry) : List TypedField :=
  [⟨attemptsName, .integer, r.attempts⟩, ⟨"maxRetrySeconds", .integer, r.maxRetrySeconds⟩,
    ⟨"minBackoffSeconds", .integer, r.minBackoffSeconds⟩,
    ⟨"maxBackoffSeconds", .integer, r.maxBackoffSeconds⟩,
    ⟨"maxDoublings", .integer, r.maxDoublings⟩]

/-- The fields of the limits of a queue. -/
def RateLimits.fields (limits : RateLimits) : List TypedField :=
  [⟨"maxConcurrentDispatches", .integer, limits.maxConcurrentDispatches⟩,
    ⟨"maxDispatchesPerSecond", .number, limits.maxDispatchesPerSecond⟩]

namespace Trigger

/-- The fields of a trigger that hold settings. -/
def fields : Trigger → List TypedField
  | .https invoker => [⟨"invoker", .texts, invoker⟩]
  | .callable => []
  | .event filter => [⟨"retry", .boolean, filter.retry⟩]
  | .blocking _ tokens => tokens.map fun token => ⟨token.1, .boolean, some token.2⟩
  | .schedule _ timeZone retry =>
    ⟨"timeZone", .text, timeZone⟩ :: (retry.map (Retry.fields "retryCount")).getD []
  | .taskQueue retry limits invoker =>
    ⟨"invoker", .texts, invoker⟩ :: ((retry.map (Retry.fields "maxAttempts")).getD []
      ++ (limits.map RateLimits.fields).getD [])

/-- The texts of a trigger that may stand for settings. -/
def texts : Trigger → KeyMap String
  | .event filter =>
    filter.filters ++ filter.patterns ++ (filter.channel.map fun text => ("channel", text)).toList
  | _ => []

end Trigger

/-- Where a text in a filter comes from. -/
inductive TextSource (address : Option Address) (own : OptionSet) (name : String) :
    Setting → Prop where
  | address {a : Address} (addressed : address = some a) :
      TextSource address own name (.text a.value)
  | pattern {a : Address} {p : PathPattern} (addressed : address = some a)
      (read : PathPattern.parse a.value = .ok p) : TextSource address own name (.text p.text)
  | given {o : OptionValue} (found : own.option? name = some o) :
      TextSource address own name o.value
  | default {text : String} (missing : own.option? name = none)
      (platform : text = "(default)" ∨ text = "*") : TextSource address own name (.text text)
  /-- An entry of a map that is written out. -/
  | entry {o : OptionValue} {entries : List (String × Literal)} {text : String}
      (found : own.option? "filters" = some o) (map : o.value = .literal (.map entries))
      (member : (name, .text text) ∈ entries) : TextSource address own name (.text text)

/-- A text in a filter stands for a setting that gives a text. -/
def TextIsSound (params : List Param) (address : Option Address) (own : OptionSet)
    (entry : String × String) : Prop :=
  ∃ source, TextSource address own entry.1 source ∧ FilterText source (some entry.2) ∧
    source.IsTyped params .text

namespace TriggerSource

variable {s : TriggerSource}

theorem fits_of_typed {name : String} {type : FieldType} {T : ValueType} {value : Option Setting}
    (distinct : s.params.Distinct) (closed : s.options.IsClosed s.params) (denotes : type.Denotes T)
    (converted : s.typed name type = .ok value) :
    (⟨name, T, value⟩ : TypedField).Fits s.params.params (s.options.option? name) :=
  OptionSet.fits_of_typed distinct closed denotes converted

theorem isSound_of_typed {name : String} {type : FieldType} {T : ValueType} {value : Option Setting}
    (distinct : s.params.Distinct) (closed : s.options.IsClosed s.params) (denotes : type.Denotes T)
    (converted : s.typed name type = .ok value) :
    (⟨name, T, value⟩ : TypedField).IsSound s.params.params s.options.option? :=
  (fits_of_typed distinct closed denotes converted).isSound

theorem isSound_of_invoker {value : Option Setting} (distinct : s.params.Distinct)
    (closed : s.options.IsClosed s.params)
    (converted : s.options.convert s.params "invoker" Field.stringList = .ok value) :
    (⟨"invoker", .texts, value⟩ : TypedField).IsSound s.params.params s.options.option? :=
  (OptionSet.fits_of_convert (fun o _ member done =>
    Field.conveys_of_stringList (f := ⟨s.params, "invoker", o.location⟩) distinct (closed o member)
      done) converted).isSound

theorem isSound_of_repeats {attemptsName : String} {r : Retry} (distinct : s.params.Distinct)
    (closed : s.options.IsClosed s.params) (repeats : s.Repeats attemptsName r) :
    ∀ field ∈ r.fields attemptsName, field.IsSound s.params.params s.options.option? := by
  obtain ⟨attempts, maxRetry, minBackoff, maxBackoff, doublings⟩ := repeats
  simp only [Retry.fields, List.forall_mem_cons]
  exact ⟨isSound_of_typed distinct closed FieldType.int_denotes attempts,
    isSound_of_typed distinct closed FieldType.int_denotes maxRetry,
    isSound_of_typed distinct closed FieldType.int_denotes minBackoff,
    isSound_of_typed distinct closed FieldType.int_denotes maxBackoff,
    isSound_of_typed distinct closed FieldType.int_denotes doublings, by simp⟩

/-- The fields of a group that is left out when it is empty are among those of the group. -/
theorem mem_fields_orNone {α : Type} {fields : α → List TypedField} {isEmpty : Bool} {group : α} :
    ∀ field ∈ ((if isEmpty then none else some group).map fields).getD [], field ∈ fields group := by
  intro field member
  split at member
  · cases member
  · exact member

/-- A token that is passed on is the option. -/
theorem isSound_of_token {name : String} {tokens : KeyMap Setting} (distinct : s.params.Distinct)
    (closed : s.options.IsClosed s.params) (made : s.read (.token name) = .ok tokens) :
    ∀ token ∈ tokens, (⟨token.1, .boolean, some token.2⟩ : TypedField).IsSound s.params.params
      s.options.option? := by
  obtain ⟨given, converted, rfl⟩ := read_token_eq_ok_iff.mp made
  have sound := isSound_of_typed distinct closed FieldType.boolean_denotes converted
  rw [List.forall_mem_map]
  intro value member
  obtain ⟨rfl, -⟩ := Option.filter_eq_some_iff.mp (Option.mem_toList.mp member)
  exact sound

/-- The fields of a trigger hold what the options give. -/
theorem isSound_of_makes {t : Trigger} (distinct : s.params.Distinct)
    (closed : s.options.IsClosed s.params) (made : s.Makes t) :
    ∀ field ∈ t.fields, field.IsSound s.params.params s.options.option? := by
  cases made with
  | https _ invoker =>
    exact List.forall_mem_singleton.mpr (isSound_of_invoker distinct closed invoker)
  | callable => simp [Trigger.fields]
  | taskQueue _ retry concurrent perSecond invoker =>
    simp only [Trigger.fields, List.forall_mem_cons, List.forall_mem_append]
    refine ⟨isSound_of_invoker distinct closed invoker, ?_, ?_⟩
    · exact fun field member =>
        isSound_of_repeats distinct closed retry field (mem_fields_orNone field member)
    · intro field member
      have limit := mem_fields_orNone field member
      simp only [RateLimits.fields, List.mem_cons, List.not_mem_nil, or_false] at limit
      rcases limit with rfl | rfl
      · exact isSound_of_typed distinct closed FieldType.int_denotes concurrent
      · exact isSound_of_typed distinct closed FieldType.number_denotes perSecond
  | schedule _ retry timeZone =>
    simp only [Trigger.fields, List.forall_mem_cons]
    refine ⟨isSound_of_typed distinct closed FieldType.string_denotes timeZone, ?_⟩
    exact fun field member =>
      isSound_of_repeats distinct closed retry field (mem_fields_orNone field member)
  | blocking _ idToken accessToken refreshToken =>
    simp only [Trigger.fields, List.map_append, List.forall_mem_append, List.forall_mem_map]
    exact ⟨⟨isSound_of_token distinct closed accessToken, isSound_of_token distinct closed idToken⟩,
      isSound_of_token distinct closed refreshToken⟩
  | event _ retry listens =>
    have fits := fits_of_typed distinct closed FieldType.boolean_denotes retry
    rw [Trigger.fields, List.forall_mem_singleton, listens.retry_eq]
    exact fits.isSound_default rfl

/-! ### Texts in filters -/

/-- An option that does for a filter gives a text, or nothing. -/
theorem textIsSound_of_filterText {name text : String} {o : OptionValue}
    (distinct : s.params.Distinct) (closed : s.options.IsClosed s.params)
    (found : s.options.option? name = some o)
    (converted : Field.filterText ⟨s.params, name, o.location⟩ o.value = .ok (some text)) :
    TextIsSound s.params.params s.address s.options (name, text) := by
  obtain ⟨checked, written⟩ := Field.filterText_eq_ok converted
  have member := closed o (List.mem_of_find?_eq_some found)
  exact ⟨o.value, .given found, written,
    Field.isTyped_of_check (f := ⟨s.params, name, o.location⟩) distinct FieldType.string_denotes
      member checked⟩

theorem textIsSound_text {params : List Param} {name text : String}
    (source : TextSource s.address s.options name (.text text)) :
    TextIsSound params s.address s.options (name, text) :=
  ⟨.text text, source, .text text, Setting.isTyped_literal rfl⟩

theorem textIsSound_of_filterOr {name default : String} {entries : KeyMap String}
    (distinct : s.params.Distinct) (closed : s.options.IsClosed s.params)
    (platform : default = "(default)" ∨ default = "*")
    (made : s.read (.filterOr name default) = .ok entries) :
    ∀ entry ∈ entries, TextIsSound s.params.params s.address s.options entry := by
  rcases filterOr_eq_ok made with ⟨missing, rfl⟩ | ⟨o, text, found, converted, rfl⟩
  · rw [List.forall_mem_singleton]
    exact textIsSound_text (.default missing platform)
  · intro entry member
    obtain ⟨t, rfl, rfl⟩ := Option.map_eq_some_iff.mp (Option.mem_toList.mp member)
    exact textIsSound_of_filterText distinct closed found converted

/-- The entries of a written map are texts of the source. -/
theorem textIsSound_of_filters {params : List Param} {filters : Option (KeyMap String)}
    (converted : s.options.convert s.params "filters" Field.stringMap = .ok filters) :
    ∀ entry ∈ filters.getD [], TextIsSound params s.address s.options entry := by
  cases filters with
  | none => simp
  | some entries =>
    obtain ⟨o, found, done⟩ := OptionSet.convert_eq_ok_some_iff.mp converted
    rcases Field.of_stringMap done with ⟨-, rfl⟩ | ⟨given, map, same⟩
    · simp
    · rintro ⟨name, text⟩ member
      refine textIsSound_text (.entry found map ?_)
      rw [Option.getD_some] at member
      clear map done converted
      induction same with
      | nil => cases member
      | cons first _ ih =>
        rcases List.mem_cons.mp member with rfl | member
        · rw [first]
          exact List.mem_cons_self ..
        · exact List.mem_cons_of_mem _ (ih member)

theorem textIsSound_of_channel {channel : Option (Option String)} (distinct : s.params.Distinct)
    (closed : s.options.IsClosed s.params)
    (converted : s.options.convert s.params "channel" Field.filterText = .ok channel) :
    ∀ text ∈ channel.join, TextIsSound s.params.params s.address s.options ("channel", text) := by
  intro text member
  obtain rfl : channel = some (some text) := Option.join_eq_some_iff.mp member
  obtain ⟨o, found, done⟩ := OptionSet.convert_eq_ok_some_iff.mp converted
  exact textIsSound_of_filterText distinct closed found done

/-- The texts of a trigger stand for settings that give texts. -/
theorem textIsSound_of_makes {t : Trigger} (distinct : s.params.Distinct)
    (closed : s.options.IsClosed s.params) (made : s.Makes t) :
    ∀ entry ∈ t.texts, TextIsSound s.params.params s.address s.options entry := by
  cases made with
  | https | callable | taskQueue | schedule | blocking => simp [Trigger.texts]
  | event _ _ listens =>
    simp only [Trigger.texts, List.forall_mem_append]
    cases listens with
    | topic _ addressed => simpa using textIsSound_text (.address addressed)
    | bucket _ addressed => simpa using textIsSound_text (.address addressed)
    | document _ addressed read _ databaseGiven spaceGiven =>
      refine ⟨⟨?_, by simp⟩, by simp⟩
      simp only [List.forall_mem_append, List.forall_mem_singleton]
      exact ⟨⟨textIsSound_of_filterOr distinct closed (.inl rfl) databaseGiven,
        textIsSound_text (.pattern addressed read)⟩,
        textIsSound_of_filterOr distinct closed (.inl rfl) spaceGiven⟩
    | documents _ addressed read _ databaseGiven spaceGiven =>
      simp only [List.forall_mem_append, List.forall_mem_singleton]
      exact ⟨⟨⟨textIsSound_of_filterOr distinct closed (.inl rfl) databaseGiven,
        textIsSound_of_filterOr distinct closed (.inl rfl) spaceGiven⟩,
        textIsSound_text (.pattern addressed read)⟩, by simp⟩
    | reference _ addressed read instGiven =>
      simp only [List.forall_mem_append, List.forall_mem_singleton]
      exact ⟨⟨by simp, textIsSound_of_filterOr distinct closed (.inr rfl) instGiven,
        textIsSound_text (.pattern addressed read)⟩, by simp⟩
    | custom _ filtersGiven channelGiven =>
      refine ⟨⟨textIsSound_of_filters filtersGiven, by simp⟩, ?_⟩
      intro entry member
      obtain ⟨text, present, rfl⟩ := Option.map_eq_some_iff.mp (Option.mem_toList.mp member)
      exact textIsSound_of_channel distinct closed channelGiven text present
    | all => simp

end TriggerSource

end DeployManifest
