import DeployManifest.Proofs.Options.Filter
import DeployManifest.Proofs.Options.Merge
import DeployManifest.Proofs.Options.Used

/-! # Options that are reset

What is made of options when one of them is reset, and the others stay (`OptionSet.Resets`). All
conversions take a reset. The options of every endpoint are the same but for the one
(`BaseOptions.ofOptions_reset`), and so are the parts of a trigger. No option is both: to the other
of the two it makes no difference (`BaseOptions.ofOptions_of_own`,
`TriggerSource.trigger_of_base`).
-/

namespace DeployManifest

open Outcome

/-- What an option holds after a keyword has been reset. -/
def Setting.resetAt (keyword name : String) (setting : Option Setting) : Option Setting :=
  if keyword = name then some .reset else setting

namespace Setting

variable {keyword name : String} {setting fallback : Option Setting}

@[simp] theorem resetAt_self : resetAt name name setting = some .reset := if_pos rfl

@[simp] theorem resetAt_of_ne (other : keyword ≠ name) : resetAt keyword name setting = setting :=
  if_neg other

theorem resetAt_or :
    (resetAt keyword name setting).or fallback = resetAt keyword name (setting.or fallback) := by
  unfold resetAt
  split <;> rfl

end Setting

/-- One option is reset in the second row, whether or not it is given in the first; the others are
the same. -/
structure OptionSet.Resets (options options' : OptionSet) (keyword : String) : Prop where
  reset : ∃ o, options'.option? keyword = some o ∧ o.value = .reset
  others : ∀ name ≠ keyword, options'.option? name = options.option? name

namespace OptionSet.Resets

variable {α : Type} {options options' : OptionSet} {keyword name : String} {params : ParamTable}

/-- All conversions but that of the option have the same result. -/
theorem convert (resets : options.Resets options' keyword)
    {conversion : Field → Setting → Except CompileError α} {a : Option α} {z : α}
    (taken : ∀ f, conversion f .reset = .ok z)
    (done : options.convert params name conversion = .ok a) :
    options'.convert params name conversion = .ok (if keyword = name then some z else a) := by
  split
  · rename_i same
    subst same
    obtain ⟨o, given, value⟩ := resets.reset
    refine convert_eq_ok_some_iff.mpr ⟨o, given, ?_⟩
    rw [value, taken]
  · rename_i different
    have same := resets.others name (Ne.symm different)
    change options'.find? _ = options.find? _ at same
    rw [OptionSet.convert, same]
    exact done

theorem setting (resets : options.Resets options' keyword)
    {conversion : Field → Setting → Except CompileError Setting} {v : Option Setting}
    (taken : ∀ f, conversion f .reset = .ok .reset)
    (done : options.convert params name conversion = .ok v) :
    options'.convert params name conversion = .ok (Setting.resetAt keyword name v) :=
  resets.convert taken done

theorem typed (resets : options.Resets options' keyword) {type : FieldType} {v : Option Setting}
    (done : options.typed params name type = .ok v) :
    options'.typed params name type = .ok (Setting.resetAt keyword name v) :=
  resets.setting (fun _ => rfl) done

/-- A program that does not ask for the option has the same result. -/
theorem read (resets : options.Resets options' keyword) {names : List String} {p : Filling α}
    (asks : p.Asks names) (unasked : keyword ∉ names) :
    p.read params options' = p.read params options :=
  asks.read_congr fun name asked => resets.others name fun same => unasked (same ▸ asked)

end OptionSet.Resets

/-! ### Options of every endpoint -/

namespace BaseOptions

/-- The options after a keyword has been reset. -/
def reset (keyword : String) (base : BaseOptions) : BaseOptions where
  region := Setting.resetAt keyword "region" base.region
  memory := Setting.resetAt keyword "memory" base.memory
  cpu := Setting.resetAt keyword "cpu" base.cpu
  timeoutSeconds := Setting.resetAt keyword "timeoutSeconds" base.timeoutSeconds
  minInstances := Setting.resetAt keyword "minInstances" base.minInstances
  maxInstances := Setting.resetAt keyword "maxInstances" base.maxInstances
  concurrency := Setting.resetAt keyword "concurrency" base.concurrency
  serviceAccount := Setting.resetAt keyword "serviceAccount" base.serviceAccount
  ingressSettings := Setting.resetAt keyword "ingressSettings" base.ingressSettings
  vpcConnector := Setting.resetAt keyword "vpcConnector" base.vpcConnector
  vpcEgress := Setting.resetAt keyword "vpcConnectorEgressSettings" base.vpcEgress
  labels := Setting.resetAt keyword "labels" base.labels
  secrets := if keyword = "secrets" then some [] else base.secrets
  omitted := Setting.resetAt keyword "omit" base.omitted

variable {base fallback : BaseOptions} {keyword : String}

/-- An option that is reset hides the one for all endpoints. -/
theorem reset_orElse :
    (base.reset keyword).orElse fallback = (base.orElse fallback).reset keyword := by
  simp only [reset, orElse, Setting.resetAt_or, mk.injEq, true_and, and_true]
  split <;> rfl

theorem ofOptions_reset {options options' : OptionSet} {params : ParamTable}
    (resets : options.Resets options' keyword) (done : ofOptions options params = .ok base) :
    ofOptions options' params = .ok (base.reset keyword) := by
  have c := ofOptions_eq_ok_iff.mp done
  exact ofOptions_eq_ok_iff.mpr {
    region := resets.setting (fun _ => rfl) c.region
    memory := resets.setting (fun _ => rfl) c.memory
    cpu := resets.typed c.cpu
    timeoutSeconds := resets.typed c.timeoutSeconds
    minInstances := resets.typed c.minInstances
    maxInstances := resets.typed c.maxInstances
    concurrency := resets.typed c.concurrency
    serviceAccount := resets.typed c.serviceAccount
    ingressSettings := resets.typed c.ingressSettings
    vpcConnector := resets.typed c.vpcConnector
    vpcEgress := resets.typed c.vpcEgress
    labels := resets.setting (fun _ => rfl) c.labels
    secrets := resets.convert (fun _ => rfl) c.secrets
    omitted := resets.typed c.omitted }

/-- An option of the family's own makes no difference to those of every endpoint. -/
theorem ofOptions_of_own {options options' : OptionSet} {params : ParamTable}
    (resets : options.Resets options' keyword) (own : keyword ∉ Family.baseOptions) :
    ofOptions options' params = ofOptions options params := by
  obtain ⟨names, all, asks⟩ := Filling.asks_base
  exact resets.read asks fun asked => own (all.mem_iff.mp asked)

end BaseOptions

/-! ### Parts of triggers -/

/-- The repetition settings after a keyword has been reset. -/
def Retry.reset (keyword attemptsName : String) (r : Retry) : Retry where
  attempts := Setting.resetAt keyword attemptsName r.attempts
  maxRetrySeconds := Setting.resetAt keyword "maxRetrySeconds" r.maxRetrySeconds
  minBackoffSeconds := Setting.resetAt keyword "minBackoffSeconds" r.minBackoffSeconds
  maxBackoffSeconds := Setting.resetAt keyword "maxBackoffSeconds" r.maxBackoffSeconds
  maxDoublings := Setting.resetAt keyword "maxDoublings" r.maxDoublings

namespace TriggerSource

variable {s : TriggerSource} {options' : OptionSet} {keyword : String}

/-- The registration with other options. -/
def withOptions (s : TriggerSource) (options : OptionSet) : TriggerSource :=
  { s with options := options }

@[simp] theorem eventType_withOptions : (s.withOptions options').eventType = s.eventType := rfl

theorem typed_reset (resets : s.options.Resets options' keyword) {name : String} {type : FieldType}
    {v : Option Setting} (done : s.typed name type = .ok v) :
    (s.withOptions options').typed name type = .ok (Setting.resetAt keyword name v) :=
  resets.typed done

theorem invoker_reset (resets : s.options.Resets options' keyword) {v : Option Setting}
    (done : s.options.convert s.params "invoker" Field.stringList = .ok v) :
    options'.convert s.params "invoker" Field.stringList =
      .ok (Setting.resetAt keyword "invoker" v) :=
  resets.setting (fun _ => rfl) done

theorem repeats_reset (resets : s.options.Resets options' keyword) {attemptsName : String}
    {r : Retry} (done : s.Repeats attemptsName r) :
    (s.withOptions options').Repeats attemptsName (r.reset keyword attemptsName) := by
  obtain ⟨attempts, maxRetry, minBackoff, maxBackoff, doublings⟩ := done
  exact ⟨resets.typed attempts, resets.typed maxRetry, resets.typed minBackoff,
    resets.typed maxBackoff, resets.typed doublings⟩

/-- A token that is reset is not passed on. -/
theorem token_reset (resets : s.options.Resets options' keyword) {name : String}
    {entries : KeyMap Setting} (done : s.read (.token name) = .ok entries) :
    (s.withOptions options').read (.token name) =
      .ok (if keyword = name then [] else entries) := by
  obtain ⟨given, typed, rfl⟩ := read_token_eq_ok_iff.mp done
  refine read_token_eq_ok_iff.mpr ⟨_, typed_reset resets typed, ?_⟩
  by_cases same : keyword = name
  · rw [same, Setting.resetAt_self, if_pos rfl]
    rfl
  · rw [Setting.resetAt_of_ne same, if_neg same]

/-- A filter that is reset has no entry. -/
theorem filterOr_reset (resets : s.options.Resets options' keyword) {name default : String}
    {entries : KeyMap String} (done : s.read (.filterOr name default) = .ok entries) :
    (s.withOptions options').read (.filterOr name default) =
      .ok (if keyword = name then [] else entries) := by
  obtain ⟨given, converted, rfl⟩ := read_filterOr_eq_ok_iff.mp done
  refine read_filterOr_eq_ok_iff.mpr ⟨_, resets.convert (fun _ => rfl) converted, ?_⟩
  by_cases same : keyword = name
  · rw [if_pos same, if_pos same]
    rfl
  · rw [if_neg same, if_neg same]

/-- An option of every endpoint makes no difference to the trigger. -/
theorem trigger_of_base (resets : s.options.Resets options' keyword)
    (placed : s.address.isSome = s.family.addressKeyword?.isSome)
    (shared : keyword ∈ Family.baseOptions) : (s.withOptions options').trigger = s.trigger := by
  obtain ⟨names, all, asks⟩ := Filling.asks_trigger placed s.eventType
  refine resets.read asks fun asked => ?_
  have distinct := List.nodup_append.mp s.family.nodup_options
  exact distinct.2.2 _ (all.mem_iff.mp asked) _ shared rfl

end TriggerSource

end DeployManifest
