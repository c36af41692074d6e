import DeployManifest.Proofs.Compile.Site
import DeployManifest.Proofs.Options.Filling
import DeployManifest.Proofs.Options.Given
import DeployManifest.Proofs.Options.Order

/-! # Every option is used

An endpoint is filled by a program that asks for the options of its family and then for those of
every endpoint (`Registration.filling`). When the options stay, it gives the trigger and the options
of every endpoint that the endpoint is made of (`Registration.read_filling`). The names that it asks
for are those that the family accepts, each once (`Registration.asks_filling`), so that no option is
accepted and then overlooked (`Registration.uses_options`).
-/

namespace DeployManifest

open Outcome

/-! ### What the programs ask for -/

namespace Filling

theorem asks_retry (attemptsName : String) :
    Asks [attemptsName, "maxRetrySeconds", "minBackoffSeconds", "maxBackoffSeconds",
      "maxDoublings"] (retry attemptsName) :=
  .typed fun _ => .typed fun _ => .typed fun _ => .typed fun _ => .typed fun _ => .pure _

theorem asks_token (name : String) : Asks [name] (token name) :=
  .typed fun _ => .pure _

theorem asks_filterOr (name default : String) : Asks [name] (filterOr name default) :=
  .option fun _ => .pure _

theorem asks_taskQueue :
    Asks ["maxAttempts", "maxRetrySeconds", "minBackoffSeconds", "maxBackoffSeconds",
      "maxDoublings", "maxConcurrentDispatches", "maxDispatchesPerSecond", "invoker"] taskQueue :=
  (asks_retry "maxAttempts").bind fun _ =>
    .typed fun _ => .typed fun _ => .option fun _ => .pure _

theorem asks_schedule (cron : String) :
    Asks ["retryCount", "maxRetrySeconds", "minBackoffSeconds", "maxBackoffSeconds",
      "maxDoublings", "timeZone"] (schedule cron) :=
  (asks_retry "retryCount").bind fun _ => .typed fun _ => .pure _

theorem asks_blocking (eventType : String) :
    Asks ["idToken", "accessToken", "refreshToken"] (blocking eventType) :=
  (asks_token "idToken").bind fun _ => (asks_token "accessToken").bind fun _ =>
    (asks_token "refreshToken").bind fun _ => .pure _

theorem asks_firestore (address : Address) (filter : EventFilter) :
    Asks ["database", "namespace"] (firestore address filter) :=
  (Asks.ofOutcome _).bind fun document => (asks_filterOr "database" _).bind fun _ =>
    (asks_filterOr "namespace" _).bind fun _ => by
      dsimp only
      split <;> exact .pure _

theorem asks_database (address : Address) (filter : EventFilter) :
    Asks ["instance"] (database address filter) :=
  (Asks.ofOutcome _).bind fun _ => (asks_filterOr "instance" _).bind fun _ => .pure _

theorem asks_eventarc (filter : EventFilter) : Asks ["filters", "channel"] (eventarc filter) :=
  .option fun _ => .option fun _ => .pure _

/-- The program asks for the options of the family, when the family decides whether there is an
address. -/
theorem asks_trigger {family : Family} {address : Option Address}
    (placed : address.isSome = family.addressKeyword?.isSome) (eventType : String) :
    ∃ names, names.Perm family.triggerOptions ∧ Asks names (trigger family address eventType) := by
  have given {keyword : String} (addressed : family.addressKeyword? = some keyword) :
      ∃ a, address = some a := by
    rw [addressed] at placed
    exact Option.isSome_iff_exists.mp placed
  cases family with
  | https => exact ⟨["invoker"], .refl _, .option fun _ => .pure _⟩
  | callable => exact ⟨[], .refl _, .pure _⟩
  | taskQueue => exact ⟨_, by decide, asks_taskQueue⟩
  | scheduler => exact ⟨_, by decide, asks_schedule _⟩
  | identity => exact ⟨_, by decide, asks_blocking _⟩
  | pubSub | storage =>
    obtain ⟨a, rfl⟩ := given rfl
    exact ⟨["retry"], .refl _, .typed fun _ => .pure _⟩
  | remoteConfig | testLab => exact ⟨["retry"], .refl _, .typed fun _ => .pure _⟩
  | firestore =>
    obtain ⟨a, rfl⟩ := given rfl
    exact ⟨_, .refl _, .typed fun _ => (asks_firestore a _).bind fun _ => .pure _⟩
  | database =>
    obtain ⟨a, rfl⟩ := given rfl
    exact ⟨_, .refl _, .typed fun _ => (asks_database a _).bind fun _ => .pure _⟩
  | eventarc =>
    refine ⟨["retry", "filters", "channel"], by decide, ?_⟩
    exact .typed fun _ => (asks_eventarc _).bind fun _ => .pure _

theorem asks_base : ∃ names, names.Perm Family.baseOptions ∧ Asks names base := by
  refine ⟨["region", "memory", "cpu", "timeoutSeconds", "minInstances", "maxInstances",
    "concurrency", "serviceAccount", "ingressSettings", "vpcConnector",
    "vpcConnectorEgressSettings", "labels", "omit", "secrets"], by decide, ?_⟩
  exact .option fun _ => .option fun _ => .typed fun _ => .typed fun _ => .typed fun _ =>
    .typed fun _ => .typed fun _ => .typed fun _ => .typed fun _ => .typed fun _ => .typed fun _ =>
    .option fun _ => .typed fun _ => .option fun _ => .pure _

end Filling

/-! ### Registrations -/

/-- The options that a family takes have names of their own. -/
theorem Family.nodup_options (family : Family) :
    (family.triggerOptions ++ baseOptions).Nodup := by
  cases family <;> decide

theorem Family.accepts_eq_true_iff {family : Family} {keyword : String} :
    family.accepts keyword = true ↔ keyword ∈ family.triggerOptions ++ baseOptions := by
  simp [accepts, or_comm]

namespace Registration

variable {r : Registration} {c : BoundCall} {s : Scope} {options : OptionSet}

/-- The options of a registration have distinct names, which its family accepts. -/
theorem options_of_bound (bound : r.bound = .ok c) :
    (c.options.map (·.name)).Nodup ∧ ∀ k ∈ c.options, r.family.accepts k.name = true := by
  unfold Registration.bound at bound
  split at bound
  · cases bound
  · simp only [bind_eq_ok_iff] at bound
    obtain ⟨args, added, _, -, _, -, bound⟩ := bound
    split at bound
    · cases bound
    · simp only [bind_eq_ok_iff, optionsOf_eq_ok_iff, pure_eq_ok_iff] at bound
      obtain ⟨_, ⟨accepted, rfl⟩, rfl⟩ := bound
      have initial : ((⟨[], []⟩ : Arguments).keywords.map (·.name)).Nodup := List.nodup_nil
      refine ⟨(keywords_of_foldlM initial added).2.sublist (List.filter_sublist.map _), ?_⟩
      intro k member
      obtain ⟨written, free⟩ := List.mem_filter.mp member
      exact accepted k written (by simpa using (Bool.and_eq_true_iff.mp free).1)

theorem names_of_bound (bound : r.bound = .ok c) (evaluated : s.options c.options = .ok options) :
    options.DistinctNames ∧ ∀ o ∈ options, r.family.accepts o.name = true := by
  obtain ⟨distinct, accepted⟩ := options_of_bound bound
  refine ⟨?_, Scope.forall_name_of_options (r.family.accepts · = true) evaluated accepted⟩
  rwa [OptionSet.DistinctNames, Scope.names_of_options evaluated]

/-- The program that fills the endpoint of a registration: it asks for the options of the trigger,
then for those of every endpoint. -/
def filling (r : Registration) (c : BoundCall) : Filling (Trigger × BaseOptions) := do
  let trigger ← Filling.trigger r.family c.address (r.triggerSource c [] .empty).eventType
  let base ← Filling.base
  return (trigger, base)

/-- With options that stay, the program gives what the endpoint is made of. -/
theorem read_filling (c : BoundCall) (options : OptionSet) (params : ParamTable) :
    (r.filling c).read params options = (do
      let trigger ← (r.triggerSource c options params).trigger
      let base ← BaseOptions.ofOptions options params
      return (trigger, base)) := by
  simp only [filling, Filling.read_bind, Filling.read_pure]
  rfl

theorem asks_filling (bound : r.bound = .ok c) :
    ∃ names, names.Perm (r.family.triggerOptions ++ Family.baseOptions) ∧
      Filling.Asks names (r.filling c) := by
  obtain ⟨names, own, asks⟩ := Filling.asks_trigger (of_bound bound).2
    (r.triggerSource c [] .empty).eventType
  obtain ⟨more, shared, asksMore⟩ := Filling.asks_base
  refine ⟨names ++ (more ++ []), ?_, asks.bind fun _ => asksMore.bind fun _ => .pure _⟩
  rw [List.append_nil]
  exact own.append shared

/-- No option of a registration is overlooked. When options are gone once they have been asked for,
the same endpoint is filled, and in the end no option is left: each one has been converted exactly
once, and has passed. -/
theorem uses_options (bound : r.bound = .ok c) (evaluated : s.options c.options = .ok options) :
    ((r.filling c).consume s.params options).map (·.value) = (do
      let trigger ← (r.triggerSource c options s.params).trigger
      let base ← BaseOptions.ofOptions options s.params
      return (trigger, base)) ∧
    ∀ filled, (r.filling c).consume s.params options = .ok filled →
      filled.left = [] ∧ (filled.uses.map (·.option)).Perm options ∧
        ∀ use ∈ filled.uses, use.Passes s.params := by
  obtain ⟨names, all, asks⟩ := asks_filling bound
  obtain ⟨distinct, accepted⟩ := names_of_bound bound evaluated
  have once : names.Nodup := all.nodup_iff.mpr r.family.nodup_options
  refine ⟨(asks.consume_value once).trans (read_filling ..), fun filled consumed => ?_⟩
  obtain ⟨conserved, passed⟩ := Filling.consume_conserves consumed
  have left : filled.left = [] := by
    refine List.eq_nil_iff_forall_not_mem.mpr fun o member => ?_
    have given := conserved.mem_iff.mp (List.mem_append_right _ member)
    have asked := all.mem_iff.mpr (Family.accepts_eq_true_iff.mp (accepted o given))
    exact OptionSet.option?_eq_none_iff.mp (asks.left_of_consume distinct consumed _ asked)
      o member rfl
  rw [left, List.append_nil] at conserved
  exact ⟨left, conserved, passed⟩

/-- A document is listened to with options of the family and of every endpoint. -/
def watchedOrders : SourceModule :=
  ⟨"main.py",
    ("@firestore.onDocumentCreated(\"orders/\x7bid\x7d\", memory=\"1GiB\", cpu=None, "
      ++ "database=\"main\", retry=True)\n"
      ++ "def order(event): pass\n").toList⟩

set_option maxRecDepth 100000 in
/-- The three options that are given are used in the order in which they are asked for. -/
theorem uses_options_watchedOrders :
    ∃ (scan : ModuleScan) (r : Registration) (c : BoundCall) (options : OptionSet)
      (filled : Filled (Trigger × BaseOptions)),
      watchedOrders.scan = .ok scan ∧ r ∈ scan.registrations ∧ r.bound = .ok c ∧
      Scope.options ⟨.empty, scan⟩ c.options = .ok options ∧
      (r.filling c).consume .empty options = .ok filled ∧
      filled.uses.map (·.option.name) = ["retry", "database", "memory"] ∧
      filled.left = [] ∧ (filled.uses.map (·.option)).Perm options ∧
      ∀ use ∈ filled.uses, use.Passes .empty := by
  let consumed (scan : ModuleScan) (r : Registration) := do
    let c ← r.bound
    let options ← Scope.options ⟨.empty, scan⟩ c.options
    (r.filling c).consume .empty options
  have computed :
      (watchedOrders.scan >>= fun scan => scan.registrations.mapM (consumed scan)).toOption.map
        (fun rows => rows.map fun filled => filled.uses.map (·.option.name)) =
      some [["retry", "database", "memory"]] := by
    decide +kernel
  obtain ⟨rows, ran, names⟩ := exists_ok_of_toOption computed
  obtain ⟨filled, rfl, used⟩ := List.map_eq_singleton_iff.mp names
  obtain ⟨scan, searched, ran⟩ := bind_eq_ok_iff.mp ran
  obtain ⟨r, registered, ran⟩ := exists_of_mem_of_mapM ran (List.mem_singleton_self filled)
  simp only [consumed, bind_eq_ok_iff] at ran
  obtain ⟨c, bound, options, evaluated, consumed⟩ := ran
  obtain ⟨left, all, passed⟩ :=
    (uses_options (s := ⟨.empty, scan⟩) bound evaluated).2 filled consumed
  exact ⟨scan, r, c, options, filled, searched, registered, bound, evaluated, consumed, used, left,
    all, passed⟩

end Registration

end DeployManifest
