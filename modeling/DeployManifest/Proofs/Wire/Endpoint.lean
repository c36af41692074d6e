import DeployManifest.Proofs.Compile.Manifest
import DeployManifest.Proofs.Options.Merge
import DeployManifest.Proofs.Wire.Trigger

/-! # Endpoints as they are written

Each option of an endpoint comes from the argument that counts for it, and stands in its field
unless it is reset (`Registration.isMerged_of_endpoint`). The fields of the trigger know nothing of
the options that are set for all endpoints.
-/

namespace DeployManifest

open Outcome

/-- The field follows the argument that counts for its option: it shows what that has been converted
to or the default, is left out for a reset, and keeps numbers and truth values as they are. -/
structure WireField.Follows (field : WireField) (r : Registration) (s : Scope)
    (calls : List (ModuleScan × GlobalCall)) (e : Endpoint) : Prop where
  shows : ∃ value, r.Merges s calls field.keyword field.conversion value ∧
    field.Shows e (value.or field.default)
  reset : ∀ scope value location, r.Counts s calls field.keyword scope value location →
    scope.evaluate value = .ok .reset → ¬ e.document.Has field.path
  kept : ∀ scope value location l, r.Counts s calls field.keyword scope value location →
    scope.evaluate value = .ok (.literal l) → l.isNumber = true ∨ l.isBool = true →
      e.document.HasAt field.path l.document

/-- How the options of a registration and those for all endpoints are found again in an endpoint
and in its written form. -/
structure Endpoint.IsMerged (r : Registration) (s : Scope)
    (calls : List (ModuleScan × GlobalCall)) (e : Endpoint) : Prop where
  /-- A reset is held like any other value, so it hides the default. -/
  held : ∀ field ∈ baseFields, ∃ value,
    r.Merges s calls field.keyword field.conversion value ∧ field.held e = value.or field.default
  base : ∀ field ∈ baseFields, field.Follows r s calls e
  /-- The labels are left out when they are empty, and there is one in them otherwise. -/
  labels : (∀ scope value location, r.Counts s calls "labels" scope value location →
      scope.evaluate value = .ok (.literal (.map [])) →
        e.labels = some .reset ∧ ¬ e.document.Has ["labels"]) ∧
    (e.document.Has ["labels"] ↔ ∃ name, e.document.Has ["labels", name])
  secrets : ∃ names,
    r.Merges s calls "secrets" (fun _ value => .ok (BaseOptions.secretNames value)) names ∧
      e.secrets = names.getD []
  secretNames : ∀ d, e.document.HasAt ["secretEnvironmentVariables"] d ↔ e.secrets ≠ [] ∧
    Document.list (e.secrets.map fun name => .record [("key", .text name)]) = d
  /-- No names, or a reset, hide the secrets that are set for all endpoints. -/
  noSecrets : ∀ scope value location v, r.Counts s calls "secrets" scope value location →
    scope.secrets value = .ok v → v = .texts [] ∨ v = .reset →
      e.secrets = [] ∧ ¬ e.document.Has ["secretEnvironmentVariables"]
  vpc : ∃ connector egress,
    r.Merges s calls "vpcConnector" (fun f value => f.typed .string value) connector ∧
      r.Merges s calls "vpcConnectorEgressSettings"
        (fun f value => f.typed (.oneOf Constants.egressSettings) value) egress ∧
      e.vpc = (Setting.present? connector).map fun c => ⟨c, Setting.present? egress⟩
  network : ∀ field ∈ vpcFields, field.Follows r s calls e
  /-- The call for all endpoints is left aside. -/
  trigger : ∀ field ∈ r.family.triggerFields, field.Follows r s [] e
  unchanged : ∀ globals other, r.endpoint s globals = .ok other → other.trigger = e.trigger
  /-- A group of fields is there with one of them only. -/
  group : ∀ group ∈ ["vpc"] :: TriggerSource.groups, e.document.Has group ↔
    ∃ field ∈ vpcFields ++ r.family.triggerFields,
      field.group = group ∧ e.document.Has field.path
  token : ∀ name d, e.document.HasAt ["blockingTrigger", "options", name] d ↔
    r.family = .identity ∧ name ∈ Family.identity.triggerOptions ∧
      ∃ v, r.Merges s [] name (fun f value => f.typed .boolean value) (some v) ∧
        TriggerSource.Passes v ∧ v.document = d
  tokens : e.document.Has ["blockingTrigger", "options"] ↔
    ∃ name, e.document.Has ["blockingTrigger", "options", name]

/-! ### Single fields -/

namespace WireField

variable {field : WireField} {r : Registration} {s : Scope}
  {calls : List (ModuleScan × GlobalCall)} {e : Endpoint} {value : Option Setting}

theorem follows (plain : r.Unambiguous calls) (notSecrets : field.keyword ≠ "secrets")
    (keeps : field.Keeps) (merges : r.Merges s calls field.keyword field.conversion value)
    (shown : field.Shows e (value.or field.default)) : field.Follows r s calls e := by
  have evaluates {scope : Scope} {written : Expr} {location : Location} {v : Setting}
      (counts : r.Counts s calls field.keyword scope written location)
      (evaluated : scope.evaluate written = .ok v) :
      ∃ w, value = some w ∧ field.conversion ⟨s.params, field.keyword, location⟩ v = .ok w := by
    refine merges.of_counts plain counts ?_
    rw [Scope.valueOf, if_neg notSecrets]
    exact evaluated
  refine ⟨⟨value, merges, shown⟩, ?_, ?_⟩
  · rintro scope written location counts evaluated ⟨d, inside⟩
    obtain ⟨w, rfl, converted⟩ := evaluates counts evaluated
    obtain rfl := Except.ok.inj ((keeps.reset _).symm.trans converted)
    obtain ⟨v, ⟨⟩, notReset, -⟩ := (shown d).mp inside
    exact notReset rfl
  · intro scope written location l counts evaluated ofKind
    obtain ⟨w, rfl, converted⟩ := evaluates counts evaluated
    obtain rfl := keeps.literal _ l w ofKind converted
    exact (shown _).mpr ⟨.literal l, rfl, by simp, rfl⟩

end WireField

/-! ### Network settings -/

/-- The fields of the network settings show the options, of which an egress needs a connector. -/
theorem shows_vpcFields {e : Endpoint} {connector egress : Option Setting}
    (needs : ∀ v, Setting.present? egress = some v → (Setting.present? connector).isSome)
    (vpc : e.vpc = (Setting.present? connector).map fun c => ⟨c, Setting.present? egress⟩) :
    (WireField.typed "vpcConnector" .string ["vpc"] "connector").Shows e connector ∧
      (WireField.typed "vpcConnectorEgressSettings" (.oneOf Constants.egressSettings) ["vpc"]
        "egressSettings").Shows e egress := by
  constructor
  · intro d
    refine Endpoint.hasAt_vpc.trans ?_
    rw [vpc, Setting.isWritten_iff]
    cases Setting.present? connector <;> simp [Endpoint.vpcDocument, WireField.typed]
  · intro d
    refine Endpoint.hasAt_vpc.trans ?_
    rw [vpc]
    cases given : Setting.present? connector with
    | some c => simp [Endpoint.vpcDocument, WireField.typed, Setting.isWritten_present?]
    | none =>
      have none : ¬ Setting.IsWritten egress d := by
        rw [Setting.isWritten_iff]
        rintro ⟨v, present, -⟩
        have connected := needs v present
        rw [given] at connected
        cases connected
      simp [none]

theorem exists_of_vpc {e : Endpoint} {connector : Option Setting}
    (vpc : e.vpc.isSome → (Setting.present? connector).isSome)
    (shown : (WireField.typed "vpcConnector" .string ["vpc"] "connector").Shows e connector)
    (given : e.document.Has ["vpc"]) : e.document.Has ["vpc", "connector"] := by
  obtain ⟨d, given⟩ := given
  obtain ⟨settings, present, -⟩ := Endpoint.hasAt_vpc.mp given
  have some := vpc (by rw [Option.mem_def.mp present]; rfl)
  obtain ⟨v, found⟩ := Option.isSome_iff_exists.mp some
  obtain ⟨given, notReset⟩ := Setting.mem_present?_iff.mp found
  exact ⟨v.document, (shown _).mpr ⟨v, given, notReset, rfl⟩⟩

/-! ### Labels -/

/-- Labels that are not reset are there. -/
theorem Field.of_stringMapSetting {f : Field} {v w : Setting}
    (converted : f.stringMapSetting v = .ok w) :
    w = .reset ∨ ∃ entry entries, w = .literal (.map (entry :: entries)) := by
  simp only [stringMapSetting, bind_eq_ok_iff] at converted
  obtain ⟨entries, -, converted⟩ := converted
  split at converted
  · cases converted
    exact .inl rfl
  · rename_i nonempty
    cases converted
    cases entries with
    | nil => exact absurd rfl nonempty
    | cons entry entries => exact .inr ⟨_, _, rfl⟩

theorem exists_of_labels {r : Registration} {s : Scope} {calls : List (ModuleScan × GlobalCall)}
    {e : Endpoint} {value : Option Setting}
    (merges : r.Merges s calls "labels" Field.stringMapSetting value)
    (shown : ∀ d, e.document.HasAt ["labels"] d ↔ Setting.IsWritten value d)
    (given : e.document.Has ["labels"]) : ∃ name, e.document.Has ["labels", name] := by
  obtain ⟨d, given⟩ := given
  obtain ⟨v, present, notReset, rfl⟩ := (shown d).mp given
  cases merges with
  | nothing => cases present
  | value _ _ converted =>
    cases present
    rcases Field.of_stringMapSetting converted with rfl | ⟨entry, entries, rfl⟩
    · exact absurd rfl notReset
    · obtain ⟨name, l⟩ := entry
      have inside : e.document.HasAt (["labels"] ++ [name]) l.document :=
        Document.hasAt_append.mpr ⟨_, given, by
          simp [Setting.document, Literal.document, Literal.entryDocuments]⟩
      exact ⟨name, l.document, inside⟩

/-! ### Endpoints -/

namespace Registration

theorem unambiguous_of_bound {r : Registration} {c : BoundCall} {params : ParamTable}
    {calls : List (ModuleScan × GlobalCall)} {globals : GlobalOptions} (bound : r.bound = .ok c)
    (set : GlobalOptions.Sets params calls globals) : r.Unambiguous calls where
  own := (among_of_bound bound).distinct
  shared := by
    cases set with
    | none => simp
    | once set =>
      obtain ⟨args, bound, -⟩ := bind_eq_ok_iff.mp set
      exact List.forall_mem_singleton.mpr (GlobalCall.among_of_bound bound).distinct
  once := by
    cases set <;> simp

/-- The trigger of an endpoint is made of the registration alone. -/
theorem trigger_eq {r : Registration} {s : Scope} {globals others : GlobalOptions}
    {e other : Endpoint} (made : r.endpoint s globals = .ok e)
    (again : r.endpoint s others = .ok other) : other.trigger = e.trigger := by
  obtain ⟨c, options, _, bound, evaluated, triggered, -, -⟩ := endpoint_eq_ok_iff.mp made
  obtain ⟨c', options', _, bound', evaluated', triggered', -, -⟩ := endpoint_eq_ok_iff.mp again
  obtain rfl := Except.ok.inj (bound.symm.trans bound')
  obtain rfl := Except.ok.inj (evaluated.symm.trans evaluated')
  exact Except.ok.inj (triggered'.symm.trans triggered)

/-- What an endpoint is made of: the options of every endpoint after merging, and the source of its
trigger. -/
structure Builds (r : Registration) (s : Scope) (calls : List (ModuleScan × GlobalCall))
    (base : BaseOptions) (source : TriggerSource) (e : Endpoint) : Prop where
  plain : r.Unambiguous calls
  merges : ∀ {α : Type} {name : String} {conversion : Field → Setting → Except CompileError α}
    {get : BaseOptions → Option α}, BaseOptions.Reads name conversion get →
    name ∈ Family.baseOptions → r.Merges s calls name conversion (get base)
  held : ∀ field ∈ baseFields, field.held e = (field.given base).or field.default
  vpc : base.vpc r.location = .ok e.vpc
  secrets : e.secrets = base.secrets.getD []
  family : source.family = r.family
  trigger : source.Makes e.trigger
  triggerMerges : ∀ {α : Type} {name : String}
    {conversion : Field → Setting → Except CompileError α} {a : Option α},
    name ∈ r.family.triggerOptions → source.options.convert source.params name conversion = .ok a →
    r.Merges s [] name conversion a

variable {r : Registration} {s : Scope} {calls : List (ModuleScan × GlobalCall)}
  {base : BaseOptions} {source : TriggerSource} {e : Endpoint}

theorem exists_builds {globals : GlobalOptions} (set : GlobalOptions.Sets s.params calls globals)
    (made : r.endpoint s globals = .ok e) : ∃ base source, r.Builds s calls base source e := by
  obtain ⟨c, options, base, bound, evaluated, triggered, converted, assembled⟩ :=
    endpoint_eq_ok_iff.mp made
  obtain ⟨held, vpc, secrets⟩ := BaseOptions.held_of_endpoint assembled
  exact ⟨base.orElse globals.base, r.triggerSource c options s.params, {
    plain := unambiguous_of_bound bound set
    merges := fun reads option => reads.merges option set bound evaluated converted
    held, vpc, secrets
    family := rfl
    trigger := TriggerSource.makes_of_trigger triggered
    triggerMerges := fun option done => .of_own (Scope.gives_of_convert (among_of_bound bound)
      (isReserved_eq_false (List.mem_append_right _ option)) evaluated done) }⟩

namespace Builds

theorem mergesField (builds : r.Builds s calls base source e) : ∀ field ∈ baseFields,
    r.Merges s calls field.keyword field.conversion (field.given base) := by
  intro field member
  have known : ∀ field ∈ baseFields, field.keyword ∈ Family.baseOptions := by decide
  exact builds.merges (BaseOptions.reads_baseFields field member) (known field member)

theorem followsField (builds : r.Builds s calls base source e) :
    ∀ field ∈ baseFields, field.Follows r s calls e := by
  intro field member
  have notSecrets : ∀ field ∈ baseFields, field.keyword ≠ "secrets" := by decide
  refine WireField.follows builds.plain (notSecrets field member) (BaseField.keeps field member)
    (builds.mergesField field member) ?_
  rw [← builds.held field member]
  exact BaseField.shows_held field member

/-- Labels that are empty count as a reset. -/
theorem labels (builds : r.Builds s calls base source e) :
    (∀ scope value location, r.Counts s calls "labels" scope value location →
      scope.evaluate value = .ok (.literal (.map [])) →
        e.labels = some .reset ∧ ¬ e.document.Has ["labels"]) ∧
      (e.document.Has ["labels"] ↔ ∃ name, e.document.Has ["labels", name]) := by
  have member : ⟨⟨"labels", Field.stringMapSetting, [], "labels", none⟩, BaseOptions.labels,
      Endpoint.labels⟩ ∈ baseFields := by simp [baseFields]
  have merges : r.Merges s calls "labels" Field.stringMapSetting base.labels :=
    builds.mergesField _ member
  have shown : ∀ d, e.document.HasAt ["labels"] d ↔ Setting.IsWritten e.labels d :=
    BaseField.shows_held _ member
  have held : e.labels = base.labels.or none := builds.held _ member
  rw [Option.or_none] at held
  refine ⟨?_, ?_, ?_⟩
  · intro scope value location counts evaluated
    obtain ⟨w, given, converted⟩ := merges.of_counts builds.plain counts evaluated
    cases converted
    rw [given] at held
    refine ⟨held, ?_⟩
    rintro ⟨d, inside⟩
    obtain ⟨v, present, notReset, -⟩ := (shown d).mp inside
    rw [held] at present
    cases present
    exact notReset rfl
  · intro given
    rw [held] at shown
    exact exists_of_labels merges shown given
  · rintro ⟨name, inside⟩
    have member : e.document.Has (["labels"] ++ [name]) := inside
    exact member.of_append

theorem noSecrets (builds : r.Builds s calls base source e) :
    ∀ scope value location v, r.Counts s calls "secrets" scope value location →
      scope.secrets value = .ok v → v = .texts [] ∨ v = .reset →
        e.secrets = [] ∧ ¬ e.document.Has ["secretEnvironmentVariables"] := by
  intro scope value location v counts evaluated empty
  have merges := builds.merges BaseOptions.reads_secrets (by decide)
  obtain ⟨w, given, converted⟩ := merges.of_counts builds.plain counts evaluated
  have none : e.secrets = [] := by
    rw [builds.secrets, given, Option.getD_some, ← Except.ok.inj converted]
    rcases empty with rfl | rfl <;> rfl
  refine ⟨none, ?_⟩
  rintro ⟨d, inside⟩
  exact (Endpoint.hasAt_secrets.mp inside).1 none

theorem network (builds : r.Builds s calls base source e) :
    (∀ field ∈ vpcFields, field.Follows r s calls e) ∧
      (e.document.Has ["vpc"] → e.document.Has ["vpc", "connector"]) := by
  obtain ⟨needs, vpc⟩ := BaseOptions.vpc_eq_ok_iff.mp builds.vpc
  obtain ⟨connector, egress⟩ := shows_vpcFields needs vpc
  have keeps := keeps_vpcFields
  simp only [vpcFields, List.forall_mem_cons] at keeps ⊢
  obtain ⟨keepsConnector, keepsEgress, -⟩ := keeps
  refine ⟨⟨WireField.follows builds.plain (by simp [WireField.typed]) keepsConnector
      (builds.merges BaseOptions.reads_vpcConnector (by decide)) ?_,
    WireField.follows builds.plain (by simp [WireField.typed]) keepsEgress
      (builds.merges BaseOptions.reads_vpcEgress (by decide)) ?_, by simp⟩, ?_⟩
  · rw [WireField.typed, Option.or_none]
    exact connector
  · rw [WireField.typed, Option.or_none]
    exact egress
  · refine exists_of_vpc (fun present => ?_) connector
    rw [vpc, Option.isSome_map] at present
    exact present

theorem followsTrigger (builds : r.Builds s calls base source e) :
    ∀ field ∈ r.family.triggerFields, field.Follows r s [] e := by
  intro field member
  have alone : r.Unambiguous [] := ⟨builds.plain.own, by simp, by simp⟩
  have option := r.family.keyword_triggerFields field member
  have notSecrets : field.keyword ≠ "secrets" := by
    have others : "secrets" ∉ r.family.triggerOptions := by cases r.family <;> decide
    exact fun same => others (same ▸ option)
  rw [← builds.family] at member
  obtain ⟨value, done, shown⟩ := TriggerSource.fills_of_makes builds.trigger field member
  exact WireField.follows alone notSecrets (Family.keeps_triggerFields _ field member)
    (builds.triggerMerges option done) shown

theorem group (builds : r.Builds s calls base source e) :
    ∀ group ∈ ["vpc"] :: TriggerSource.groups, e.document.Has group ↔
      ∃ field ∈ vpcFields ++ r.family.triggerFields,
        field.group = group ∧ e.document.Has field.path := by
  have inside (group : List String) : (∃ field ∈ vpcFields ++ r.family.triggerFields,
      field.group = group ∧ e.document.Has field.path) → e.document.Has group := by
    rintro ⟨field, -, rfl, found⟩
    exact found.of_append
  refine List.forall_mem_cons.mpr ⟨⟨fun given => ?_, inside _⟩, ?_⟩
  · exact ⟨.typed "vpcConnector" .string ["vpc"] "connector", by simp [vpcFields], rfl,
      builds.network.2 given⟩
  · refine fun group member => ⟨fun given => ?_, inside _⟩
    obtain ⟨field, member, found⟩ :=
      TriggerSource.exists_of_group builds.trigger group member given
    rw [builds.family] at member
    exact ⟨field, List.mem_append_right _ member, found⟩

theorem token (builds : r.Builds s calls base source e) (name : String) (d : Document) :
    e.document.HasAt ["blockingTrigger", "options", name] d ↔
      r.family = .identity ∧ name ∈ Family.identity.triggerOptions ∧
        ∃ v, r.Merges s [] name (fun f value => f.typed .boolean value) (some v) ∧
          TriggerSource.Passes v ∧ v.document = d := by
  have alone : r.Unambiguous [] := ⟨builds.plain.own, by simp, by simp⟩
  rw [TriggerSource.hasAt_options_of_makes builds.trigger, builds.family]
  refine and_congr_right fun identity => and_congr_right fun named => exists_congr fun v => ?_
  refine and_congr_left fun _ => ?_
  obtain ⟨value, converted⟩ :=
    TriggerSource.exists_of_makes builds.trigger (builds.family.trans identity) named
  have merges : r.Merges s [] name (fun f value => f.typed .boolean value) value :=
    builds.triggerMerges (by rw [identity]; exact named) converted
  rw [converted]
  constructor
  · intro same
    rw [← Except.ok.inj same]
    exact merges
  · intro other
    rw [other.unique alone merges]

end Builds

/-- The options of an endpoint, and those for all endpoints, are merged into it. -/
theorem isMerged_of_endpoint {globals : GlobalOptions}
    (set : GlobalOptions.Sets s.params calls globals) (made : r.endpoint s globals = .ok e) :
    e.IsMerged r s calls := by
  obtain ⟨base, source, builds⟩ := exists_builds set made
  obtain ⟨-, vpc⟩ := BaseOptions.vpc_eq_ok_iff.mp builds.vpc
  exact {
    held := fun field member => ⟨_, builds.mergesField field member, builds.held field member⟩
    base := builds.followsField
    labels := builds.labels
    secrets := ⟨_, builds.merges BaseOptions.reads_secrets (by decide), builds.secrets⟩
    secretNames := fun d => Endpoint.hasAt_secrets
    noSecrets := builds.noSecrets
    vpc := ⟨_, _, builds.merges BaseOptions.reads_vpcConnector (by decide),
      builds.merges BaseOptions.reads_vpcEgress (by decide), vpc⟩
    network := builds.network.1
    trigger := builds.followsTrigger
    unchanged := fun _ _ again => trigger_eq made again
    group := builds.group
    token := builds.token
    tokens := TriggerSource.has_options_iff }

/-- A queue whose call resets, empties and leaves open what is set for all endpoints. -/
def emptiedQueue : List SourceModule :=
  [⟨"main.py",
      ("options.setGlobalOptions(region=RESET_VALUE, cpu=2, labels=\x7b\"team\": \"a\"\x7d, "
        ++ "secrets=[\"KEY\"], minInstances=1)\n\n"
        ++ "@tasks.onTaskDispatched(\"work\", cpu=None, labels=\x7b\x7d, secrets=[], "
        ++ "minInstances=0, maxAttempts=0, maxDoublings=RESET_VALUE)\n"
        ++ "def work(r): pass\n").toList⟩]

set_option maxRecDepth 100000 in
/-- The queue has the processors that are set for all endpoints, but none of the secrets. -/
theorem isMerged_of_endpoint_emptiedQueue :
    ∃ (scans : List ModuleScan) (table : ParamTable) (globals : GlobalOptions)
      (site : ModuleScan × Registration) (e : Endpoint),
      emptiedQueue.mapM SourceModule.scan = .ok scans ∧
      e.key = "work" ∧ e.cpu.isSome = true ∧ e.labels.isSome = true ∧ e.secrets = [] ∧
      GlobalOptions.Sets table (GlobalOptions.calls scans) globals ∧
      site.2.endpoint ⟨table, site.1⟩ globals = .ok e ∧
      e.IsMerged site.2 ⟨table, site.1⟩ (GlobalOptions.calls scans) := by
  have computed : (Manifest.ofModules emptiedQueue).toOption.map
      (fun m => m.endpoints.values.map fun e => (e.key, e.cpu.isSome, e.labels.isSome, e.secrets)) =
      some [("work", true, true, [])] := by
    decide +kernel
  obtain ⟨m, compiled, computed⟩ := exists_ok_of_toOption computed
  obtain ⟨scans, searched, compiled⟩ := bind_eq_ok_iff.mp compiled
  obtain ⟨table, globals, assembled⟩ := Manifest.ofScans_eq_ok_iff.mp compiled
  obtain ⟨e, only, facts⟩ := List.map_eq_singleton_iff.mp computed
  obtain ⟨key, cpu, labels, secrets⟩ : e.key = "work" ∧ e.cpu.isSome = true ∧
      e.labels.isSome = true ∧ e.secrets = [] := by
    simpa using facts
  have first : m.endpoints.values[0]? = some e := by
    rw [only]
    rfl
  obtain ⟨site, -, made⟩ := assembled.registered.item_getElem? first
  exact ⟨scans, table, globals, site, e, searched, key, cpu, labels, secrets, assembled.set, made,
    isMerged_of_endpoint (s := ⟨table, site.1⟩) assembled.set made⟩

end Registration

end DeployManifest
