import DeployManifest.Proofs.Null.Endpoint

/-! # Manifests that are written with a `null`

A compiled manifest is written with a `null` exactly if it holds a number that is not finite
(`Manifest.hasNull_iff_holdsEndless`). Only the defaults of parameters and the two options that take
numbers which need not be whole can hold one.
-/

namespace DeployManifest

open Outcome

/-! ### Parameters -/

/-- What a kind accepts as a default is of a type. -/
theorem ParamKind.exists_has_of_accepts {kind : ParamKind} {l : Literal}
    (accepted : kind.accepts l = true) : ∃ T : ValueType, T.has l = true := by
  cases kind with
  | string => exact ⟨.text, (admits_string l).symm.trans accepted⟩
  | int => exact ⟨.integer, (admits_int l).symm.trans accepted⟩
  | boolean => exact ⟨.boolean, (admits_boolean l).symm.trans accepted⟩
  | float => exact ⟨.number, (admits_float l).symm.trans accepted⟩
  | list => exact ⟨.texts, (admits_list l).symm.trans accepted⟩
  | secret => cases l <;> cases accepted

/-- The defaults in a table are literals of a type. -/
theorem ParamTable.default_of_enters {declarations : List Declaration} {table : ParamTable}
    (declared : entering.Enters declarations table.entries) :
    ∀ p ∈ table.params, ∀ v ∈ p.default, ∃ l, v = .literal l ∧
      ∃ T : ValueType, T.has l = true := by
  intro p member v given
  obtain ⟨entry, inside, rfl⟩ := List.mem_map.mp member
  obtain ⟨i, here⟩ := List.mem_iff_getElem?.mp inside
  obtain ⟨d, -, entered⟩ := declared.item_getElem? here
  obtain ⟨l, literal, accepted⟩ := Declaration.default_of_param (of_entry entered).1 v given
  exact ⟨l, literal, ParamKind.exists_has_of_accepts accepted⟩

theorem Param.printsNull_document {p : Param}
    (typed : ∀ v ∈ p.default, ∃ l, v = .literal l ∧ ∃ T : ValueType, T.has l = true) :
    p.document.PrintsNull ↔ ∃ v ∈ p.default, v.IsEndless := by
  have texts : p.document.PrintsNull ↔ Setting.WritesNull p.default := by
    simp [document, Document.anyNull_field?]
  rw [texts, Setting.WritesNull]
  refine exists_congr fun v => and_congr_right fun given => ?_
  obtain ⟨l, rfl, T, ofType⟩ := typed v given
  rw [Setting.document, Literal.printsNull_of_has ofType]
  simp [Setting.IsEndless]

/-! ### Fields -/

/-- The options that take numbers which need not be whole. -/
def numericOptions : List String := ["cpu", "maxDispatchesPerSecond"]

namespace TypedField

variable {params : List Param} {given : String → Option OptionValue} {field : TypedField}

/-- What a field holds comes from a setting, and the substitution text of that one has a side that
is `null` exactly if the option takes numbers and the side is not finite. -/
def BranchesNull (given : String → Option OptionValue) (field : TypedField) : Prop :=
  ∀ v ∈ field.value, ∃ source content, Source (given field.option) source ∧
    Content.Renders source content ∧ content.written = v ∧
      (content.inner.HasNullBranch ↔
        field.option ∈ numericOptions ∧ content.inner.HasEndlessBranch)

/-- A field is written with a `null` only for an option that takes numbers, and a number that is
not finite. -/
theorem IsSound.writesNull_iff (distinct : (params.map (·.name)).Nodup)
    (numeric : field.type.isNumeric = true → field.option ∈ numericOptions)
    (sound : field.IsSound params given) :
    Setting.WritesNull field.value ↔
      field.option ∈ numericOptions ∧ ∃ v ∈ field.value, v.IsEndless := by
  constructor
  · rintro ⟨v, holds, notReset, leaf⟩
    obtain ⟨_, -, content, -, rfl, typed⟩ := sound v holds
    obtain ⟨endless, ofNumbers⟩ := Content.printsNull_written distinct typed notReset leaf
    exact ⟨numeric ofNumbers, _, holds, endless⟩
  · rintro ⟨-, v, holds, endless⟩
    have notReset : v ≠ .reset := by
      rintro rfl
      obtain ⟨x, literal, -⟩ := endless
      cases literal
    exact ⟨v, holds, notReset, endless.printsNull⟩

theorem IsSound.branchesNull (distinct : (params.map (·.name)).Nodup)
    (numeric : field.type.isNumeric = true → field.option ∈ numericOptions)
    (sound : field.IsSound params given) : field.BranchesNull given := by
  intro v holds
  obtain ⟨source, ofOption, content, renders, written, typed⟩ := sound v holds
  refine ⟨source, content, ofOption, renders, written, ?_⟩
  rw [Content.hasNullBranch_iff distinct typed]
  constructor
  · rintro ⟨ofNumbers, endless⟩
    exact ⟨numeric ofNumbers, endless⟩
  · rintro ⟨-, endless⟩
    exact ⟨Content.isNumeric_of_hasEndlessBranch distinct typed endless, endless⟩

end TypedField

/-! ### Endpoints -/

namespace Endpoint

/-- The substitution texts of an endpoint have a side that is `null` only where the option takes
numbers; those in the filter of its trigger have none. -/
structure BranchesNull (address : Option Address) (own shared : OptionSet) (e : Endpoint) :
    Prop where
  fields : ∀ field ∈ e.fields,
    field.BranchesNull fun name => (own.option? name).or (shared.option? name)
  trigger : ∀ field ∈ e.trigger.fields, field.BranchesNull own.option?
  texts : ∀ entry ∈ e.trigger.texts, ∃ source, TextSource address own entry.1 source ∧
    FilterText source (some entry.2) ∧ ¬ source.HasNullBranch

variable {params : List Param} {address : Option Address} {own shared : OptionSet} {e : Endpoint}

theorem numeric_fields :
    ∀ field ∈ e.fields, field.type.isNumeric = true → field.option ∈ numericOptions := by
  simp [fields, ValueType.isNumeric, numericOptions]

theorem numeric_triggerFields :
    ∀ field ∈ e.trigger.fields, field.type.isNumeric = true → field.option ∈ numericOptions := by
  have retries (attemptsName : String) (retry : Option Retry) :
      ∀ field ∈ (retry.map (Retry.fields attemptsName)).getD [],
        field.type.isNumeric = true → field.option ∈ numericOptions := by
    cases retry <;> simp [Retry.fields, ValueType.isNumeric]
  cases e.trigger with
  | https | callable | event => simp [Trigger.fields, ValueType.isNumeric]
  | blocking eventType tokens =>
    simp only [Trigger.fields, List.forall_mem_map, ValueType.isNumeric]
    simp
  | schedule cron timeZone retry =>
    simp only [Trigger.fields, List.forall_mem_cons]
    exact ⟨by simp [ValueType.isNumeric], retries _ _⟩
  | taskQueue retry limits invoker =>
    simp only [Trigger.fields, List.forall_mem_cons, List.forall_mem_append]
    refine ⟨by simp [ValueType.isNumeric], retries _ _, ?_⟩
    cases limits <;> simp [RateLimits.fields, ValueType.isNumeric, numericOptions]

/-- A text in a filter has no side that is `null`. -/
theorem not_hasNullBranch_of_texts {entry : String × String}
    (distinct : (params.map (·.name)).Nodup) (sound : TextIsSound params address own entry) :
    ∃ source, TextSource address own entry.1 source ∧ FilterText source (some entry.2) ∧
      ¬ source.HasNullBranch := by
  obtain ⟨source, origin, written, typed⟩ := sound
  refine ⟨source, origin, written, fun null => ?_⟩
  have content := Content.isTyped_plain typed
  cases ((Content.hasNullBranch_iff distinct content).mp null).1

theorem IsSound.branchesNull (distinct : (params.map (·.name)).Nodup)
    (sound : e.IsSound params address own shared) : e.BranchesNull address own shared where
  fields field member :=
    (sound.fields field member).branchesNull distinct (numeric_fields field member)
  trigger field member :=
    (sound.trigger field member).branchesNull distinct (numeric_triggerFields field member)
  texts entry member := not_hasNullBranch_of_texts distinct (sound.texts entry member)

/-- A typed endpoint is written with a `null` if it holds a number that is not finite. -/
theorem IsSound.printsNull_iff (distinct : (params.map (·.name)).Nodup) (settled : e.IsSettled)
    (sound : e.IsSound params address own shared) :
    e.document.PrintsNull ↔ ∃ field ∈ e.fields ++ e.trigger.fields,
      field.option ∈ numericOptions ∧ ∃ v ∈ field.value, v.IsEndless := by
  have each : ∀ field ∈ e.fields ++ e.trigger.fields, Setting.WritesNull field.value ↔
      field.option ∈ numericOptions ∧ ∃ v ∈ field.value, v.IsEndless := by
    intro field member
    rcases List.mem_append.mp member with own | ofTrigger
    · exact (sound.fields field own).writesNull_iff distinct (numeric_fields field own)
    · exact (sound.trigger field ofTrigger).writesNull_iff distinct
        (numeric_triggerFields field ofTrigger)
  rw [printsNull_document settled, TypedField.AnyNull]
  exact exists_congr fun field => and_congr_right (each field)

end Endpoint

/-! ### Manifests -/

namespace Manifest

/-- Where numbers that are not finite can stand in a manifest: as the default of a parameter, and
in the fields for options that take numbers. -/
inductive HoldsEndless (m : Manifest) : Prop where
  | default {p : Param} {v : Setting} (member : p ∈ m.params) (holds : v ∈ p.default)
      (endless : v.IsEndless) : HoldsEndless m
  | field {e : Endpoint} {field : TypedField} {v : Setting} (member : e ∈ m.endpoints.values)
      (inside : field ∈ e.fields ++ e.trigger.fields) (ofNumbers : field.option ∈ numericOptions)
      (holds : v ∈ field.value) (endless : v.IsEndless) : HoldsEndless m

variable {scans : List ModuleScan} {table : ParamTable} {globals : GlobalOptions} {m : Manifest}

theorem printsNull_document : m.document.PrintsNull ↔
    (∃ p ∈ m.params, p.document.PrintsNull) ∨ ∃ e ∈ m.endpoints.values, e.document.PrintsNull := by
  have params : Document.AnyNull (if m.params.isEmpty then []
      else [("params", .list (m.params.map Param.document))]) ↔
      ∃ p ∈ m.params, p.document.PrintsNull := by
    cases m.params <;> simp
  have apis : ¬ (Document.list (m.requiredApis.map apiDocument)).PrintsNull := by
    simp [apiDocument]
  have endpoints : Document.AnyNull
      (m.endpoints.entries.map fun entry => (entry.1, entry.2.document)) ↔
      ∃ e ∈ m.endpoints.values, e.document.PrintsNull := by
    simp only [Document.AnyNull, IndexMap.values, List.mem_map]
    constructor
    · rintro ⟨_, ⟨entry, member, rfl⟩, printed⟩
      exact ⟨entry.2, ⟨entry, member, rfl⟩, printed⟩
    · rintro ⟨_, ⟨entry, member, rfl⟩, printed⟩
      exact ⟨_, ⟨entry, member, rfl⟩, printed⟩
  simp only [document, Document.printsNull_record, Document.anyNull_append, Document.anyNull_cons,
    Document.anyNull_nil, Document.not_printsNull_text, params, apis, endpoints, false_or, or_false]

/-- A compiled endpoint is written with a `null` if it holds a number that is not finite. -/
theorem Assembled.printsNull_endpoint {shared : OptionSet}
    (assembled : Assembled scans table globals m)
    (fits : ∀ field ∈ globals.base.fields,
      field.Fits table.params (shared.option? field.option)) :
    ∀ e ∈ m.endpoints.values, e.document.PrintsNull ↔ ∃ field ∈ e.fields ++ e.trigger.fields,
      field.option ∈ numericOptions ∧ ∃ v ∈ field.value, v.IsEndless := by
  intro e member
  obtain ⟨i, here⟩ := List.mem_iff_getElem?.mp member
  obtain ⟨site, -, made⟩ := assembled.registered.item_getElem? here
  obtain ⟨_, _, -, -, sound⟩ :=
    Registration.isSound_of_endpoint (s := ⟨table, site.1⟩) assembled.distinct fits made
  exact sound.printsNull_iff assembled.distinct (Registration.isSettled_of_endpoint made)

theorem Assembled.printsNull_iff {shared : OptionSet}
    (assembled : Assembled scans table globals m)
    (fits : ∀ field ∈ globals.base.fields,
      field.Fits table.params (shared.option? field.option)) :
    m.document.PrintsNull ↔ m.HoldsEndless := by
  have ofParam (p : Param) (member : p ∈ m.params) :
      p.document.PrintsNull ↔ ∃ v ∈ p.default, v.IsEndless := by
    rw [assembled.params] at member
    exact Param.printsNull_document (ParamTable.default_of_enters assembled.declared p member)
  have ofEndpoint := assembled.printsNull_endpoint fits
  rw [printsNull_document]
  constructor
  · rintro (⟨p, member, leaf⟩ | ⟨e, member, leaf⟩)
    · obtain ⟨v, holds, endless⟩ := (ofParam p member).mp leaf
      exact .default member holds endless
    · obtain ⟨field, inside, ofNumbers, v, holds, endless⟩ := (ofEndpoint e member).mp leaf
      exact .field member inside ofNumbers holds endless
  · rintro (⟨member, holds, endless⟩ | ⟨member, inside, ofNumbers, holds, endless⟩)
    · exact .inl ⟨_, member, (ofParam _ member).mpr ⟨_, holds, endless⟩⟩
    · exact .inr ⟨_, member, (ofEndpoint _ member).mpr
        ⟨_, inside, ofNumbers, _, holds, endless⟩⟩

/-- A compiled manifest is written with a `null` exactly if it holds a number that is not finite,
and so are the sides of the choices in its substitution texts. -/
theorem hasNull_iff_holdsEndless {modules : List SourceModule}
    (compiled : ofModules modules = .ok m) :
    (Json.HasNull (m.render .json) ↔ m.HoldsEndless) ∧
      ∃ scans table shared, modules.mapM SourceModule.scan = .ok scans ∧
        ParamTable.ofScans scans = .ok table ∧
        GlobalOptions.Gives table (GlobalOptions.calls scans) shared ∧
        List.Forall₂ (fun site e => ∃ c own, site.2.bound = .ok c ∧
            Scope.options ⟨table, site.1⟩ c.options = .ok own ∧
            e.BranchesNull c.address own shared) (sites scans) m.endpoints.values := by
  obtain ⟨scans, searched, compiled⟩ := bind_eq_ok_iff.mp compiled
  obtain ⟨table, globals, assembled⟩ := ofScans_eq_ok_iff.mp compiled
  obtain ⟨shared, gives, fits⟩ := GlobalOptions.exists_gives assembled.distinct assembled.set
  refine ⟨?_, scans, table, shared, searched, ParamTable.ofScans_eq_ok_iff.mpr assembled.declared,
    gives, ?_⟩
  · rw [render, Json.hasNull_render_iff]
    exact assembled.printsNull_iff fits
  · refine assembled.registered.each.imp fun site e made => ?_
    obtain ⟨c, own, bound, evaluated, sound⟩ :=
      Registration.isSound_of_endpoint (s := ⟨table, site.1⟩) assembled.distinct fits made
    exact ⟨c, own, bound, evaluated, sound.branchesNull assembled.distinct⟩

/-- Two numbers that are too large, one of them on a side of a choice. -/
def endlessProcessors : List SourceModule :=
  [⟨"main.py",
      ("BETA = params.defineBoolean(\"BETA\")\n\n@https.onRequest(\"hello\", cpu=1e999)\n"
        ++ "def hello(r): pass\n\n@https.onRequest(\"beta\", cpu=BETA.thenElse(1e999, 1))\n"
        ++ "def beta(r): pass\n").toList⟩]

set_option maxRecDepth 100000 in
/-- The modules compile, and the numbers are written as `null`. -/
theorem hasNull_endlessProcessors :
    ∃ m, ofModules endlessProcessors = .ok m ∧ Json.HasNull (m.render .json) ∧ m.HoldsEndless ∧
      ∃ scans table shared, endlessProcessors.mapM SourceModule.scan = .ok scans ∧
        ParamTable.ofScans scans = .ok table ∧
        GlobalOptions.Gives table (GlobalOptions.calls scans) shared ∧
        List.Forall₂ (fun site e => ∃ c own, site.2.bound = .ok c ∧
            Scope.options ⟨table, site.1⟩ c.options = .ok own ∧
            e.BranchesNull c.address own shared) (sites scans) m.endpoints.values := by
  have computed : (ofModules endlessProcessors).toOption.map
      (fun m => m.endpoints.values.any fun e => e.cpu.any fun v => decide v.IsEndless) = some true := by
    decide +kernel
  obtain ⟨m, compiled, found⟩ := exists_ok_of_toOption computed
  obtain ⟨e, member, found⟩ := List.any_eq_true.mp found
  obtain ⟨v, cpu, endless⟩ := (Option.any_eq_true _ _).mp found
  have inside : (⟨"cpu", .processors, e.cpu⟩ : TypedField) ∈ e.fields ++ e.trigger.fields := by
    simp [Endpoint.fields]
  have holds : m.HoldsEndless :=
    .field member inside (by simp [numericOptions]) cpu (of_decide_eq_true endless)
  obtain ⟨written, branches⟩ := hasNull_iff_holdsEndless compiled
  exact ⟨m, compiled, written.mpr holds, holds, branches⟩

end Manifest

end DeployManifest
