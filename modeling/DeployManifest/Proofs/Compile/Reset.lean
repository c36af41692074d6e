import DeployManifest.Proofs.Compile.Respell
import DeployManifest.Proofs.Eval.Grammar
import DeployManifest.Proofs.Wire.Endpoint
import DeployManifest.Proofs.Wire.Reset

/-! # Registrations with an option reset

An option of a registration is reset by its value, or by one more argument
(`Registration.Resets`). What the registration binds stays the same otherwise
(`Resets.exists_bound`), and so does the endpoint, but for the field of the option, which is gone
(`endpoint_reset`). There is one exception: without a connector the network settings cannot have an
egress, so that resetting the connector is refused where there is one.
-/

namespace DeployManifest

open Outcome

/-! ### Options that are reset -/

namespace Expr

variable {e : Expr}

theorem isNone_of_isReset (reset : e.IsReset) : e.isNone = false := by
  rcases reset with written | ⟨path, written, -⟩ <;> simp [isNone, written]

end Expr

namespace Scope

variable {s : Scope} {e : Expr}

/-- Secrets are reset like every other option. -/
theorem secrets_of_isReset (reset : e.IsReset) : s.secrets e = .ok .reset := by
  have evaluated : s.evaluate e = .ok .reset := evaluate_of_isReset reset
  rcases reset with written | ⟨path, written, -⟩ <;> simp [secrets, written, evaluated] <;> rfl

theorem optionValue_of_isReset (reset : e.IsReset) (keyword : String) (location : Location) :
    s.optionValue ⟨keyword, e, location⟩ = .ok ⟨keyword, .reset, location⟩ := by
  refine optionValue_eq_ok_iff.mpr ⟨?_, rfl, rfl⟩
  split
  · exact secrets_of_isReset reset
  · exact evaluate_of_isReset reset

end Scope

namespace OptionSet

theorem option?_append {first second : OptionSet} {name : String} :
    option? (first ++ second) name = (option? first name).or (option? second name) :=
  List.find?_append ..

/-- An option in the place of one of its name, or of none, is reset. -/
theorem resets_of_append {front old back : OptionSet} {keyword : String} {location : Location}
    (others : ∀ o ∈ front ++ back, o.name ≠ keyword) (replaced : ∀ o ∈ old, o.name = keyword) :
    Resets (front ++ old ++ back) (front ++ ⟨keyword, .reset, location⟩ :: back) keyword where
  reset := by
    have missing : option? front keyword = none :=
      option?_eq_none_iff.mpr fun o member => others o (List.mem_append_left _ member)
    refine ⟨⟨keyword, .reset, location⟩, ?_, rfl⟩
    rw [option?_append, missing]
    simp [option?]
  others name different := by
    have skipped : option? old name = none :=
      option?_eq_none_iff.mpr fun o member same => different (same ▸ replaced o member)
    have behind : option? (⟨keyword, .reset, location⟩ :: back) name = option? back name := by
      simp [option?, different.symm]
    rw [option?_append, option?_append, option?_append, skipped, Option.or_none, behind]

end OptionSet

namespace Scope

variable {s : Scope} {front old back : List OptionArgument} {options : OptionSet}

theorem options_append_eq_ok_iff : s.options (front ++ back) = .ok options ↔
    ∃ first second, s.options front = .ok first ∧ s.options back = .ok second ∧
      options = first ++ second := by
  simp only [Scope.options, List.mapM_append, bind_eq_ok_iff, pure_eq_ok_iff]
  constructor
  · rintro ⟨first, evaluated, second, evaluated', rfl⟩
    exact ⟨first, second, evaluated, evaluated', rfl⟩
  · rintro ⟨first, second, evaluated, evaluated', rfl⟩
    exact ⟨first, evaluated, second, evaluated', rfl⟩

/-- Options can be evaluated with one of them reset. -/
theorem exists_options_reset {keyword : String} {value : Expr} {location : Location}
    (reset : value.IsReset) (others : ∀ k ∈ front ++ back, k.name ≠ keyword)
    (replaced : ∀ k ∈ old, k.name = keyword)
    (evaluated : s.options (front ++ old ++ back) = .ok options) :
    ∃ options', s.options (front ++ ⟨keyword, value, location⟩ :: back) = .ok options' ∧
      options.Resets options' keyword := by
  obtain ⟨_, last, evaluated', behind, rfl⟩ := options_append_eq_ok_iff.mp evaluated
  obtain ⟨first, former, before, between, rfl⟩ := options_append_eq_ok_iff.mp evaluated'
  have single : s.options [⟨keyword, value, location⟩] = .ok [⟨keyword, .reset, location⟩] := by
    rw [Scope.options, List.mapM_cons, optionValue_of_isReset reset]
    rfl
  have tail : s.options (⟨keyword, value, location⟩ :: back) =
      .ok (⟨keyword, .reset, location⟩ :: last) :=
    options_append_eq_ok_iff.mpr ⟨_, _, single, behind, rfl⟩
  refine ⟨_, options_append_eq_ok_iff.mpr ⟨_, _, before, tail, rfl⟩, ?_⟩
  have around := options_append_eq_ok_iff.mpr ⟨_, _, before, behind, rfl⟩
  exact OptionSet.resets_of_append (forall_name_of_options (· ≠ keyword) around others)
    (forall_name_of_options (· = keyword) between replaced)

end Scope

/-! ### Arguments -/

namespace Argument

theorem PositionalsFirst.behind_keyword {before after : List Argument} {name : String}
    {value : Expr} {location : Location}
    (first : PositionalsFirst (before ++ .keyword name value location :: after)) :
    ∀ arg ∈ after, arg.positional? = none := by
  intro arg member
  obtain ⟨-, behind, -⟩ := List.pairwise_append.mp first
  exact ((List.pairwise_cons.mp behind).1 arg member).resolve_left (by simp [keyword?])

theorem PositionalsFirst.insert {before after : List Argument}
    (first : PositionalsFirst (before ++ after)) (behind : ∀ arg ∈ after, arg.positional? = none)
    (name : String) (value : Expr) (location : Location) :
    PositionalsFirst (before ++ .keyword name value location :: after) := by
  obtain ⟨front, back, across⟩ := List.pairwise_append.mp first
  refine List.pairwise_append.mpr ⟨front, List.pairwise_cons.mpr ⟨?_, back⟩, ?_⟩
  · exact fun arg member => .inr (behind arg member)
  · exact fun arg member => List.forall_mem_cons.mpr ⟨.inr rfl, across arg member⟩

end Argument

namespace Registration

variable {r : Registration} {keyword : String} {args' : List Argument} {c : BoundCall} {s : Scope}

/-- Other arguments, in which an option is reset: the value that it has is replaced, or it is added
behind all positional arguments. -/
inductive Resets (keyword : String) : List Argument → List Argument → Prop where
  | replaced {before after : List Argument} {old value : Expr} {oldLocation location : Location}
      (reset : value.IsReset) :
      Resets keyword (before ++ .keyword keyword old oldLocation :: after)
        (before ++ .keyword keyword value location :: after)
  | added {before after : List Argument} {value : Expr} {location : Location}
      (missing : keyword ∉ ((before ++ after).filterMap (·.keyword?)).map (·.name))
      (behind : ∀ arg ∈ after, arg.positional? = none) (reset : value.IsReset) :
      Resets keyword (before ++ after) (before ++ .keyword keyword value location :: after)

/-- Once a keyword has been read, no positional argument is. -/
theorem positional?_of_foldlM {args : List Argument} {start last : Arguments}
    (added : args.foldlM r.addArgument start = .ok last) (keywords : start.keywords ≠ []) :
    ∀ arg ∈ args, arg.positional? = none := by
  induction args generalizing start with
  | nil => simp
  | cons arg args ih =>
    rw [List.foldlM_cons, bind_eq_ok_iff] at added
    obtain ⟨next, first, added⟩ := added
    have more := (keywords_of_addArgument first).1
    refine List.forall_mem_cons.mpr ⟨?_, ih added (by simp [more, keywords])⟩
    cases arg with
    | positional value =>
      rw [addArgument, if_neg (by simpa using keywords)] at first
      cases first
    | keyword | splat => rfl

theorem positionalsFirst_of_foldlM {args : List Argument} {start last : Arguments}
    (added : args.foldlM r.addArgument start = .ok last) : Argument.PositionalsFirst args := by
  induction args generalizing start with
  | nil => exact List.Pairwise.nil
  | cons arg args ih =>
    rw [List.foldlM_cons, bind_eq_ok_iff] at added
    obtain ⟨next, first, added⟩ := added
    refine List.pairwise_cons.mpr ⟨fun later member => ?_, ih added⟩
    cases named : arg.keyword? with
    | none => exact .inl rfl
    | some k =>
      have more := (keywords_of_addArgument first).1
      exact .inr (positional?_of_foldlM added (by simp [more, named]) later member)

/-- Registrations whose arguments are taken have the positional ones in front. -/
theorem positionalsFirst_of_bound (bound : r.bound = .ok c) :
    Argument.PositionalsFirst r.args := by
  unfold Registration.bound at bound
  split at bound
  · cases bound
  · simp only [bind_eq_ok_iff] at bound
    obtain ⟨args, added, -⟩ := bound
    exact positionalsFirst_of_foldlM added

theorem keywords_append {before after : List Argument} :
    (before ++ after).filterMap (·.keyword?) =
      before.filterMap (·.keyword?) ++ after.filterMap (·.keyword?) := List.filterMap_append

theorem keywords_insert {before after : List Argument} {name : String} {value : Expr}
    {location : Location} :
    (before ++ .keyword name value location :: after).filterMap (·.keyword?) =
      before.filterMap (·.keyword?) ++ ⟨name, value, location⟩ :: after.filterMap (·.keyword?) := by
  rw [keywords_append]
  rfl

theorem Arguments.ofList_insert {before after : List Argument} {name : String} {value : Expr}
    {location : Location} :
    ofList (before ++ .keyword name value location :: after) =
      ⟨(before ++ after).filterMap (·.positional?), before.filterMap (·.keyword?)
        ++ ⟨name, value, location⟩ :: after.filterMap (·.keyword?)⟩ := by
  rw [ofList, keywords_insert, List.filterMap_append, List.filterMap_append]
  rfl

/-- Arguments before and after a reset differ in one place, where the keyword is or is not given. -/
theorem Resets.exists_parts {args : List Argument} (resets : Resets keyword args args')
    (first : Argument.PositionalsFirst args) (distinct : DistinctKeywords args) :
    ∃ (before old after : List Argument) (value : Expr) (location : Location),
      args = before ++ old ++ after ∧
      args' = before ++ .keyword keyword value location :: after ∧ value.IsReset ∧
      (old = [] ∨ ∃ value location, old = [.keyword keyword value location]) ∧
      (∀ arg ∈ after, arg.positional? = none) ∧
      keyword ∉ ((before ++ after).filterMap (·.keyword?)).map (·.name) := by
  cases resets with
  | @replaced before after old value oldLocation location reset =>
    refine ⟨before, [.keyword keyword old oldLocation], after, value, location, by simp, rfl, reset,
      .inr ⟨_, _, rfl⟩, first.behind_keyword, ?_⟩
    rw [DistinctKeywords, keywords_insert, List.map_append, List.map_cons, List.nodup_middle,
      ← List.map_append, ← keywords_append] at distinct
    exact (List.nodup_cons.mp distinct).1
  | @added before after value location missing behind reset =>
    exact ⟨before, [], after, value, location, by simp, rfl, reset, .inl rfl, behind, missing⟩

/-- An option more or less, somewhere among the keywords, does not settle anything. -/
theorem settles_insert_iff {front back : List OptionArgument} {values : List Expr} {value : Expr}
    {location : Location} {address : Option Address} {entryPoint : Option String}
    (accepted : r.family.accepts keyword = true)
    (missing : keyword ∉ (front ++ back).map (·.name)) :
    r.Settles ⟨values, front ++ ⟨keyword, value, location⟩ :: back⟩ address entryPoint ↔
      r.Settles ⟨values, front ++ back⟩ address entryPoint :=
  ⟨fun settles => (settles_cons_iff accepted missing).mp (settles.perm List.perm_middle),
    fun settles => ((settles_cons_iff accepted missing).mpr settles).perm List.perm_middle.symm⟩

/-- With an option reset a registration binds the same, but for that option. -/
theorem Resets.exists_bound (resets : Resets keyword r.args args')
    (accepted : r.family.accepts keyword = true) (bound : r.bound = .ok c) :
    ∃ (c' : BoundCall) (front old back : List OptionArgument) (value : Expr) (location : Location),
      ({ r with args := args' } : Registration).bound = .ok c' ∧ c'.address = c.address ∧
      c'.entryPoint = c.entryPoint ∧ c.options = front ++ old ++ back ∧
      c'.options = front ++ ⟨keyword, value, location⟩ :: back ∧ value.IsReset ∧
      (∀ k ∈ front ++ back, k.name ≠ keyword) ∧ ∀ k ∈ old, k.name = keyword := by
  have first := positionalsFirst_of_bound bound
  obtain ⟨before, old, after, value, location, written, rfl, reset, given, behind, missing⟩ :=
    resets.exists_parts first (among_of_bound bound).distinct
  obtain ⟨plain, settles, options, -⟩ := (bound_eq_ok_iff first).mp bound
  let r' : Registration := { r with args := before ++ .keyword keyword value location :: after }
  rw [written] at first plain
  have rest : Argument.PositionalsFirst (before ++ after) := by
    refine first.sublist ?_
    rw [List.append_assoc]
    exact (List.sublist_append_right old after).append_left before
  rw [keywords_append] at missing
  have settled : r.Settles ⟨(before ++ after).filterMap (·.positional?),
      before.filterMap (·.keyword?) ++ after.filterMap (·.keyword?)⟩ c.address c.entryPoint := by
    rcases given with rfl | ⟨former, formerLocation, rfl⟩
    · rw [written, List.append_nil, Arguments.ofList, keywords_append] at settles
      exact settles
    · rw [written, List.append_assoc, List.singleton_append, Arguments.ofList_insert] at settles
      exact (settles_insert_iff accepted missing).mp settles
  refine ⟨⟨r', c.address, r'.chosen (Arguments.ofList r'.args).keywords, c.entryPoint⟩,
    r.chosen (before.filterMap (·.keyword?)), r.chosen (old.filterMap (·.keyword?)),
    r.chosen (after.filterMap (·.keyword?)), value, location, ?_, rfl, rfl, ?_, ?_, reset, ?_, ?_⟩
  · refine (bound_eq_ok_iff (r := r') (rest.insert behind ..)).mpr ⟨?_, ?_, rfl, rfl⟩
    · rw [List.forall_mem_append, List.forall_mem_append] at plain
      exact List.forall_mem_append.mpr ⟨plain.1.1, List.forall_mem_cons.mpr ⟨rfl, plain.2⟩⟩
    · refine settles_args_iff.mpr ?_
      rw [Arguments.ofList_insert]
      exact (settles_insert_iff accepted missing).mpr settled
  · rw [options, written, ← chosen_append, ← chosen_append, ← keywords_append, ← keywords_append]
    rfl
  · change r.chosen (Arguments.ofList r'.args).keywords = _
    rw [Arguments.ofList_insert, chosen_append, chosen, chosen, chosen, List.filter_cons_of_pos]
    simp [isReserved_eq_false (by simpa [Family.accepts] using accepted),
      Expr.isNone_of_isReset reset]
  · intro k member same
    rw [← chosen_append] at member
    exact missing (List.mem_map.mpr ⟨k, (List.mem_filter.mp member).1, same⟩)
  · intro k member
    have kept := (List.mem_filter.mp member).1
    rcases given with rfl | ⟨former, formerLocation, rfl⟩
    · cases kept
    · obtain rfl := List.mem_singleton.mp kept
      rfl

/-! ### The endpoint -/

end Registration

namespace BaseOptions

variable {base : BaseOptions} {keyword key entryPoint : String} {location : Location}
  {trigger trigger' : Trigger} {e : Endpoint}

/-- The options leave the trigger of an endpoint open. -/
theorem endpoint_trigger (made : base.endpoint key entryPoint location trigger = .ok e) :
    base.endpoint key entryPoint location trigger' = .ok { e with trigger := trigger' } := by
  simp only [endpoint, bind_eq_ok_iff, pure_eq_ok_iff] at made ⊢
  obtain ⟨vpc, vpcMade, rfl⟩ := made
  exact ⟨vpc, vpcMade, rfl⟩

theorem has_egress_iff (made : base.endpoint key entryPoint location trigger = .ok e) :
    e.document.Has ["vpc", "egressSettings"] ↔ ∃ v, Setting.present? base.vpcEgress = some v := by
  obtain ⟨-, vpc, -⟩ := held_of_endpoint made
  obtain ⟨needed, vpc⟩ := vpc_eq_ok_iff.mp vpc
  have shown := (shows_vpcFields needed vpc).2
  constructor
  · rintro ⟨d, there⟩
    obtain ⟨v, present, -⟩ := Setting.isWritten_iff.mp ((shown d).mp there)
    exact ⟨v, present⟩
  · rintro ⟨v, present⟩
    exact ⟨v.document, (shown _).mpr (Setting.isWritten_iff.mpr ⟨v, present, rfl⟩)⟩

/-- A reset leaves network settings possible, unless it is of the connector that an egress needs. -/
theorem exists_endpoint_reset (made : base.endpoint key entryPoint location trigger = .ok e)
    (possible : ¬ (keyword = "vpcConnector" ∧ e.document.Has ["vpc", "egressSettings"])) :
    ∃ e', (base.reset keyword).endpoint key entryPoint location trigger = .ok e' := by
  obtain ⟨needed, -⟩ := vpc_eq_ok_iff.mp (held_of_endpoint made).2.1
  have kept (v : Setting) (present : Setting.present? (base.reset keyword).vpcEgress = some v) :
      (Setting.present? (base.reset keyword).vpcConnector).isSome := by
    by_cases connector : keyword = "vpcConnector"
    · subst connector
      exact absurd ⟨rfl, (has_egress_iff made).mpr ⟨v, present⟩⟩ possible
    · by_cases egress : keyword = "vpcConnectorEgressSettings"
      · subst egress
        cases present
      · simp only [reset, Setting.resetAt_of_ne connector, Setting.resetAt_of_ne egress]
          at present ⊢
        exact needed v present
  exact ⟨_, bind_eq_ok_iff.mpr ⟨_, vpc_eq_ok_iff.mpr ⟨kept, rfl⟩, rfl⟩⟩

/-- Without its connector an egress is refused. -/
theorem endpoint_reset_connector (made : base.endpoint key entryPoint location trigger = .ok e)
    (egress : e.document.Has ["vpc", "egressSettings"]) :
    (base.reset "vpcConnector").endpoint key entryPoint location trigger =
      .error (.invalidOption location "vpcConnectorEgressSettings" .egressWithoutConnector) := by
  obtain ⟨v, present⟩ := (has_egress_iff made).mp egress
  refine bind_eq_error_iff.mpr (.inl ?_)
  have kept : (base.reset "vpcConnector").vpcEgress = base.vpcEgress := rfl
  have gone : Setting.present? (base.reset "vpcConnector").vpcConnector = none := rfl
  rw [vpc, gone, kept, present]

end BaseOptions

namespace Registration

variable {r : Registration} {keyword : String} {args' : List Argument} {s : Scope}
  {globals : GlobalOptions} {e : Endpoint}

/-- Where all steps before succeed, the network settings decide. -/
theorem endpoint_of_steps {c : BoundCall} {options : OptionSet} {t : Trigger} {base : BaseOptions}
    (bound : r.bound = .ok c) (evaluated : s.options c.options = .ok options)
    (triggered : (r.triggerSource c options s.params).trigger = .ok t)
    (converted : BaseOptions.ofOptions options s.params = .ok base) :
    r.endpoint s globals =
      (base.orElse globals.base).endpoint c.key (c.entryPoint.getD c.key) r.location t := by
  obtain ⟨rfl, -⟩ := of_bound bound
  unfold triggerSource at triggered
  simp only [Registration.endpoint, bound, BoundCall.endpoint, bind, Except.bind, evaluated,
    triggered, converted]

/-- The parts of an endpoint with an option reset. -/
theorem Resets.exists_steps {c : BoundCall} {options : OptionSet}
    (resets : Resets keyword r.args args') (accepted : r.family.accepts keyword = true)
    (bound : r.bound = .ok c) (evaluated : s.options c.options = .ok options) :
    ∃ (c' : BoundCall) (options' : OptionSet),
      ({ r with args := args' } : Registration).bound = .ok c' ∧ c'.address = c.address ∧
      c'.key = c.key ∧ c'.entryPoint = c.entryPoint ∧ s.options c'.options = .ok options' ∧
      options.Resets options' keyword := by
  obtain ⟨c', front, old, back, value, location, bound', address, entryPoint, given, given', reset,
    others, replaced⟩ := resets.exists_bound accepted bound
  rw [given] at evaluated
  obtain ⟨options', evaluated', resets⟩ :=
    Scope.exists_options_reset reset others replaced evaluated
  refine ⟨c', options', bound', address, ?_, entryPoint, given' ▸ evaluated', resets⟩
  rw [BoundCall.key, BoundCall.key, (of_bound bound).1, (of_bound bound').1, address]

/-- Resetting an option leaves an endpoint as it is, but for the field of the option: it is gone,
and with it its group if nothing is left in that. Only a connector cannot be reset while an egress
is in effect, be it from the call or from the options for all endpoints: that is refused. -/
theorem endpoint_reset (made : r.endpoint s globals = .ok e)
    (accepted : r.family.accepts keyword = true) (resets : Resets keyword r.args args') :
    (¬ (keyword = "vpcConnector" ∧ e.document.Has ["vpc", "egressSettings"]) →
      ∃ e', ({ r with args := args' } : Registration).endpoint s globals = .ok e' ∧
        e'.IsWithout (r.family.optionPath keyword) e) ∧
    (keyword = "vpcConnector" → e.document.Has ["vpc", "egressSettings"] →
      ({ r with args := args' } : Registration).endpoint s globals = .error
        (.invalidOption r.location "vpcConnectorEgressSettings" .egressWithoutConnector)) := by
  obtain ⟨c, options, base, bound, evaluated, triggered, converted, made⟩ :=
    endpoint_eq_ok_iff.mp made
  obtain ⟨c', options', bound', address, key, entryPoint, evaluated', reset⟩ :=
    resets.exists_steps accepted bound evaluated
  let source := r.triggerSource c options s.params
  have source' : ({ r with args := args' } : Registration).triggerSource c' options' s.params =
      source.withOptions options' := by
    simp only [source, triggerSource, TriggerSource.withOptions, address]
  have steps {t : Trigger} {base' : BaseOptions}
      (triggered' : (source.withOptions options').trigger = .ok t)
      (converted' : BaseOptions.ofOptions options' s.params = .ok base') :
      ({ r with args := args' } : Registration).endpoint s globals =
        (base'.orElse globals.base).endpoint c.key (c.entryPoint.getD c.key) r.location t := by
    rw [endpoint_of_steps bound' evaluated' (source' ▸ triggered') converted', key, entryPoint]
  by_cases shared : keyword ∈ Family.baseOptions
  · have same : (source.withOptions options').trigger = source.trigger :=
      TriggerSource.trigger_of_base reset (of_bound bound).2 shared
    have whole := steps (same.trans triggered) (BaseOptions.ofOptions_reset reset converted)
    rw [BaseOptions.reset_orElse] at whole
    rw [Family.optionPath, if_pos (List.contains_iff_mem.mpr shared)]
    refine ⟨fun possible => ?_, ?_⟩
    · obtain ⟨e', made'⟩ := BaseOptions.exists_endpoint_reset made possible
      exact ⟨e', whole.trans made', BaseOptions.isWithout_of_endpoint shared made made'⟩
    · rintro rfl egress
      exact whole.trans (BaseOptions.endpoint_reset_connector made egress)
  · have own : keyword ∈ r.family.triggerOptions :=
      (List.mem_append.mp (Family.accepts_eq_true_iff.mp accepted)).resolve_right shared
    refine ⟨fun _ => ?_, ?_⟩
    · obtain ⟨t', triggered', sameName, left⟩ :=
        TriggerSource.trigger_reset (s := source) reset own triggered
      have whole := steps triggered' ((BaseOptions.ofOptions_of_own reset shared).trans converted)
      have named : e.trigger.wireName = r.family.triggerName :=
        TriggerSource.wireName_of_makes (TriggerSource.makes_of_trigger triggered)
      rw [Family.optionPath, if_neg (fun other => shared (List.contains_iff_mem.mp other)), ← named]
      exact ⟨_, whole.trans (BaseOptions.endpoint_trigger made),
        Endpoint.isWithout_of_trigger sameName left⟩
    · rintro rfl
      exact absurd (by decide) shared

/-! ### A network with an egress -/

def connectedHere : Location := ⟨"main.py", 1, 2⟩

/-- A text among the arguments. -/
def connectedText (text : String) : Expr := ⟨.text text, connectedHere, 0, text⟩

def connectedReset : Expr := ⟨.name "RESET_VALUE", connectedHere, 0, "RESET_VALUE"⟩

/-- A connector and an egress as arguments. -/
def connectedArgs (connector egress : Expr) : List Argument :=
  [.positional (connectedText "hello")]
    ++ .keyword "vpcConnector" connector connectedHere
    :: [.keyword "vpcConnectorEgressSettings" egress connectedHere]

/-- A registration with a connector for all of its traffic. -/
def connected : Registration :=
  ⟨.https, "onRequest", connectedArgs (connectedText "link") (connectedText "ALL_TRAFFIC"),
    .decorator "hello", connectedHere, 1⟩

/-- The egress can be reset, and leaves the connector alone. -/
theorem endpoint_reset_connected :
    ∃ e e' : Endpoint, connected.endpoint ⟨.empty, ⟨"main.py", []⟩⟩ .none = .ok e ∧
      (e.vpc.bind (·.egress)).map (·.isReset) = some false ∧
      ({ connected with args := connectedArgs (connectedText "link") connectedReset } :
        Registration).endpoint ⟨.empty, ⟨"main.py", []⟩⟩ .none = .ok e' ∧
      e'.IsWithout ["vpc", "egressSettings"] e := by
  have computed : (connected.endpoint ⟨.empty, ⟨"main.py", []⟩⟩ .none).toOption.map
      (fun e => (e.vpc.bind (·.egress)).map (·.isReset)) = some (some false) := by
    decide +kernel
  obtain ⟨e, made, egress⟩ := exists_ok_of_toOption computed
  let front : List Argument := [.positional (connectedText "hello"),
    .keyword "vpcConnector" (connectedText "link") connectedHere]
  have resets (egress : Expr) : Resets "vpcConnectorEgressSettings"
      (front ++ .keyword "vpcConnectorEgressSettings" egress connectedHere :: [])
      (front ++ .keyword "vpcConnectorEgressSettings" connectedReset connectedHere :: []) :=
    .replaced (.inl rfl)
  obtain ⟨e', made', without⟩ := (endpoint_reset made (by decide) (resets _)).1
    fun both => absurd both.1 (by decide)
  exact ⟨e, e', made, egress, made', without⟩

/-- In front of the egress the connector cannot be reset. -/
theorem not_endpoint_reset : ¬ ∀ (r : Registration) (keyword : String) (args' : List Argument)
    (s : Scope) (globals : GlobalOptions) (e : Endpoint),
    r.endpoint s globals = .ok e → r.family.accepts keyword = true →
      Resets keyword r.args args' →
      ∃ e', ({ r with args := args' } : Registration).endpoint s globals = .ok e' ∧
        e'.IsWithout (r.family.optionPath keyword) e := by
  intro always
  have resets : Resets "vpcConnector" connected.args
      (connectedArgs connectedReset (connectedText "ALL_TRAFFIC")) := .replaced (.inl rfl)
  have computed : (connected.endpoint ⟨.empty, ⟨"main.py", []⟩⟩ .none).toOption.map (·.key) =
      some "hello" := by
    decide +kernel
  obtain ⟨e, made, -⟩ := exists_ok_of_toOption computed
  obtain ⟨e', made', -⟩ := always connected _ _ _ _ e made (by decide) resets
  have refused : (({ connected with
      args := connectedArgs connectedReset (connectedText "ALL_TRAFFIC") } : Registration).endpoint
        ⟨.empty, ⟨"main.py", []⟩⟩ .none).toOption.map (·.key) = none := by
    decide +kernel
  rw [made'] at refused
  cases refused

end Registration

end DeployManifest
