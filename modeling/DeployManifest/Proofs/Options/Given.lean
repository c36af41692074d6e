import DeployManifest.Proofs.Compile.Site
import DeployManifest.Proofs.Options.Basic
import DeployManifest.Proofs.Options.Global
import Mathlib.Data.List.Nodup

/-! # What calls give for an option

A keyword gives a value for an option unless it is `None`, and a registration goes before the call
that sets options for all endpoints (`Registration.Counts`). What is looked up when an endpoint is
made is what the argument that counts has been converted to (`Registration.Merges`).
-/

namespace DeployManifest

open Outcome

/-! ### Keywords of a call -/

/-- The argument as an option, if it has a keyword. -/
def Argument.keyword? : Argument → Option OptionArgument
  | .keyword name value location => some ⟨name, value, location⟩
  | .positional _ => none
  | .splat _ => none

theorem Argument.keyword?_eq_some_iff {arg : Argument} {k : OptionArgument} :
    arg.keyword? = some k ↔ arg = .keyword k.name k.value k.location := by
  constructor
  · intro found
    cases arg with
    | keyword name value location =>
      cases found
      rfl
    | positional | splat => cases found
  · rintro rfl
    rfl

/-- No keyword of the arguments is repeated. -/
def DistinctKeywords (args : List Argument) : Prop :=
  ((args.filterMap (·.keyword?)).map (·.name)).Nodup

theorem DistinctKeywords.unique {args : List Argument} (distinct : DistinctKeywords args)
    {name : String} {value value' : Expr} {location location' : Location}
    (here : .keyword name value location ∈ args)
    (there : .keyword name value' location' ∈ args) : value = value' ∧ location = location' := by
  have member {value : Expr} {location : Location} (written : .keyword name value location ∈ args) :
      (⟨name, value, location⟩ : OptionArgument) ∈ args.filterMap (·.keyword?) :=
    List.mem_filterMap.mpr ⟨_, written, rfl⟩
  have same := List.inj_on_of_nodup_map distinct (member here) (member there) rfl
  simpa using same

/-- Options are the keywords of a call with an admitted name and a value that is not `None`. No
keyword is repeated. -/
structure OptionArgument.Among (args : List Argument) (admitted : String → Prop)
    (options : List OptionArgument) : Prop where
  mem_iff : ∀ k, k ∈ options ↔
    .keyword k.name k.value k.location ∈ args ∧ admitted k.name ∧ k.value.isNone = false
  distinct : DistinctKeywords args

theorem OptionArgument.among_filter {args : List Argument} {keep : OptionArgument → Bool}
    {admitted : String → Prop} (distinct : DistinctKeywords args)
    (keeps : ∀ k, .keyword k.name k.value k.location ∈ args →
      (keep k = true ↔ admitted k.name ∧ k.value.isNone = false)) :
    Among args admitted ((args.filterMap (·.keyword?)).filter keep) where
  mem_iff k := by
    have written : k ∈ args.filterMap (·.keyword?) ↔
        .keyword k.name k.value k.location ∈ args := by
      simp [List.mem_filterMap, Argument.keyword?_eq_some_iff]
    rw [List.mem_filter, written]
    exact and_congr_right (keeps k)
  distinct := distinct

namespace Registration

variable {r : Registration} {args : List Argument}

/-- An argument that is added is a keyword that is not there yet, or none. -/
theorem keywords_of_addArgument {given next : Arguments} {arg : Argument}
    (added : r.addArgument given arg = .ok next) :
    next.keywords = given.keywords ++ arg.keyword?.toList ∧
      ∀ k ∈ arg.keyword?, k.name ∉ given.keywords.map (·.name) := by
  cases arg with
  | positional value =>
    rw [addArgument] at added
    split at added
    · cases added
      exact ⟨(List.append_nil _).symm, by simp [Argument.keyword?]⟩
    · cases added
  | keyword name value location =>
    rw [addArgument] at added
    split at added
    · cases added
    · rename_i free
      cases added
      refine ⟨rfl, ?_⟩
      rintro k ⟨⟩ taken
      obtain ⟨other, member, same⟩ := List.mem_map.mp taken
      exact absurd same (by simpa using List.find?_eq_none.mp free other member)
  | splat location => cases added

theorem keywords_of_foldlM {start last : Arguments}
    (distinct : (start.keywords.map (·.name)).Nodup)
    (added : args.foldlM r.addArgument start = .ok last) :
    last.keywords = start.keywords ++ args.filterMap (·.keyword?) ∧
      (last.keywords.map (·.name)).Nodup := by
  induction args generalizing start with
  | nil =>
    obtain rfl := pure_eq_ok_iff.mp added
    exact ⟨(List.append_nil _).symm, distinct⟩
  | cons arg args ih =>
    rw [List.foldlM_cons, bind_eq_ok_iff] at added
    obtain ⟨next, first, added⟩ := added
    obtain ⟨keywords, fresh⟩ := keywords_of_addArgument first
    have distinct : (next.keywords.map (·.name)).Nodup := by
      rw [keywords, List.map_append]
      cases found : arg.keyword? with
      | none => simpa using distinct
      | some k =>
        have unused := fresh k found
        rw [Option.toList_some, List.map_singleton, List.nodup_append]
        refine ⟨distinct, by simp, ?_⟩
        intro name taken other here same
        rw [List.mem_singleton] at here
        exact unused (here ▸ same ▸ taken)
    obtain ⟨whole, all⟩ := ih distinct added
    refine ⟨?_, all⟩
    rw [whole, keywords, List.append_assoc]
    cases found : arg.keyword? with
    | none => simp [found]
    | some k => simp [found]

/-- The options of a registration are the keywords that are neither reserved nor `None`. -/
theorem optionsOf_eq {keywords options : List OptionArgument}
    (taken : r.optionsOf keywords = .ok options) :
    options = keywords.filter fun k => !r.isReserved k.name && !k.value.isNone := by
  induction keywords generalizing options with
  | nil =>
    cases taken
    rfl
  | cons k ks ih =>
    rw [optionsOf] at taken
    split at taken
    · rename_i reserved
      rw [List.filter_cons, if_neg (by simp [reserved])]
      exact ih taken
    · rename_i free
      split at taken
      · simp only [bind_eq_ok_iff, pure_eq_ok_iff] at taken
        obtain ⟨rest, others, rfl⟩ := taken
        rw [List.filter_cons, ← ih others]
        split
        · rename_i none
          rw [if_neg (by simp [none])]
        · rename_i given
          rw [if_pos (by simp [free, given])]
      · cases taken

theorem among_of_bound {c : BoundCall} (bound : r.bound = .ok c) :
    OptionArgument.Among r.args (fun name => r.isReserved name = false) c.options := by
  unfold Registration.bound at bound
  split at bound
  · cases bound
  · simp only [bind_eq_ok_iff] at bound
    obtain ⟨args, added, _, -, _, -, bound⟩ := bound
    split at bound
    · cases bound
    · simp only [bind_eq_ok_iff, pure_eq_ok_iff] at bound
      obtain ⟨options, taken, rfl⟩ := bound
      have initial : ((⟨[], []⟩ : Arguments).keywords.map (·.name)).Nodup := List.nodup_nil
      obtain ⟨keywords, distinct⟩ := keywords_of_foldlM initial added
      rw [List.nil_append] at keywords
      rw [keywords] at taken distinct
      dsimp only
      rw [optionsOf_eq taken]
      exact OptionArgument.among_filter distinct (by simp)

end Registration

namespace GlobalCall

/-- The options of the call are the keywords that are not `None`; those that have been seen before
do not stand again. -/
theorem of_options {seen : List String} {args : List Argument} {options : List OptionArgument}
    (taken : GlobalCall.options seen args = .ok options) :
    options = (args.filterMap (·.keyword?)).filter (fun k => !k.value.isNone) ∧
      DistinctKeywords args ∧
      ∀ k ∈ args.filterMap (·.keyword?), k.name ∉ seen := by
  induction args generalizing seen options with
  | nil =>
    cases taken
    exact ⟨rfl, List.nodup_nil, by simp⟩
  | cons arg args ih =>
    cases arg with
    | positional | splat => cases taken
    | keyword name value location =>
      rw [GlobalCall.options] at taken
      split at taken
      · cases taken
      · rename_i fresh
        split at taken
        · simp only [bind_eq_ok_iff, pure_eq_ok_iff] at taken
          obtain ⟨rest, others, rfl⟩ := taken
          obtain ⟨same, distinct, unseen⟩ := ih others
          have row : (Argument.keyword name value location :: args).filterMap (·.keyword?) =
            ⟨name, value, location⟩ :: args.filterMap (·.keyword?) := rfl
          rw [DistinctKeywords, row]
          refine ⟨?_, ?_, ?_⟩
          · rw [List.filter_cons, ← same]
            split
            · rename_i none
              rw [if_neg (by simp [none])]
            · rename_i given
              rw [if_pos (by simp [given])]
          · rw [List.map_cons, List.nodup_cons]
            refine ⟨?_, distinct⟩
            intro again
            obtain ⟨k, member, rfl⟩ := List.mem_map.mp again
            exact unseen k member (List.mem_cons_self ..)
          · refine List.forall_mem_cons.mpr ⟨fun taken => fresh (List.contains_iff_mem.mpr taken), ?_⟩
            intro k member before
            exact unseen k member (List.mem_cons_of_mem _ before)
        · cases taken

theorem among_of_bound {call : GlobalCall} {options : List OptionArgument}
    (bound : call.bound = .ok options) :
    OptionArgument.Among call.args (fun _ => True) options := by
  obtain ⟨same, distinct, -⟩ := of_options bound
  rw [same]
  exact OptionArgument.among_filter distinct (by simp)

end GlobalCall

/-! ### Arguments that count -/

namespace Registration

/-- The argument that counts for an option, in the scope of its module: that of the registration, or
where it has none or `None`, that of the call that sets options for all endpoints. -/
inductive Counts (r : Registration) (s : Scope) (calls : List (ModuleScan × GlobalCall))
    (name : String) : Scope → Expr → Location → Prop where
  | own {value : Expr} {location : Location} (written : .keyword name value location ∈ r.args)
      (given : value.isNone = false) : Counts r s calls name s value location
  | shared {scan : ModuleScan} {call : GlobalCall} {value : Expr} {location : Location}
      (missing : ∀ value location, .keyword name value location ∈ r.args → value.isNone = true)
      (set : (scan, call) ∈ calls) (written : .keyword name value location ∈ call.args)
      (given : value.isNone = false) : Counts r s calls name ⟨s.params, scan⟩ value location

variable {α : Type} {r : Registration} {s : Scope} {calls : List (ModuleScan × GlobalCall)}
  {name : String}

/-- At most one argument can count for an option. -/
structure Unambiguous (r : Registration) (calls : List (ModuleScan × GlobalCall)) : Prop where
  own : DistinctKeywords r.args
  shared : ∀ site ∈ calls, DistinctKeywords site.2.args
  once : ∀ first ∈ calls, ∀ second ∈ calls, first = second

theorem Counts.unique (plain : r.Unambiguous calls) {scope scope' : Scope} {value value' : Expr}
    {location location' : Location} (first : r.Counts s calls name scope value location)
    (second : r.Counts s calls name scope' value' location') :
    scope = scope' ∧ value = value' ∧ location = location' := by
  cases first with
  | own written given =>
    cases second with
    | own written' _ => exact ⟨rfl, plain.own.unique written written'⟩
    | shared missing =>
      rw [missing _ _ written] at given
      cases given
  | shared missing set written given =>
    cases second with
    | own written' given' =>
      rw [missing _ _ written'] at given'
      cases given'
    | shared _ set' written' _ =>
      cases plain.once _ set _ set'
      exact ⟨rfl, (plain.shared _ set).unique written written'⟩

end Registration

/-! ### Converted values -/

/-- The value of an expression that is written for an option. -/
def Scope.valueOf (s : Scope) (name : String) (e : Expr) : Except CompileError Setting :=
  if name = "secrets" then s.secrets e else s.evaluate e

namespace Registration

/-- What the argument that counts for an option has been converted to. -/
inductive Merges {α : Type} (r : Registration) (s : Scope)
    (calls : List (ModuleScan × GlobalCall)) (name : String)
    (conversion : Field → Setting → Except CompileError α) : Option α → Prop where
  | nothing (missing : ∀ scope value location, ¬ r.Counts s calls name scope value location) :
      Merges r s calls name conversion none
  | value {scope : Scope} {value : Expr} {location : Location} {v : Setting} {a : α}
      (counts : r.Counts s calls name scope value location)
      (evaluated : scope.valueOf name value = .ok v)
      (converted : conversion ⟨s.params, name, location⟩ v = .ok a) :
      Merges r s calls name conversion (some a)

variable {α : Type} {r : Registration} {s : Scope} {calls : List (ModuleScan × GlobalCall)}
  {name : String} {conversion : Field → Setting → Except CompileError α} {a : Option α}

/-- An argument that counts has been converted. -/
theorem Merges.of_counts (plain : r.Unambiguous calls)
    (merges : r.Merges s calls name conversion a) {scope : Scope} {value : Expr}
    {location : Location} {v : Setting} (counts : r.Counts s calls name scope value location)
    (evaluated : scope.valueOf name value = .ok v) :
    ∃ w, a = some w ∧ conversion ⟨s.params, name, location⟩ v = .ok w := by
  cases merges with
  | nothing missing => exact absurd counts (missing _ _ _)
  | value counts' evaluated' converted =>
    obtain ⟨rfl, rfl, rfl⟩ := counts.unique plain counts'
    obtain rfl := Except.ok.inj (evaluated.symm.trans evaluated')
    exact ⟨_, rfl, converted⟩

theorem Merges.unique (plain : r.Unambiguous calls) {b : Option α}
    (first : r.Merges s calls name conversion a) (second : r.Merges s calls name conversion b) :
    a = b := by
  cases second with
  | nothing missing =>
    cases first with
    | nothing => rfl
    | value counts => exact absurd counts (missing _ _ _)
  | value counts evaluated converted =>
    obtain ⟨w, rfl, done⟩ := first.of_counts plain counts evaluated
    rw [Except.ok.inj (done.symm.trans converted)]

end Registration

/-! ### Options that are looked up -/

namespace Scope

variable {α : Type} {s : Scope}

/-- What the arguments of one call give for an option. -/
inductive Gives (s : Scope) (args : List Argument) (name : String)
    (conversion : Field → Setting → Except CompileError α) : Option α → Prop where
  | nothing (missing : ∀ value location, .keyword name value location ∈ args →
      value.isNone = true) : Gives s args name conversion none
  | value {value : Expr} {location : Location} {v : Setting} {a : α}
      (written : .keyword name value location ∈ args) (given : value.isNone = false)
      (evaluated : s.valueOf name value = .ok v)
      (converted : conversion ⟨s.params, name, location⟩ v = .ok a) :
      Gives s args name conversion (some a)

/-- What is looked up among the options of a call is what its arguments give. -/
theorem gives_of_convert {args : List Argument} {admitted : String → Prop}
    {written : List OptionArgument} {options : OptionSet} {name : String}
    {conversion : Field → Setting → Except CompileError α} {a : Option α}
    (among : OptionArgument.Among args admitted written) (free : admitted name)
    (evaluated : s.options written = .ok options)
    (converted : options.convert s.params name conversion = .ok a) :
    s.Gives args name conversion a := by
  have related := find?_options name evaluated
  cases found : written.find? (·.name == name) with
  | none =>
    rw [found] at related
    have missing : options.option? name = none := by
      generalize options.option? name = given at related
      cases related
      rfl
    obtain rfl : a = none := by
      rw [OptionSet.convert_eq_ok_none_iff.mpr missing] at converted
      exact (Except.ok.inj converted).symm
    refine .nothing fun value location member => ?_
    by_contra given
    have inside := (among.mem_iff ⟨name, value, location⟩).mpr
      ⟨member, free, Bool.eq_false_iff.mpr given⟩
    exact List.find?_eq_none.mp found _ inside (by simp)
  | some arg =>
    rw [found] at related
    have named : arg.name = name := by simpa using List.find?_some found
    obtain ⟨member, -, given⟩ := (among.mem_iff arg).mp (List.mem_of_find?_eq_some found)
    obtain ⟨o, present, valued⟩ : ∃ o, options.option? name = some o ∧ s.optionValue arg = .ok o := by
      generalize options.option? name = given at related
      cases related with
      | some valued => exact ⟨_, rfl, valued⟩
    obtain ⟨value, -, location⟩ := optionValue_eq_ok_iff.mp valued
    rw [named] at member value
    cases a with
    | none =>
      rw [OptionSet.convert_eq_ok_none_iff.mp converted] at present
      cases present
    | some a =>
      obtain ⟨o', present', done⟩ := OptionSet.convert_eq_ok_some_iff.mp converted
      obtain rfl := Option.some.inj (present.symm.trans present')
      rw [location] at done
      exact .value member given value done

end Scope

namespace Registration

variable {α : Type} {r : Registration} {s : Scope} {calls : List (ModuleScan × GlobalCall)}
  {name : String} {conversion : Field → Setting → Except CompileError α} {a b : Option α}

/-- Without a call for all endpoints, the arguments of the registration count. -/
theorem Merges.of_own (gives : s.Gives r.args name conversion a) :
    r.Merges s [] name conversion a := by
  cases gives with
  | nothing missing =>
    refine .nothing ?_
    rintro scope value location (⟨written, given⟩ | ⟨-, set⟩)
    · rw [missing _ _ written] at given
      cases given
    · cases set
  | value written given evaluated converted => exact .value (.own written given) evaluated converted

/-- With a call for all endpoints, the arguments of the registration go before. -/
theorem Merges.of_shared {scan : ModuleScan} {call : GlobalCall}
    (own : s.Gives r.args name conversion a)
    (shared : Scope.Gives ⟨s.params, scan⟩ call.args name conversion b) :
    r.Merges s [(scan, call)] name conversion (a.or b) := by
  cases own with
  | value written given evaluated converted => exact .value (.own written given) evaluated converted
  | nothing missing =>
    rw [Option.none_or]
    cases shared with
    | value written given evaluated converted =>
      exact .value (.shared missing (List.mem_singleton_self _) written given) evaluated converted
    | nothing missing' =>
      refine .nothing ?_
      rintro scope value location (⟨written, given⟩ | ⟨-, set, written, given⟩)
      · rw [missing _ _ written] at given
        cases given
      · cases List.mem_singleton.mp set
        rw [missing' _ _ written] at given
        cases given

end Registration

end DeployManifest
