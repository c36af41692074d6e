import DeployManifest.Options.Filling
import DeployManifest.Proofs.Options.Basic
import Mathlib.Data.List.Nodup
import Mathlib.Data.List.Perm.Basic

/-! # Filling fields from options

Filling the fields of an endpoint is a program that asks for options by their names, each with the
conversion of its field (`Filling`). The options can be read, and stay, or be used up, and are gone.
A program that asks for no name twice has the same result in both ways
(`Filling.Asks.consume_value`). What it uses up is converted once and nothing gets lost
(`Filling.consume_conserves`), and of the options with the names that it asks for none is left
(`Filling.Asks.left_of_consume`).
-/

namespace DeployManifest

open Outcome

/-- An option that has been used up, with the check that its conversion is. -/
structure OptionUse where
  option : OptionValue
  check : Field → Setting → Except CompileError Unit

/-- The option passes the check. -/
def OptionUse.Passes (params : ParamTable) (use : OptionUse) : Prop :=
  use.check ⟨params, use.option.name, use.option.location⟩ use.option.value = .ok ()

/-- What a program has made of options that it uses up. -/
structure Filled (α : Type) where
  value : α
  /-- The options that have not been asked for. -/
  left : OptionSet
  uses : List OptionUse

namespace OptionSet

variable {options : OptionSet} {name other : String} {o : OptionValue}

/-- The options without the one with a name. -/
def without (options : OptionSet) (name : String) : OptionSet :=
  options.eraseP fun (o : OptionValue) => o.name == name

/-- No two options have one name. -/
def DistinctNames (options : OptionSet) : Prop :=
  (options.map fun (o : OptionValue) => o.name).Nodup

theorem option?_eq_none_iff : options.option? name = none ↔ ∀ o ∈ options, o.name ≠ name := by
  simp [option?, List.find?_eq_none]

theorem name_of_option? (found : options.option? name = some o) : o.name = name := by
  simpa using List.find?_some found

theorem perm_without (found : options.option? name = some o) :
    (o :: options.without name).Perm options := by
  induction options with
  | nil => cases found
  | cons first rest ih =>
    rw [option?, List.find?_cons] at found
    rw [without, List.eraseP_cons]
    cases named : first.name == name with
    | true =>
      rw [named] at found
      cases found
      exact .refl _
    | false =>
      rw [named] at found
      exact (List.Perm.swap first o _).trans ((ih found).cons first)

theorem option?_without_of_ne (different : other ≠ name) :
    (options.without name).option? other = options.option? other := by
  induction options with
  | nil => rfl
  | cons first rest ih =>
    rw [without, List.eraseP_cons]
    cases named : first.name == name with
    | true =>
      have unlike : (first.name == other) = false := by
        rw [eq_of_beq named]
        simpa using different.symm
      simp [option?, unlike]
    | false =>
      rw [cond_false, option?, option?, List.find?_cons, List.find?_cons]
      cases first.name == other with
      | true => rfl
      | false => exact ih

theorem DistinctNames.without (distinct : options.DistinctNames) (name : String) :
    (options.without name).DistinctNames :=
  distinct.sublist (List.eraseP_sublist.map _)

theorem DistinctNames.option?_without (distinct : options.DistinctNames)
    (found : options.option? name = some o) : (options.without name).option? name = none := by
  have whole := ((perm_without found).map fun (o : OptionValue) => o.name).nodup_iff.mpr distinct
  refine option?_eq_none_iff.mpr fun other member same => (List.nodup_cons.mp whole).1 ?_
  exact List.mem_map.mpr ⟨other, member, same.trans (name_of_option? found).symm⟩

end OptionSet

namespace Filling

variable {α β : Type}

/-- Runs the program on options that are gone when they have been asked for. -/
def consume (params : ParamTable) : Filling α → OptionSet → Except CompileError (Filled α)
  | done value, options => .ok ⟨value, options, []⟩
  | failed fault, _ => .error fault
  | take name conversion next, options =>
    match options.option? name with
    | none => (next none).consume params options
    | some o => do
      let converted ← conversion ⟨params, name, o.location⟩ o.value
      let filled ← (next (some converted)).consume params (options.without name)
      return { filled with
        uses := ⟨o, fun f value => (conversion f value).map fun _ => ()⟩ :: filled.uses }

/-! ### Reading options -/

variable {params : ParamTable} {options options' : OptionSet} {names more : List String}

@[simp] theorem read_pure (value : α) :
    (pure value : Filling α).read params options = .ok value := rfl

@[simp] theorem read_option (name : String)
    (conversion : Field → Setting → Except CompileError α) :
    (option name conversion).read params options = options.convert params name conversion := by
  change (options.convert params name conversion >>= fun given => .ok given) = _
  cases options.convert params name conversion <;> rfl

@[simp] theorem read_typed (name : String) (type : FieldType) :
    (typed name type).read params options = options.typed params name type := read_option ..

@[simp] theorem read_ofOutcome (outcome : Except CompileError α) :
    (ofOutcome outcome).read params options = outcome := by
  cases outcome <;> rfl

@[simp] theorem read_bind (p : Filling α) (f : α → Filling β) :
    (p >>= f).read params options =
      p.read params options >>= fun value => (f value).read params options := by
  change (p.bind f).read params options = _
  induction p with
  | done value => rfl
  | failed fault => rfl
  | take name conversion next ih =>
    simp only [Filling.bind, read, ih]
    cases options.convert params name conversion <;> rfl

/-! ### The options that are asked for -/

/-- The program asks for options of these names, one after the other, unless it fails before. -/
inductive Asks : List String → Filling α → Prop where
  | done (value : α) : Asks [] (done value)
  | failed (names : List String) (fault : CompileError) : Asks names (failed fault)
  | take {β : Type} {name : String} {names : List String}
      {conversion : Field → Setting → Except CompileError β} {next : Option β → Filling α}
      (rest : ∀ given, Asks names (next given)) : Asks (name :: names) (take name conversion next)

theorem Asks.pure (value : α) : Asks [] (pure value : Filling α) := .done value

theorem Asks.ofOutcome (outcome : Except CompileError α) : Asks [] (ofOutcome outcome) := by
  cases outcome with
  | ok value => exact .done value
  | error fault => exact .failed [] fault

theorem Asks.bind {p : Filling α} {f : α → Filling β} (asks : Asks names p)
    (rest : ∀ value, Asks more (f value)) : Asks (names ++ more) (p >>= f) := by
  change Asks _ (p.bind f)
  induction asks with
  | done value => exact rest value
  | failed names fault => exact .failed _ fault
  | take _ ih => exact .take ih

/-- A program that starts with asking for an option. -/
theorem Asks.option {name : String} {conversion : Field → Setting → Except CompileError α}
    {next : Option α → Filling β} (rest : ∀ given, Asks names (next given)) :
    Asks (name :: names) (option name conversion >>= next) :=
  (Asks.take fun given => .done given).bind rest

theorem Asks.typed {name : String} {type : FieldType} {next : Option Setting → Filling β}
    (rest : ∀ given, Asks names (next given)) : Asks (name :: names) (typed name type >>= next) :=
  .option rest

/-- Options that are not asked for make no difference. -/
theorem Asks.read_congr {p : Filling α} (asks : Asks names p)
    (same : ∀ name ∈ names, options.option? name = options'.option? name) :
    p.read params options = p.read params options' := by
  induction asks with
  | done | failed => rfl
  | @take β name names conversion next _ ih =>
    obtain ⟨here, same⟩ := List.forall_mem_cons.mp same
    have converted : options.convert params name conversion =
        options'.convert params name conversion := by
      change options.find? _ = options'.find? _ at here
      rw [OptionSet.convert, OptionSet.convert, here]
    simp only [read, converted, ih _ same]

/-! ### Using options up -/

/-- Each option is used up or left, and none is used up twice; those that are have been checked. -/
theorem consume_conserves {p : Filling α} {filled : Filled α}
    (consumed : p.consume params options = .ok filled) :
    (filled.uses.map (·.option) ++ filled.left).Perm options ∧
      ∀ use ∈ filled.uses, use.Passes params := by
  induction p generalizing options filled with
  | done value =>
    cases consumed
    exact ⟨.refl _, by simp⟩
  | failed fault => cases consumed
  | take name conversion next ih =>
    rw [consume] at consumed
    split at consumed
    · exact ih _ consumed
    · rename_i o found
      simp only [bind_eq_ok_iff, pure_eq_ok_iff] at consumed
      obtain ⟨converted, done, later, consumed, rfl⟩ := consumed
      obtain ⟨conserved, passed⟩ := ih _ consumed
      refine ⟨(conserved.cons o).trans (OptionSet.perm_without found), ?_⟩
      refine List.forall_mem_cons.mpr ⟨?_, passed⟩
      rw [OptionUse.Passes, OptionSet.name_of_option? found]
      exact map_eq_ok_iff.mpr ⟨converted, done, rfl⟩

/-- Of distinct options, none that has been asked for is left. -/
theorem Asks.left_of_consume {p : Filling α} (asks : Asks names p)
    (distinct : options.DistinctNames) {filled : Filled α}
    (consumed : p.consume params options = .ok filled) :
    ∀ name ∈ names, filled.left.option? name = none := by
  have gone {name : String} {p : Filling α} {options : OptionSet} {filled : Filled α}
      (consumed : p.consume params options = .ok filled)
      (missing : options.option? name = none) : filled.left.option? name = none := by
    rw [OptionSet.option?_eq_none_iff] at missing ⊢
    intro o member
    have among := (consume_conserves consumed).1.mem_iff.mp (List.mem_append_right _ member)
    exact missing o among
  induction asks generalizing options filled with
  | done => simp
  | failed => cases consumed
  | @take β name names conversion next _ ih =>
    rw [consume] at consumed
    split at consumed
    · rename_i missing
      exact List.forall_mem_cons.mpr ⟨gone consumed missing, ih _ distinct consumed⟩
    · rename_i o found
      simp only [bind_eq_ok_iff, pure_eq_ok_iff] at consumed
      obtain ⟨converted, -, later, consumed, rfl⟩ := consumed
      have here := gone consumed (distinct.option?_without found)
      have others := ih (some converted) (distinct.without name) consumed
      exact List.forall_mem_cons.mpr ⟨here, others⟩

/-- When no name is asked for twice, it makes no difference whether the options stay. -/
theorem Asks.consume_value {p : Filling α} (asks : Asks names p) (once : names.Nodup) :
    (p.consume params options).map (·.value) = p.read params options := by
  induction asks generalizing options with
  | done | failed => rfl
  | @take β name names conversion next asks ih =>
    obtain ⟨fresh, once⟩ := List.nodup_cons.mp once
    rw [consume, read, OptionSet.convert]
    change _ = (match options.option? name with
      | none => _
      | some o => _) >>= _
    split
    · exact ih none once
    · rename_i o found
      cases conversion ⟨params, name, o.location⟩ o.value with
      | error fault => rfl
      | ok converted =>
        have unasked : ∀ other ∈ names,
            (options.without name).option? other = options.option? other :=
          fun other member => OptionSet.option?_without_of_ne fun same => fresh (same ▸ member)
        have rest : ((next (some converted)).consume params (options.without name)).map (·.value) =
            (next (some converted)).read params (options.without name) := ih _ once
        rw [(asks _).read_congr unasked] at rest
        change _ = (next (some converted)).read params options
        rw [← rest]
        cases ran : (next (some converted)).consume params (options.without name) <;>
          simp [Bind.bind, Except.bind, ran, Pure.pure, Except.pure, Except.map]

end Filling

end DeployManifest
