import DeployManifest.Options.Basic
import DeployManifest.Proofs.Outcome

/-! # Looking up options

An option that is asked for is either not given, or its value has been converted
(`convert_eq_ok_some_iff`). The option with a name among the evaluated ones is the one with that
name among those that are written (`find?_options`).
-/

namespace DeployManifest

open Outcome

namespace BoundCall

/-- The option with a name, as it is written. -/
def option? (c : BoundCall) (name : String) : Option OptionArgument :=
  c.options.find? (·.name == name)

end BoundCall

namespace OptionSet

variable {α : Type} {options : OptionSet} {params : ParamTable} {name : String}
  {conversion : Field → Setting → Except CompileError α}

/-- The option with a name. -/
def option? (options : OptionSet) (name : String) : Option OptionValue :=
  options.find? fun (o : OptionValue) => o.name == name

/-- The value of an option of a type, if the option is given. -/
def typed (options : OptionSet) (params : ParamTable) (name : String) (type : FieldType) :
    Except CompileError (Option Setting) :=
  options.convert params name fun f value => f.typed type value

theorem convert_eq_ok_none_iff :
    options.convert params name conversion = .ok none ↔ options.option? name = none := by
  unfold convert option?
  split
  · rename_i missing
    simp [missing]
  · rename_i o found
    simp [found, map_eq_ok_iff]

theorem convert_eq_ok_some_iff {a : α} :
    options.convert params name conversion = .ok (some a) ↔
      ∃ o, options.option? name = some o ∧
        conversion ⟨params, name, o.location⟩ o.value = .ok a := by
  unfold convert option?
  split
  · rename_i missing
    simp [missing]
  · rename_i o found
    simp [found, map_eq_ok_iff]

end OptionSet

namespace Scope

variable {s : Scope}

theorem optionValue_eq_ok_iff {arg : OptionArgument} {o : OptionValue} :
    s.optionValue arg = .ok o ↔
      (if arg.name = "secrets" then s.secrets arg.value else s.evaluate arg.value) = .ok o.value ∧
        o.name = arg.name ∧ o.location = arg.location := by
  have whole : s.optionValue arg =
      (if arg.name = "secrets" then s.secrets arg.value else s.evaluate arg.value) >>= fun value =>
        pure ⟨arg.name, value, arg.location⟩ := by
    rw [optionValue]
    split <;> rfl
  simp only [whole, bind_eq_ok_iff, pure_eq_ok_iff]
  constructor
  · rintro ⟨value, evaluated, rfl⟩
    exact ⟨evaluated, rfl, rfl⟩
  · rintro ⟨evaluated, sameName, sameLocation⟩
    refine ⟨o.value, evaluated, ?_⟩
    rw [← sameName, ← sameLocation]

/-- Evaluating options keeps their names and their order. -/
theorem find?_options {args : List OptionArgument} {values : OptionSet} (name : String)
    (evaluated : s.options args = .ok values) :
    Option.Rel (fun arg o => s.optionValue arg = .ok o) (args.find? (·.name == name))
      (values.option? name) := by
  rw [options, mapM_eq_ok_iff] at evaluated
  rw [OptionSet.option?]
  induction evaluated with
  | nil => exact .none
  | @cons arg o _ _ first _ ih =>
    rw [List.find?_cons, List.find?_cons, (optionValue_eq_ok_iff.mp first).2.1]
    cases arg.name == name with
    | true => exact .some first
    | false => exact ih

/-- What holds of the value of an option holds of what is written for it. -/
theorem forall_option?_iff {c : BoundCall} {values : OptionSet} {name : String}
    (evaluated : s.options c.options = .ok values) (notSecrets : name ≠ "secrets")
    (holds : Setting → Prop) :
    (∀ o, values.option? name = some o → holds o.value) ↔
      ∀ arg, c.option? name = some arg → ∃ v, s.evaluate arg.value = .ok v ∧ holds v := by
  have related := find?_options name evaluated
  rw [← BoundCall.option?] at related
  cases found : c.option? name with
  | none =>
    rw [found] at related
    generalize values.option? name = given at related
    cases related
    simp
  | some arg =>
    have named : arg.name = name := by simpa using List.find?_some found
    rw [found] at related
    generalize values.option? name = given at related
    cases related with
    | some valued =>
      obtain ⟨value, -, -⟩ := optionValue_eq_ok_iff.mp valued
      rw [named, if_neg notSecrets] at value
      simp [value]

end Scope

end DeployManifest
