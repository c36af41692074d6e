import DeployManifest.Options.Base
import DeployManifest.Options.Trigger
import DeployManifest.Proofs.Compile.Binding
import DeployManifest.Proofs.Options.Basic
import Mathlib.Data.List.Perm.Basic

/-! # Options in another order

Options are evaluated in the order in which they are written, but looked up by their names. With
distinct names the order therefore decides at most which error comes first: what succeeds in one
order succeeds in every other, and all that is made of the options is the same.
-/

namespace DeployManifest

open Outcome

namespace OptionSet

/-- The look-up of every option gives the same. -/
def Agrees (options options' : OptionSet) : Prop :=
  ∀ name, options.option? name = options'.option? name

variable {α : Type} {options options' : OptionSet} {params : ParamTable}

theorem agrees_of_perm (permuted : options.Perm options')
    (distinct : (options.map fun (o : OptionValue) => o.name).Nodup) : options.Agrees options' := by
  intro name
  have distinct' := (permuted.map fun (o : OptionValue) => o.name).nodup_iff.mp distinct
  apply Option.ext
  intro o
  exact (find?_key_eq_some_iff distinct).trans
    ((and_congr_left' permuted.mem_iff).trans (find?_key_eq_some_iff distinct').symm)

theorem Agrees.convert (agrees : options.Agrees options') (name : String)
    (conversion : Field → Setting → Except CompileError α) :
    options.convert params name conversion = options'.convert params name conversion := by
  have found : options.find? (·.name == name) = options'.find? (·.name == name) := agrees name
  unfold OptionSet.convert
  rw [found]

/-- Whatever is filled from the options is the same. -/
theorem Agrees.read (agrees : options.Agrees options') (p : Filling α) :
    p.read params options = p.read params options' := by
  induction p with
  | done | failed => rfl
  | take name conversion next ih => simp only [Filling.read, agrees.convert, ih]

end OptionSet

namespace Scope

variable {s : Scope} {written written' : List OptionArgument} {options : OptionSet}

theorem names_of_options (evaluated : s.options written = .ok options) :
    options.map (fun (o : OptionValue) => o.name) = written.map (·.name) := by
  rw [Scope.options, mapM_eq_ok_iff] at evaluated
  induction evaluated with
  | nil => rfl
  | cons first _ ih => rw [List.map_cons, List.map_cons, ih, (optionValue_eq_ok_iff.mp first).2.1]

/-- What holds of the names of options still does when they have been evaluated. -/
theorem forall_name_of_options (holds : String → Prop)
    (evaluated : s.options written = .ok options) (names : ∀ k ∈ written, holds k.name) :
    ∀ o ∈ options, holds o.name := by
  have same := names_of_options evaluated
  intro o member
  have named := List.mem_map_of_mem (f := fun (o : OptionValue) => o.name) member
  rw [same] at named
  obtain ⟨k, given, found⟩ := List.mem_map.mp named
  rw [← found]
  exact names k given

/-- Options that can be evaluated in one order can be evaluated in any other. -/
theorem exists_options_of_perm (permuted : written'.Perm written)
    (distinct : (written.map (·.name)).Nodup) (evaluated : s.options written = .ok options) :
    ∃ options', s.options written' = .ok options' ∧ options.Agrees options' := by
  have each := mapM_eq_ok_iff.mp evaluated
  obtain ⟨options', each', moved⟩ := List.perm_comp_forall₂ permuted each
  refine ⟨options', mapM_eq_ok_iff.mpr each', OptionSet.agrees_of_perm moved.symm ?_⟩
  rw [names_of_options evaluated]
  exact distinct

end Scope

namespace BoundCall

/-- Two calls that differ in the order of their options, and in arguments that have been taken. -/
structure Alike (c c' : BoundCall) : Prop where
  family : c.site.family = c'.site.family
  method : c.site.method = c'.site.method
  location : c.site.location = c'.site.location
  address : c.address = c'.address
  entryPoint : c.entryPoint = c'.entryPoint
  options : c.options.Perm c'.options
  distinct : (c.options.map (·.name)).Nodup

variable {c c' : BoundCall} {s : Scope} {globals : GlobalOptions} {e : Endpoint}

/-- Such calls make the same endpoint. -/
theorem Alike.endpoint (alike : c.Alike c') (made : c.endpoint s globals = .ok e) :
    c'.endpoint s globals = .ok e := by
  have key : c.key = c'.key := by
    rw [BoundCall.key, BoundCall.key, alike.family, alike.method, alike.address]
  simp only [BoundCall.endpoint, bind_eq_ok_iff] at made ⊢
  obtain ⟨options, evaluated, trigger, triggered, base, converted, made⟩ := made
  obtain ⟨options', evaluated', agrees⟩ :=
    Scope.exists_options_of_perm alike.options.symm alike.distinct evaluated
  refine ⟨options', evaluated', trigger, ?_, base, ?_, ?_⟩
  · rw [← alike.family, ← alike.method, ← alike.address]
    exact (agrees.read _).symm.trans triggered
  · exact (agrees.read _).symm.trans converted
  · rw [← key, ← alike.entryPoint, ← alike.location]
    exact made

end BoundCall

end DeployManifest
