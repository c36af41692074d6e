import DeployManifest.Eval.Scope
import DeployManifest.Proofs.Options.Basic
import DeployManifest.Proofs.Typing.Value
import Mathlib.Data.List.Nodup

/-! # Values that expressions stand for

Whatever an expression is, the setting that it stands for refers to declared parameters alone,
chooses by boolean ones, and has choices of plain sides (`isClosed_of_evaluate`). The kinds of the
other references are left to the fields.
-/

namespace DeployManifest

open Outcome

namespace ParamTable

variable {t : ParamTable}

theorem mem_params {entry : ParamEntry} (member : entry ∈ t.entries) : entry.param ∈ t.params :=
  List.mem_map_of_mem member

/-- A name of the source refers to a parameter of the table. -/
theorem mem_of_lookup {binding module : String} {offset : Nat} {p : Param}
    (found : t.lookup binding module offset = .found p ∨
      t.lookup binding module offset = .otherModule p) : p ∈ t.params := by
  unfold lookup at found
  dsimp only at found
  rw [boundTo_eq_filter] at found
  split at found
  · rename_i entry last
    have member := List.mem_of_getLast? last
    simp only [List.mem_filter] at member
    simp only [ParamLookup.found.injEq, reduceCtorEq, or_false] at found
    exact found ▸ mem_params member.1.1.1
  · split at found
    · simp at found
    · split at found
      · rename_i entry first
        have member := List.mem_of_head? first
        simp only [List.mem_filter] at member
        simp only [ParamLookup.otherModule.injEq, reduceCtorEq, false_or] at found
        exact found ▸ mem_params member.1
      · simp at found

/-- No two parameters have one name. -/
def Distinct (t : ParamTable) : Prop := (t.params.map (·.name)).Nodup

theorem Distinct.eq_of_name (distinct : t.Distinct) {p q : Param} (here : p ∈ t.params)
    (there : q ∈ t.params) (same : p.name = q.name) : p = q :=
  List.inj_on_of_nodup_map distinct here there same

/-- The name of a parameter names it alone. -/
theorem Distinct.names (distinct : t.Distinct) {allowed : ParamKind → Prop} {p : Param}
    (member : p ∈ t.params) (ofKind : allowed p.kind) : Names t.params allowed p.name := by
  refine ⟨⟨p, member, rfl⟩, fun q other same => ?_⟩
  rwa [distinct.eq_of_name other member same]

end ParamTable

namespace Scope

variable {s : Scope}

theorem mem_of_param {name : String} {e : Expr} {p : Param} (found : s.param name e = .ok p) :
    p ∈ s.params.params := by
  unfold Scope.param at found
  split at found
  · cases found
    exact ParamTable.mem_of_lookup (.inl ‹_›)
  · split at found
    · cases found
      exact ParamTable.mem_of_lookup (.inr ‹_›)
    · cases found
  · cases found
  · split at found <;> cases found

/-- A named constant refers to no parameter. -/
theorem isClosed_of_value? {parts : List String} {v : Setting} {params : List Param}
    {allowed : ParamKind → Prop} (known : Constants.value? parts = .ok v) :
    v.IsClosed params allowed := by
  unfold Constants.value? at known
  dsimp only at known
  split at known
  · cases known
    exact .reset
  · split at known
    · cases known
      exact .literal _
    · cases known
  · split at known
    · cases known
      exact .literal _
    · cases known
  · split at known
    · cases known
      exact .literal _
    · cases known
  · split at known
    · cases known
      exact .literal _
    · cases known
  · cases known

theorem isClosed_of_constant {e : Expr} {parts : List String} {v : Setting} {params : List Param}
    {allowed : ParamKind → Prop} (known : e.constant parts = .ok v) :
    v.IsClosed params allowed := by
  rw [Expr.constant, mapError_eq_ok_iff] at known
  exact isClosed_of_value? known

theorem names_of_condition {name : String} {e : Expr} {p : Param} (distinct : s.params.Distinct)
    (chosen : s.condition name e = .ok p) : Names s.params.params (· = .boolean) p.name := by
  simp only [condition, bind_eq_ok_iff] at chosen
  obtain ⟨q, found, chosen⟩ := chosen
  split at chosen
  · rename_i boolean
    obtain rfl := pure_eq_ok_iff.mp chosen
    exact distinct.names (mem_of_param found) boolean
  · cases chosen

/-- A side of a choice is plain, and is what stands there. -/
theorem isSide_of_branch {e : Expr} {v side : Setting} {params : List Param}
    {allowed : ParamKind → Prop} (closed : v.IsClosed params allowed)
    (taken : branch e v = .ok side) : side.IsSide params allowed := by
  cases closed with
  | literal l =>
    rw [branch] at taken
    split at taken
    · rename_i scalar
      cases taken
      exact .literal scalar
    · cases taken
  | param named =>
    cases taken
    exact .param named
  | choice _ _ _ => cases taken
  | reset => cases taken

/-- Evaluation gives settings over declared parameters. -/
theorem isClosed_of_evaluate (distinct : s.params.Distinct) {e : Expr} {v : Setting}
    (evaluated : s.evaluate e = .ok v) : v.IsClosed s.params.params (fun _ => True) := by
  induction e using Scope.evaluate.induct generalizing v with
  | case1 => cases evaluated
  | case2 =>
    cases evaluated
    exact .reset
  | case3 location offset text name notReset =>
    rw [evaluate, if_neg notReset, map_eq_ok_iff] at evaluated
    obtain ⟨p, found, rfl⟩ := evaluated
    exact .param (distinct.names (mem_of_param found) trivial)
  | case4 location offset text parts => exact isClosed_of_constant evaluated
  | case5 location offset text callee args notChooser =>
    rw [evaluate, notChooser] at evaluated
    cases evaluated
  | case6 location offset text callee name chooser yes no first second =>
    rw [evaluate, chooser] at evaluated
    simp only [bind_eq_ok_iff, pure_eq_ok_iff] at evaluated
    obtain ⟨p, chosen, v, yesValue, v', yesTaken, w, noValue, w', noTaken, rfl⟩ := evaluated
    exact .choice (names_of_condition distinct chosen)
      (isSide_of_branch (first yesValue) yesTaken) (isSide_of_branch (second noValue) noTaken)
  | case7 location offset text callee args name chooser others =>
    rw [evaluate, chooser] at evaluated
    dsimp only at evaluated
    split at evaluated
    · exact (others _ _ rfl).elim
    · cases evaluated
  | case8 => cases evaluated
  | case9 form location offset text notNone notName notPath notCall notUnsupported =>
    unfold evaluate at evaluated
    split at evaluated
    · exact absurd rfl notNone
    · exact absurd rfl (notName _)
    · exact absurd rfl (notPath _)
    · exact absurd rfl (notCall _ _)
    · exact absurd rfl notUnsupported
    · obtain ⟨l, -, rfl⟩ := map_eq_ok_iff.mp evaluated
      exact .literal l

/-- The names of secrets are literals. -/
theorem isClosed_of_secrets {e : Expr} {v : Setting} {params : List Param}
    {allowed : ParamKind → Prop} (evaluated : s.secrets e = .ok v) : v.IsClosed params allowed := by
  have named {items : List Expr} (done : (do return Setting.texts (← items.mapM s.secretName)) =
      (.ok v : Except CompileError Setting)) : v.IsClosed params allowed := by
    simp only [bind_eq_ok_iff, pure_eq_ok_iff] at done
    obtain ⟨names, -, rfl⟩ := done
    exact .literal _
  unfold secrets at evaluated
  split at evaluated
  · exact named evaluated
  · exact named evaluated
  · split at evaluated
    · obtain ⟨_, -, reset⟩ := bind_eq_ok_iff.mp evaluated
      split at reset
      · cases reset
        exact .reset
      · cases reset
    · exact named evaluated
  · obtain ⟨_, -, reset⟩ := bind_eq_ok_iff.mp evaluated
    split at reset
    · cases reset
      exact .reset
    · cases reset

/-- The options of a call are settings over declared parameters. -/
theorem isClosed_of_options (distinct : s.params.Distinct) {args : List OptionArgument}
    {values : OptionSet} (evaluated : s.options args = .ok values) :
    ∀ o ∈ values, o.value.IsClosed s.params.params (fun _ => True) := by
  rw [options, mapM_eq_ok_iff] at evaluated
  induction evaluated with
  | nil => simp
  | @cons arg o _ _ first _ ih =>
    refine List.forall_mem_cons.mpr ⟨?_, ih⟩
    obtain ⟨value, -, -⟩ := optionValue_eq_ok_iff.mp first
    split at value
    · exact isClosed_of_secrets value
    · exact isClosed_of_evaluate distinct value

end Scope

end DeployManifest
