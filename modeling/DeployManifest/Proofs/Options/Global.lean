import DeployManifest.Options.Base
import DeployManifest.Proofs.Outcome

/-! # Global options

At most one call sets global options. Main statements: `ofScans_eq_ok_iff` and
`ofScans_eq_error_iff`, in terms of what each call sets on its own.
-/

namespace DeployManifest

open Outcome

/-- What a call sets on its own. -/
def GlobalCall.base (call : GlobalCall) (s : Scope) : Except CompileError BaseOptions := do
  let options ← s.options (← call.bound)
  BaseOptions.ofOptions options s.params

namespace GlobalOptions

/-- The calls that set global options, each with its module. -/
def calls (scans : List ModuleScan) : List (ModuleScan × GlobalCall) :=
  scans.flatMap fun scan => scan.globalCalls.map fun call => (scan, call)

/-- The options that calls set: none without a call, otherwise those of the only one. -/
inductive Sets (params : ParamTable) : List (ModuleScan × GlobalCall) → GlobalOptions → Prop where
  | none : Sets params [] GlobalOptions.none
  | once {scan : ModuleScan} {call : GlobalCall} {base : BaseOptions}
      (set : call.base ⟨params, scan⟩ = .ok base) : Sets params [(scan, call)] ⟨base, call.location⟩

/-- The error of the first call that cannot be accepted: the first one may fail on its own, and a
second one is one too many. -/
inductive FirstFailure (params : ParamTable) :
    List (ModuleScan × GlobalCall) → CompileError → Prop where
  | failed {scan : ModuleScan} {call : GlobalCall} {later : List (ModuleScan × GlobalCall)}
      {e : CompileError} (failed : call.base ⟨params, scan⟩ = .error e) :
      FirstFailure params ((scan, call) :: later) e
  | twice {scan : ModuleScan} {call : GlobalCall} {base : BaseOptions}
      {second : ModuleScan × GlobalCall} {later : List (ModuleScan × GlobalCall)}
      (set : call.base ⟨params, scan⟩ = .ok base) :
      FirstFailure params ((scan, call) :: second :: later)
        (.duplicateGlobals call.location second.2.location)

theorem set_none (s : Scope) (call : GlobalCall) :
    GlobalOptions.none.set s call = (call.base s).map fun base => ⟨base, some call.location⟩ := by
  change (do
    let options ← s.options (← call.bound)
    let base ← BaseOptions.ofOptions options s.params
    return (⟨base, some call.location⟩ : GlobalOptions)) = _
  rw [GlobalCall.base]
  cases call.bound with
  | error e => rfl
  | ok args =>
    cases evaluated : s.options args with
    | error e => simp only [bind, Except.bind, evaluated, Except.map]
    | ok options =>
      simp only [bind, Except.bind, evaluated]
      cases BaseOptions.ofOptions options s.params <;> rfl

/-- The fold over the calls, by how many there are. -/
theorem ofScans_eq (scans : List ModuleScan) (params : ParamTable) :
    ofScans scans params =
      match calls scans with
      | [] => .ok none
      | (scan, call) :: later =>
        match call.base ⟨params, scan⟩, later with
        | .error e, _ => .error e
        | .ok base, [] => .ok ⟨base, call.location⟩
        | .ok _, second :: _ => .error (.duplicateGlobals call.location second.2.location) := by
  rw [ofScans]
  change (calls scans).foldlM _ none = _
  cases calls scans with
  | nil => rfl
  | cons first later =>
    obtain ⟨scan, call⟩ := first
    rw [List.foldlM_cons]
    dsimp only
    rw [set_none]
    cases call.base ⟨params, scan⟩ with
    | error e => rfl
    | ok base => cases later <;> rfl

theorem ofScans_eq_ok_iff {scans : List ModuleScan} {params : ParamTable}
    {globals : GlobalOptions} :
    ofScans scans params = .ok globals ↔ Sets params (calls scans) globals := by
  rw [ofScans_eq]
  generalize calls scans = row
  constructor
  · intro set
    split at set
    · cases set
      exact .none
    · split at set
      · cases set
      · cases set
        exact .once ‹_›
      · cases set
  · intro set
    cases set with
    | none => rfl
    | once set => simp only [set]

theorem ofScans_eq_error_iff {scans : List ModuleScan} {params : ParamTable} {e : CompileError} :
    ofScans scans params = .error e ↔ FirstFailure params (calls scans) e := by
  rw [ofScans_eq]
  generalize calls scans = row
  constructor
  · intro failed
    split at failed
    · cases failed
    · split at failed
      · cases failed
        exact .failed ‹_›
      · cases failed
      · cases failed
        exact .twice ‹_›
  · intro failed
    cases failed with
    | failed failed => simp only [failed]
    | twice set => simp only [set]

end GlobalOptions

end DeployManifest
