import DeployManifest.Compile.Basic
import DeployManifest.Proofs.Entering

/-! # Declared parameters

Declarations enter the table one after the other under the names of their parameters
(`declare_steps`), so the names in a table are distinct.
-/

namespace DeployManifest

open Outcome

theorem Declaration.of_param {d : Declaration} {p : Param} (declared : d.param = .ok p) :
    p.kind = d.kind ∧ p.location = d.location := by
  simp only [Declaration.param, bind_eq_ok_iff, pure_eq_ok_iff] at declared
  obtain ⟨_, -, _, -, _, -, _, -, _, -, rfl⟩ := declared
  exact ⟨rfl, rfl⟩

theorem Declaration.of_defaultOf {d : Declaration} {name : String} {value : Option Expr}
    {default : Option Setting} (given : d.defaultOf name value = .ok default) :
    ∀ v ∈ default, ∃ l, v = .literal l ∧ d.kind.accepts l = true := by
  unfold defaultOf at given
  split at given
  · cases given
    simp
  · split at given
    · cases given
    · obtain ⟨l, -, given⟩ := bind_eq_ok_iff.mp given
      split at given
      · cases given
        rintro v ⟨⟩
        exact ⟨l, rfl, ‹_›⟩
      · cases given

theorem Declaration.default_of_param {d : Declaration} {p : Param} (declared : d.param = .ok p) :
    ∀ v ∈ p.default, ∃ l, v = .literal l ∧ d.kind.accepts l = true := by
  simp only [Declaration.param, bind_eq_ok_iff, pure_eq_ok_iff] at declared
  obtain ⟨_, -, _, -, default, given, _, -, _, -, rfl⟩ := declared
  exact of_defaultOf given

/-- What a declaration gives on its own. -/
def Declaration.entry (d : Declaration) : Except CompileError ParamEntry :=
  d.param.map fun p => ⟨p, d.binding, d.offset⟩

namespace ParamTable

/-- Declarations are entered under the names of their parameters. -/
def entering : Entering CompileError Declaration ParamEntry where
  entry := Declaration.entry
  key entry := entry.param.name
  clash first second name := .duplicateParam name first.location second.location

theorem of_entry {d : Declaration} {entry : ParamEntry} (given : entering.entry d = .ok entry) :
    d.param = .ok entry.param ∧ entry.binding = d.binding ∧ entry.offset = d.offset ∧
      entry.param.location = d.location := by
  obtain ⟨p, declared, rfl⟩ := map_eq_ok_iff.mp given
  exact ⟨declared, rfl, rfl, (Declaration.of_param declared).2⟩

theorem declare_of_failed {t : ParamTable} {d : Declaration} {e : CompileError}
    (failed : d.param = .error e) : t.declare d = .error e := by
  simp only [declare, failed, bind, Except.bind]

theorem declare_of_taken {t : ParamTable} {d : Declaration} {p : Param} {holder : ParamEntry}
    (declared : d.param = .ok p) (found : t.holder? p.name = some holder) :
    t.declare d = .error (.duplicateParam p.name holder.param.location d.location) := by
  simp only [declare, declared, bind, Except.bind]
  split
  · rename_i other again
    cases found.symm.trans again
    rfl
  · rename_i none
    cases found.symm.trans none

theorem declare_of_free {t : ParamTable} {d : Declaration} {p : Param}
    (declared : d.param = .ok p) (free : t.holder? p.name = none) :
    t.declare d = .ok (t.push ⟨p, d.binding, d.offset⟩ free) := by
  simp only [declare, declared, bind, Except.bind]
  split
  · rename_i found
    cases found.symm.trans free
  · rfl

theorem declare_steps : entering.Steps (fun _ => True) declare entries where
  failed := by
    intro t d e failed
    change d.entry = .error e at failed
    rw [Declaration.entry] at failed
    cases declared : d.param with
    | error cause =>
      rw [declared] at failed
      cases failed
      exact declare_of_failed declared
    | ok p =>
      rw [declared] at failed
      cases failed
  taken := by
    intro t d entry first taker _ given found taken
    obtain ⟨p, declared, rfl⟩ := map_eq_ok_iff.mp given
    obtain ⟨q, declaredFirst, rfl⟩ := map_eq_ok_iff.mp taken
    change t.entries.find? (·.param.name == p.name) = _ at found
    rw [← holder?_eq_find?] at found
    rw [declare_of_taken declared found, (Declaration.of_param declaredFirst).2]
    rfl
  free := by
    intro t d entry _ given found
    obtain ⟨p, declared, rfl⟩ := map_eq_ok_iff.mp given
    change t.entries.find? (·.param.name == p.name) = none at found
    rw [← holder?_eq_find?] at found
    exact ⟨_, declare_of_free declared found, rfl, trivial⟩

/-- The table of modules holds what each declaration gives, in order. -/
theorem ofScans_eq_ok_iff {scans : List ModuleScan} {table : ParamTable} :
    ofScans scans = .ok table ↔
      entering.Enters (scans.flatMap ModuleScan.declarations) table.entries := by
  constructor
  · exact fun declared => (declare_steps.enters rfl trivial declared).1
  · intro entered
    have initial : empty.entries = [] := rfl
    obtain ⟨last, reached, same, -⟩ := declare_steps.foldlM_eq_ok initial trivial entered
    rw [ofScans, reached, eq_of_entries same]

theorem ofScans_eq_error_iff {scans : List ModuleScan} {e : CompileError} :
    ofScans scans = .error e ↔
      entering.FirstRefusal (scans.flatMap ModuleScan.declarations) e :=
  declare_steps.foldlM_eq_error_iff rfl trivial

end ParamTable

end DeployManifest
