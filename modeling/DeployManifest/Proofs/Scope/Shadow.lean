import DeployManifest.Proofs.Scope.Lookup
import DeployManifest.Proofs.Scope.Statement

/-! # Assigned names

A name that the module assigns should stand for no parameter behind the assignment. It does so all
the same if the module declares a parameter under the name anywhere in front of the use, or imports
the name: `Scope.evaluate_assigned` says when exactly.
-/

namespace DeployManifest

open Outcome

/-! ### Assignments -/

namespace SourceModule

/-- Does the value of an assignment declare a parameter? -/
def declares (m : SourceModule) (value : Node) : Bool :=
  value.kind == .call && ((m.recorded? value none).bind (·.declaration?)).isSome

/-- The node assigns a value to a name that is no parameter declared there. -/
structure Assigns (m : SourceModule) (name : String) (n : Node) : Prop where
  kind : n.kind = .assignment ∨ n.kind = .augmentedAssignment
  target : name ∈ m.localNames n
  value : ∃ value, n.child? .right = some value ∧ m.declares value = false

/-- Of the statements on the level of the module that bind a name in front of a place, the last one
assigns it a value. -/
def LastAssigned (m : SourceModule) (tree : Node) (name : String) (offset : Nat) : Prop :=
  ∃ n, tree.Holds false n ∧ m.Assigns name n ∧ n.stop ≤ offset ∧
    ∀ later, tree.Holds false later → n.stop ≤ later.start → later.start < offset →
      name ∉ m.localNames later ∧ name ∉ m.importedNames later

theorem LastAssigned.mem_locals {m : SourceModule} {tree : Node} {name : String} {offset : Nat}
    {scan : ModuleScan} (assigned : m.LastAssigned tree name offset)
    (read : Node.ofText? m.text = some tree) (searched : m.scan = .ok scan) :
    name ∈ scan.locals := by
  obtain ⟨n, held, assigns, -⟩ := assigned
  exact mem_locals_of_holds read searched held assigns.target

/-- Is the last of them an assignment on the top of the module? -/
def assignsOnTop (m : SourceModule) (tree : Node) (name : String) (offset : Nat) : Bool :=
  tree.kind.holdsStatements && tree.children.any fun st =>
    st.kind.holdsStatements && st.children.any fun n =>
      n.kind == .assignment && (m.localNames n).contains name
        && (n.child? .right).any (!m.declares ·) && decide (n.stop ≤ offset)
        && tree.subtrees.all fun later =>
          decide (later.start < n.stop) || decide (offset ≤ later.start)
            || !(m.localNames later).contains name && !(m.importedNames later).contains name

theorem lastAssigned_of_assignsOnTop {m : SourceModule} {tree : Node} {name : String}
    {offset : Nat} (onTop : m.assignsOnTop tree name offset = true) :
    m.LastAssigned tree name offset := by
  simp only [assignsOnTop, Bool.and_eq_true, List.any_eq_true, beq_iff_eq, decide_eq_true_eq,
    List.all_eq_true, Bool.or_eq_true, Bool.not_eq_true', List.contains_iff_mem,
    Option.any_eq_true] at onTop
  obtain ⟨through, st, member, inner, n, inside, ⟨⟨⟨assigns, target⟩, value⟩, before⟩, last⟩ := onTop
  have statement (part : Node) (open_ : part.kind.holdsStatements = true) :
      part.kind ≠ .decorator := by
    intro same
    rw [same] at open_
    cases open_
  have held : tree.Holds false n := by
    refine .inside (.inl through) member (statement st inner) ?_
    refine .inside (.inl inner) inside ?_ (.self n)
    rw [assigns]
    decide
  refine ⟨n, held, ⟨.inl assigns, target, value⟩, before, fun later holds behind front => ?_⟩
  rcases last later holds.mem_subtrees with (early | late) | free
  · exact absurd early (by omega)
  · exact absurd late (by omega)
  · simpa using free

end SourceModule

/-! ### What assigned names stand for -/

/-- The declaration that a name still refers to although the module assigns it. -/
inductive Outlives (scans : List ModuleScan) (scan : ModuleScan) (name : String) (offset : Nat) :
    Declaration → Prop where
  /-- The module declares a parameter under the name in front of the use. -/
  | own {d : Declaration} (last : scan.lastDeclared? name offset = some d) :
      Outlives scans scan name offset d
  /-- The module imports the name, and another one declares a parameter under it. -/
  | imported {d : Declaration} (own : scan.Undeclared name) (imported : name ∈ scan.imports)
      (first : firstDeclared? scans name = some d) : Outlives scans scan name offset d

namespace Scope

variable {modules : List SourceModule} {scans : List ModuleScan} {table : ParamTable}
  {scan : ModuleScan} {name : String} {e : Expr}

theorem param_of_outlives (located : Located scans) (declared : ParamTable.ofScans scans = .ok table)
    (member : scan ∈ scans) {d : Declaration} (outlives : Outlives scans scan name e.offset d) :
    Scope.param ⟨table, scan⟩ name e = d.param := by
  cases outlives with
  | own last => exact param_of_lastDeclared located declared member last
  | imported own imported first =>
    rw [param_of_imported located declared member own imported, first]

theorem param_of_not_outlives (located : Located scans)
    (declared : ParamTable.ofScans scans = .ok table) (member : scan ∈ scans)
    (bound : name ∈ scan.locals) (none : ∀ d, ¬ Outlives scans scan name e.offset d) :
    ∃ fault, Scope.param ⟨table, scan⟩ name e = .error fault := by
  have noLast : scan.lastDeclared? name e.offset = Option.none :=
    Option.eq_none_iff_forall_ne_some.mpr fun d last => none d (.own last)
  by_cases own : scan.Undeclared name
  · by_cases imported : name ∈ scan.imports
    · have noFirst : firstDeclared? scans name = Option.none :=
        Option.eq_none_iff_forall_ne_some.mpr fun d first => none d (.imported own imported first)
      rw [param_of_imported located declared member own imported, noFirst]
      exact ⟨_, rfl⟩
    · obtain ⟨fault, refused⟩ := param_of_local located declared member own imported bound (e := e)
      exact ⟨_, refused⟩
  · exact ⟨_, param_of_declaredLater located declared member noLast own⟩

/-- Behind its assignment a name stands for a parameter exactly if a declaration under it outlives
the assignment, and then for the one declared there. Otherwise it is refused, unless it is the name
kept for the default. -/
theorem evaluate_assigned (searched : modules.mapM SourceModule.scan = .ok scans)
    (distinct : (modules.map (·.name)).Nodup) (declared : ParamTable.ofScans scans = .ok table)
    {m : SourceModule} (member : m ∈ modules) {tree : Node}
    (read : Node.ofText? m.text = some tree) (found : m.scan = .ok scan)
    (named : e.form = .name name) (assigned : m.LastAssigned tree name e.offset) :
    (∀ param, evaluate ⟨table, scan⟩ e = .ok (.param param) ↔
      name ≠ "RESET_VALUE" ∧ ∃ d, Outlives scans scan name e.offset d ∧ d.Names param) ∧
    (name = "RESET_VALUE" → evaluate ⟨table, scan⟩ e = .ok .reset) ∧
    (name ≠ "RESET_VALUE" → (∀ d, ¬ Outlives scans scan name e.offset d) →
      ∃ fault, evaluate ⟨table, scan⟩ e = .error fault) := by
  have located := SourceModule.located_of_scan searched distinct
  have scanned : scan ∈ scans := mem_of_mapM searched member found
  have bound := assigned.mem_locals read found
  refine ⟨fun param => ?_, fun reset => evaluate_reset _ (reset ▸ named), fun other none => ?_⟩
  · rw [evaluate_eq_param_iff _ named]
    refine and_congr_right fun _ => ⟨?_, ?_⟩
    · rintro ⟨p, refers, same⟩
      have some : ∃ d, Outlives scans scan name e.offset d := by
        by_contra none
        obtain ⟨fault, refused⟩ := param_of_not_outlives (e := e) located declared scanned bound
          (not_exists.mp none)
        cases refers.symm.trans refused
      obtain ⟨d, outlives⟩ := some
      rw [param_of_outlives located declared scanned outlives] at refers
      exact ⟨d, outlives, p, refers, same⟩
    · rintro ⟨d, outlives, p, given, same⟩
      exact ⟨p, (param_of_outlives located declared scanned outlives).trans given, same⟩
  · obtain ⟨fault, refused⟩ := param_of_not_outlives (e := e) located declared scanned bound none
    exact ⟨fault, evaluate_eq_error _ named other refused⟩

/-- A module that declares a parameter. -/
def counts : SourceModule := ⟨"counts.py", "count = params.defineInt(\"COUNT\")\n".toList⟩

/-- A module that imports the parameter and then gives its name to a number. -/
def recounted : SourceModule :=
  ⟨"main.py",
    ("from counts import count\n" ++ "count = 3\n\n"
      ++ "@https.onRequest(\"api\", minInstances=count)\n" ++ "def api(r): pass\n").toList⟩

/-- Does the module give an option by a name that stands at an offset? -/
def asksFor (scan : ModuleScan) (option name : String) (offset : Nat) : Bool :=
  scan.registrations.any fun r => r.args.any fun
    | .keyword keyword value _ =>
      keyword == option && value.name? == some name && value.offset == offset
    | _ => false

theorem exists_use_of_asksFor {option : String} {offset : Nat}
    (asks : asksFor scan option name offset = true) :
    ∃ r ∈ scan.registrations, ∃ (e : Expr) (place : Location),
      .keyword option e place ∈ r.args ∧ e.form = .name name ∧ e.offset = offset := by
  simp only [asksFor, List.any_eq_true] at asks
  obtain ⟨r, member, arg, inside, asks⟩ := asks
  cases arg with
  | positional => cases asks
  | splat => cases asks
  | keyword keyword e place =>
    simp only [Bool.and_eq_true, beq_iff_eq] at asks
    obtain ⟨⟨rfl, named⟩, at_⟩ := asks
    refine ⟨r, member, e, place, inside, ?_, at_⟩
    rw [Expr.name?] at named
    split at named
    · rename_i form
      rw [form, Option.some.inj named]
    · cases named

set_option maxRecDepth 100000 in
/-- The registration asks for the parameter, not for three instances. -/
theorem evaluate_assigned_count :
    ∃ (scans : List ModuleScan) (table : ParamTable) (scan : ModuleScan) (tree : Node)
      (r : Registration) (e : Expr) (place : Location),
      [counts, recounted].mapM SourceModule.scan = .ok scans ∧
      ([counts, recounted].map (·.name)).Nodup ∧ ParamTable.ofScans scans = .ok table ∧
      recounted ∈ [counts, recounted] ∧ Node.ofText? recounted.text = some tree ∧
      recounted.scan = .ok scan ∧ r ∈ scan.registrations ∧
      .keyword "minInstances" e place ∈ r.args ∧ e.form = .name "count" ∧
      recounted.LastAssigned tree "count" e.offset ∧
      evaluate ⟨table, scan⟩ e = .ok (.param "COUNT") := by
  have first : SourceModule.firstNamed? [counts, recounted] "count" = some "COUNT" := by
    decide +kernel
  have second : (recounted.scan.toOption.map fun scan =>
      (scan.declarations.map (·.binding), scan.imports,
        asksFor scan "minInstances" "count" 73)) = some ([], ["count"], true) := by
    decide +kernel
  have third : ((Node.ofText? recounted.text).map fun tree =>
      recounted.assignsOnTop tree "count" 73) = some true := by
    decide +kernel
  obtain ⟨scans, table, d, searched, declared, isFirst, given⟩ :=
    SourceModule.exists_of_firstNamed? first
  obtain ⟨scan, found, computed⟩ := exists_ok_of_toOption second
  obtain ⟨bindings, computed⟩ := Prod.mk.inj computed
  obtain ⟨imports, asks⟩ := Prod.mk.inj computed
  obtain ⟨r, registered, e, place, inside, form, at_⟩ := exists_use_of_asksFor asks
  obtain ⟨tree, read, onTop⟩ := Option.map_eq_some_iff.mp third
  have assigned : recounted.LastAssigned tree "count" e.offset := by
    rw [at_]
    exact SourceModule.lastAssigned_of_assignsOnTop onTop
  have distinct : ([counts, recounted].map (·.name)).Nodup := by decide
  have member : recounted ∈ [counts, recounted] := by simp
  have own : scan.Undeclared "count" := by
    intro d declares
    rw [List.map_eq_nil_iff.mp bindings] at declares
    cases declares
  have imported : "count" ∈ scan.imports := by simp [imports]
  have outlives : Outlives scans scan "count" e.offset d := .imported own imported isFirst
  have stands := (evaluate_assigned searched distinct declared member read found form assigned).1
  exact ⟨scans, table, scan, tree, r, e, place, searched, distinct, declared, member, read, found,
    registered, inside, form, assigned,
    (stands "COUNT").mpr ⟨by decide, d, outlives, given⟩⟩

end Scope

end DeployManifest
