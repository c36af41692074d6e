import DeployManifest.Proofs.Scope.Lookup
import DeployManifest.Proofs.Scope.Statement

/-! # Imported names

An imported name is looked up by the name alone: what it is imported from, and what it is called
there, does not count. Main statement: `Scope.evaluate_imported`. A name that is imported as another
one may so stand for the wrong parameter (`Scope.evaluate_imported_as`).
-/

namespace DeployManifest

open Outcome

/-! ### What imports say -/

/-- A name that an import binds. -/
structure ImportBinding where
  name : String
  /-- For a name of a module: the module and the name there. -/
  origin : Option (String × String)
  deriving DecidableEq

namespace SourceModule

variable {m : SourceModule}

/-- What a part of an import binds, if the names are those of a module. -/
def importedAs (m : SourceModule) (source : Option String) (n : Node) : List ImportBinding :=
  let from_ (name : String) : Option (String × String) := source.map fun source => (source, name)
  if n.role = .moduleName then []
  else
    match n.kind with
    | .aliasedImport =>
      (n.child? .alias).toList.map fun given =>
        ⟨m.nodeText given, from_ (m.partText .name n.children)⟩
    | .dottedName =>
      n.children.head?.toList.map fun first => ⟨m.nodeText first, from_ (m.nodeText n)⟩
    | _ => []

/-- What a statement binds by an import. -/
def importBindings (m : SourceModule) (n : Node) : List ImportBinding :=
  match n.kind with
  | .importStatement => n.children.flatMap (m.importedAs none)
  | .importFromStatement =>
    n.children.flatMap (m.importedAs ((n.child? .moduleName).map m.nodeText))
  | _ => []

/-- Some import of the module binds the name, in whatever function or class it stands. -/
def Imports (m : SourceModule) (tree : Node) (name : String) : Prop :=
  ∃ st, tree.Holds true st ∧ ∃ binding ∈ m.importBindings st, binding.name = name

/-- The names that are found in a part of an import are those it binds. -/
theorem importName_eq (source : Option String) (n : Node) :
    m.importName n = (m.importedAs source n).map fun binding => .importedName binding.name := by
  unfold importName importedAs
  dsimp only
  by_cases named : n.role = .moduleName
  · rw [if_pos named, if_pos named, List.map_nil]
  · rw [if_neg named, if_neg named]
    cases n.kind <;> simp [Function.comp_def]

theorem importName_of_importedAs {source : Option String} {n : Node} {binding : ImportBinding}
    (member : binding ∈ m.importedAs source n) : .importedName binding.name ∈ m.importName n := by
  rw [importName_eq source]
  exact List.mem_map_of_mem member

theorem mem_importedNames {n : Node} {binding : ImportBinding}
    (member : binding ∈ m.importBindings n) : binding.name ∈ m.importedNames n := by
  rw [importBindings] at member
  refine List.mem_filterMap.mpr ⟨.importedName binding.name, ?_, rfl⟩
  split at member
  · rename_i kind
    obtain ⟨part, inside, bound⟩ := List.mem_flatMap.mp member
    rw [kind]
    exact List.mem_flatMap.mpr ⟨part, inside, importName_of_importedAs bound⟩
  · rename_i kind
    obtain ⟨part, inside, bound⟩ := List.mem_flatMap.mp member
    rw [kind]
    exact List.mem_flatMap.mpr ⟨part, inside, importName_of_importedAs bound⟩
  · cases member

theorem Imports.mem_imports {tree : Node} {scan : ModuleScan} {name : String}
    (imports : m.Imports tree name) (read : Node.ofText? m.text = some tree)
    (searched : m.scan = .ok scan) : name ∈ scan.imports := by
  obtain ⟨st, held, binding, member, rfl⟩ := imports
  exact mem_imports_of_holds read searched held (mem_importedNames member)

/-- Does an import on the top of the module bind the name? -/
def importsOnTop (m : SourceModule) (tree : Node) (name : String) : Bool :=
  tree.kind.holdsStatements && tree.children.any fun st =>
    st.kind != .decorator && (m.importBindings st).any (·.name == name)

theorem imports_of_importsOnTop {tree : Node} {name : String}
    (onTop : m.importsOnTop tree name = true) : m.Imports tree name := by
  simp only [importsOnTop, Bool.and_eq_true, List.any_eq_true, bne_iff_ne, beq_iff_eq] at onTop
  obtain ⟨through, st, member, statement, binding, bound, same⟩ := onTop
  exact ⟨st, .inside (.inl through) member statement (.self st), binding, bound, same⟩

end SourceModule

/-! ### What imported names stand for -/

/-- The first declaration under a name is one under the name. -/
theorem mem_of_firstDeclared? {scans : List ModuleScan} {name : String} {d : Declaration}
    (first : firstDeclared? scans name = some d) :
    ∃ other ∈ scans, d ∈ other.declarations ∧ d.binding = some name := by
  obtain ⟨earlier, other, later, rfl, -, isFirst⟩ := firstDeclared?_eq_some_iff.mp first
  have under : d ∈ other.declaredAs name := List.mem_of_head? isFirst
  obtain ⟨present, bound⟩ := List.mem_filter.mp under
  exact ⟨other, List.mem_append_right _ (List.mem_cons_self ..), present, by simpa using bound⟩

/-- It stands in another module, if the module itself has none. -/
theorem exists_other_of_firstDeclared? {scans : List ModuleScan} (located : Located scans)
    {scan : ModuleScan} {name : String} {d : Declaration} (member : scan ∈ scans)
    (own : scan.Undeclared name) (first : firstDeclared? scans name = some d) :
    ∃ other ∈ scans, other.module ≠ scan.module ∧ d ∈ other.declarations := by
  obtain ⟨other, here, present, bound⟩ := mem_of_firstDeclared? first
  refine ⟨other, here, fun same => ?_, present⟩
  obtain rfl := List.inj_on_of_nodup_map located.distinct here member same
  exact own d present bound

namespace Scope

variable {modules : List SourceModule} {scans : List ModuleScan} {table : ParamTable}

/-- A name that a module imports and does not declare stands for the first parameter that another
module declares under this name, wherever it is imported from; if no module declares one it is
refused. Only the name kept for the default is the wish for it. -/
theorem evaluate_imported (searched : modules.mapM SourceModule.scan = .ok scans)
    (distinct : (modules.map (·.name)).Nodup) (declared : ParamTable.ofScans scans = .ok table)
    {m : SourceModule} (member : m ∈ modules) {tree : Node}
    (read : Node.ofText? m.text = some tree) {scan : ModuleScan} (found : m.scan = .ok scan)
    {name : String} (imports : m.Imports tree name) (own : scan.Undeclared name) {e : Expr}
    (named : e.form = .name name) :
    (∀ param, evaluate ⟨table, scan⟩ e = .ok (.param param) ↔
      name ≠ "RESET_VALUE" ∧ ∃ d, firstDeclared? scans name = some d ∧ d.Names param ∧
        ∃ other ∈ scans, other.module ≠ scan.module ∧ d ∈ other.declarations) ∧
    (name = "RESET_VALUE" → evaluate ⟨table, scan⟩ e = .ok .reset) ∧
    (name ≠ "RESET_VALUE" → firstDeclared? scans name = none →
      evaluate ⟨table, scan⟩ e = .error (e.unsupported (.localVariable name))) := by
  have located := SourceModule.located_of_scan searched distinct
  have scanned : scan ∈ scans := mem_of_mapM searched member found
  have imported := imports.mem_imports read found
  have refers := param_of_imported (e := e) located declared scanned own imported
  refine ⟨fun param => ?_, fun reset => evaluate_reset _ (reset ▸ named), fun other none => ?_⟩
  · rw [evaluate_eq_param_iff _ named, refers]
    refine and_congr_right fun _ => ?_
    cases first : firstDeclared? scans name with
    | none =>
      constructor
      · rintro ⟨_, same, -⟩
        cases same
      · rintro ⟨_, same, -⟩
        cases same
    | some d =>
      have elsewhere := exists_other_of_firstDeclared? located scanned own first
      constructor
      · rintro ⟨p, given, same⟩
        exact ⟨d, rfl, ⟨p, given, same⟩, elsewhere⟩
      · rintro ⟨_, same, names, -⟩
        obtain rfl := Option.some.inj same
        exact names
  · rw [none] at refers
    exact evaluate_eq_error _ named other refers

/-- A module that declares two parameters. -/
def sizes : SourceModule :=
  ⟨"sizes.py",
    ("small = params.defineInt(\"SMALL\")\n" ++ "large = params.defineInt(\"LARGE\")\n").toList⟩

/-- A module that imports one of them under the name of the other. -/
def renamed : SourceModule :=
  ⟨"main.py",
    ("from sizes import large as small\n" ++ "from platform import RESET_VALUE\n\n"
      ++ "@https.onRequest(\"api\", minInstances=small, maxInstances=RESET_VALUE)\n"
      ++ "def api(r): pass\n").toList⟩

set_option maxRecDepth 100000 in
theorem exists_scans_renamed :
    ∃ scans table scan tree d, [sizes, renamed].mapM SourceModule.scan = .ok scans ∧
      ParamTable.ofScans scans = .ok table ∧ renamed.scan = .ok scan ∧
      Node.ofText? renamed.text = some tree ∧ renamed.Imports tree "small" ∧
      renamed.Imports tree "RESET_VALUE" ∧ scan.Undeclared "small" ∧
      scan.Undeclared "RESET_VALUE" ∧ firstDeclared? scans "small" = some d ∧ d.Names "SMALL" ∧
      tree.subtrees.flatMap renamed.importBindings =
        [⟨"small", some ("sizes", "large")⟩,
          ⟨"RESET_VALUE", some ("platform", "RESET_VALUE")⟩] := by
  have first : SourceModule.firstNamed? [sizes, renamed] "small" = some "SMALL" := by
    decide +kernel
  have second : (renamed.scan.toOption.map fun scan => scan.declarations.map (·.binding)) =
      some [] := by
    decide +kernel
  have third : ((Node.ofText? renamed.text).map fun tree =>
      (tree.subtrees.flatMap renamed.importBindings,
        renamed.importsOnTop tree "small" && renamed.importsOnTop tree "RESET_VALUE")) =
      some ([⟨"small", some ("sizes", "large")⟩,
        ⟨"RESET_VALUE", some ("platform", "RESET_VALUE")⟩], true) := by
    decide +kernel
  obtain ⟨scans, table, d, searched, declared, isFirst, given⟩ :=
    SourceModule.exists_of_firstNamed? first
  obtain ⟨scan, found, bindings⟩ := exists_ok_of_toOption second
  have none : scan.declarations = [] := List.map_eq_nil_iff.mp bindings
  have undeclared (name : String) : scan.Undeclared name := by
    intro d member
    rw [none] at member
    cases member
  obtain ⟨tree, read, computed⟩ := Option.map_eq_some_iff.mp third
  obtain ⟨bindings, onTop⟩ := Prod.mk.inj computed
  obtain ⟨small, reset⟩ := Bool.and_eq_true_iff.mp onTop
  exact ⟨scans, table, scan, tree, d, searched, declared, found, read,
    SourceModule.imports_of_importsOnTop small, SourceModule.imports_of_importsOnTop reset,
    undeclared _, undeclared _, isFirst, given, bindings⟩

/-- Wherever it stands, the name is the parameter that is called so in the other module. -/
theorem evaluate_imported_small :
    ∃ scans table scan tree, [sizes, renamed].mapM SourceModule.scan = .ok scans ∧
      ([sizes, renamed].map (·.name)).Nodup ∧ ParamTable.ofScans scans = .ok table ∧
      renamed ∈ [sizes, renamed] ∧ Node.ofText? renamed.text = some tree ∧
      renamed.scan = .ok scan ∧ renamed.Imports tree "small" ∧ scan.Undeclared "small" ∧
      ∀ e : Expr, e.form = .name "small" →
        ∀ param, evaluate ⟨table, scan⟩ e = .ok (.param param) ↔ param = "SMALL" := by
  obtain ⟨scans, table, scan, tree, d, searched, declared, found, read, small, -, own, -, first,
    given, -⟩ := exists_scans_renamed
  have distinct : ([sizes, renamed].map (·.name)).Nodup := by decide
  have member : renamed ∈ [sizes, renamed] := by simp
  refine ⟨scans, table, scan, tree, searched, distinct, declared, member, read, found, small, own,
    fun e named param => ?_⟩
  have refers := (evaluate_imported searched distinct declared member read found small own named).1
  rw [refers param]
  constructor
  · rintro ⟨-, other, again, ⟨q, given', rfl⟩, -⟩
    obtain rfl := Option.some.inj (first.symm.trans again)
    obtain ⟨p, given, same⟩ := given
    obtain rfl := Except.ok.inj (given.symm.trans given')
    exact same
  · rintro rfl
    have located := SourceModule.located_of_scan searched distinct
    have scanned : scan ∈ scans := mem_of_mapM searched member found
    exact ⟨by decide, d, first, given, exists_other_of_firstDeclared? located scanned own first⟩

/-- The only import of the name says that it is the other parameter, and what is imported as the
wish for the default is accepted as it. -/
theorem evaluate_imported_as :
    ∃ scans table scan tree, [sizes, renamed].mapM SourceModule.scan = .ok scans ∧
      ParamTable.ofScans scans = .ok table ∧ renamed.scan = .ok scan ∧
      Node.ofText? renamed.text = some tree ∧
      (renamed.Imports tree "small" ∧ scan.Undeclared "small" ∧
        (∀ st ∈ tree.subtrees, ∀ binding ∈ renamed.importBindings st, binding.name = "small" →
          binding.origin = some ("sizes", "large")) ∧
        (∃ d : Declaration, firstDeclared? scans "small" = some d ∧ d.binding = some "small" ∧
          d.Names "SMALL") ∧
        ∀ e : Expr, e.form = .name "small" →
          evaluate ⟨table, scan⟩ e = .ok (.param "SMALL")) ∧
      renamed.Imports tree "RESET_VALUE" ∧ scan.Undeclared "RESET_VALUE" ∧
      ∀ e : Expr, e.form = .name "RESET_VALUE" → evaluate ⟨table, scan⟩ e = .ok .reset := by
  obtain ⟨scans, table, scan, tree, d, searched, declared, found, read, small, reset, own,
    ownReset, first, given, bindings⟩ := exists_scans_renamed
  have located := SourceModule.located_of_scan searched (by decide)
  have scanned : scan ∈ scans := mem_of_mapM searched (by simp) found
  have imported := small.mem_imports read found
  obtain ⟨-, -, -, bound⟩ := mem_of_firstDeclared? first
  refine ⟨scans, table, scan, tree, searched, declared, found, read,
    ⟨small, own, ?_, ⟨d, first, bound, given⟩, fun e named => ?_⟩, reset, ownReset,
    fun e named => ?_⟩
  · intro st member binding inside named
    have listed : binding ∈ tree.subtrees.flatMap renamed.importBindings :=
      List.mem_flatMap.mpr ⟨st, member, inside⟩
    rw [bindings, List.mem_cons, List.mem_singleton] at listed
    rcases listed with rfl | rfl
    · rfl
    · exact absurd named (by decide)
  · have refers := param_of_imported (e := e) located declared scanned own imported
    rw [first] at refers
    obtain ⟨p, given, same⟩ := given
    exact (evaluate_eq_param_iff _ named).mpr ⟨by decide, p, refers.trans given, same⟩
  · exact evaluate_reset _ named

end Scope

end DeployManifest
