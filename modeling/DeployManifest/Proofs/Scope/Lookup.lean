import DeployManifest.Proofs.Param.Declare
import DeployManifest.Proofs.Scan

/-! # What names refer to

The table holds the parameters of all modules in one row. What a name refers to is said here by the
declarations as they stand in the modules (`Resolves`): the last one before the use in the module
itself, or, if it has none under the name, the first one in the whole tree. Main statements:
`lookup_resolves`, and for names as expressions `Scope.param_of_lastDeclared`,
`Scope.param_of_declaredLater`, `Scope.param_of_imported` and `Scope.param_of_local`.
-/

namespace DeployManifest

open Outcome

/-! ### Rows that agree -/

theorem rel_filter {α β : Type} {R : α → β → Prop} {keep : α → Bool} {keep' : β → Bool}
    {xs : List α} {ys : List β} (agree : List.Forall₂ R xs ys)
    (same : ∀ x y, R x y → keep x = keep' y) :
    List.Forall₂ R (xs.filter keep) (ys.filter keep') := by
  refine List.rel_filter (fun x y related => ?_) agree
  dsimp only
  rw [same x y related]

theorem rel_head? {α β : Type} {R : α → β → Prop} {xs : List α} {ys : List β}
    (agree : List.Forall₂ R xs ys) : Option.Rel R xs.head? ys.head? := by
  cases agree with
  | nil => exact .none
  | cons first _ => exact .some first

theorem rel_getLast? {α β : Type} {R : α → β → Prop} {xs : List α} {ys : List β}
    (agree : List.Forall₂ R xs ys) : Option.Rel R xs.getLast? ys.getLast? := by
  rw [List.getLast?_eq_head?_reverse, List.getLast?_eq_head?_reverse]
  exact rel_head? (List.rel_reverse agree)

theorem rel_cases {α β : Type} {R : α → β → Prop} {x : Option α} {y : Option β}
    (agree : Option.Rel R x y) :
    (x = none ∧ y = none) ∨ ∃ a b, x = some a ∧ y = some b ∧ R a b := by
  cases agree with
  | none => exact .inl ⟨rfl, rfl⟩
  | some related => exact .inr ⟨_, _, rfl, rfl, related⟩

/-! ### Declarations under a name -/

/-- The declaration gives a parameter of this name. -/
def Declaration.Names (d : Declaration) (name : String) : Prop :=
  ∃ p, d.param = .ok p ∧ p.name = name

namespace ModuleScan

/-- The declarations of the module under a name. -/
def declaredAs (s : ModuleScan) (name : String) : List Declaration :=
  s.declarations.filter (·.binding == some name)

/-- The last of them in front of a place. -/
def lastDeclared? (s : ModuleScan) (name : String) (offset : Nat) : Option Declaration :=
  ((s.declaredAs name).filter (·.offset < offset)).getLast?

/-- The module declares no parameter under the name. -/
def Undeclared (s : ModuleScan) (name : String) : Prop :=
  ∀ d ∈ s.declarations, d.binding ≠ some name

theorem declaredAs_eq_nil_iff {s : ModuleScan} {name : String} :
    s.declaredAs name = [] ↔ s.Undeclared name := by
  rw [declaredAs, List.filter_eq_nil_iff]
  simp only [beq_iff_eq, Undeclared, ne_eq]

theorem Undeclared.lastDeclared?_eq_none {s : ModuleScan} {name : String}
    (undeclared : s.Undeclared name) (offset : Nat) : s.lastDeclared? name offset = none := by
  rw [lastDeclared?, declaredAs_eq_nil_iff.mpr undeclared]
  rfl

end ModuleScan

/-- The first declaration under a name in a row of modules. -/
def firstDeclared? (scans : List ModuleScan) (name : String) : Option Declaration :=
  (scans.flatMap (·.declaredAs name)).head?

/-- The first declaration is one of some module, and no module in front of it has any. -/
theorem firstDeclared?_eq_some_iff {scans : List ModuleScan} {name : String} {d : Declaration} :
    firstDeclared? scans name = some d ↔
      ∃ earlier other later, scans = earlier ++ other :: later ∧
        (∀ scan ∈ earlier, scan.Undeclared name) ∧ (other.declaredAs name).head? = some d := by
  rw [firstDeclared?]
  induction scans with
  | nil =>
    constructor
    · intro found
      cases found
    · rintro ⟨earlier, _, _, split, -⟩
      cases earlier <;> cases split
  | cons scan scans ih =>
    rw [List.flatMap_cons]
    cases own : scan.declaredAs name with
    | nil =>
      rw [List.nil_append, ih]
      constructor
      · rintro ⟨earlier, other, later, rfl, before, first⟩
        refine ⟨scan :: earlier, other, later, rfl, ?_, first⟩
        exact List.forall_mem_cons.mpr ⟨ModuleScan.declaredAs_eq_nil_iff.mp own, before⟩
      · rintro ⟨earlier, other, later, split, before, first⟩
        cases earlier with
        | nil =>
          obtain ⟨rfl, -⟩ := List.cons.inj split
          rw [own] at first
          cases first
        | cons _ earlier =>
          obtain ⟨-, rfl⟩ := List.cons.inj split
          exact ⟨earlier, other, later, rfl, (List.forall_mem_cons.mp before).2, first⟩
    | cons first rest =>
      rw [List.cons_append, List.head?_cons]
      constructor
      · rintro ⟨rfl⟩
        refine ⟨[], scan, scans, rfl, by simp, ?_⟩
        rw [own]
        rfl
      · rintro ⟨earlier, other, later, split, before, found⟩
        cases earlier with
        | nil =>
          obtain ⟨rfl, -⟩ := List.cons.inj split
          rw [own] at found
          exact found
        | cons _ earlier =>
          obtain ⟨rfl, -⟩ := List.cons.inj split
          have undeclared := (List.forall_mem_cons.mp before).1
          rw [ModuleScan.declaredAs_eq_nil_iff.mpr undeclared] at own
          cases own

/-! ### Modules of a tree -/

/-- The modules have names of their own, and each declaration stands in its module. -/
structure Located (scans : List ModuleScan) : Prop where
  distinct : (scans.map (·.module)).Nodup
  stands : ∀ scan ∈ scans, ∀ d ∈ scan.declarations, d.location.file = scan.module

/-- Of the declarations of all modules, those with a place in one module are its own. -/
theorem Located.filter_file {scans : List ModuleScan} (located : Located scans)
    {scan : ModuleScan} (member : scan ∈ scans) :
    (scans.flatMap ModuleScan.declarations).filter (·.location.file == scan.module) =
      scan.declarations := by
  obtain ⟨earlier, later, rfl⟩ := List.append_of_mem member
  have elsewhere (others : List ModuleScan)
      (apart : ∀ other ∈ others, other ∈ earlier ++ scan :: later ∧ other.module ≠ scan.module) :
      (others.flatMap ModuleScan.declarations).filter (·.location.file == scan.module) = [] := by
    rw [List.filter_eq_nil_iff]
    intro d found
    obtain ⟨other, inside, found⟩ := List.mem_flatMap.mp found
    obtain ⟨present, differs⟩ := apart other inside
    rw [located.stands other present d found, beq_iff_eq]
    exact differs
  have distinct := located.distinct
  rw [List.map_append, List.map_cons, List.nodup_append, List.nodup_cons] at distinct
  obtain ⟨-, ⟨fresh, -⟩, apart⟩ := distinct
  rw [List.flatMap_append, List.flatMap_cons, List.filter_append, List.filter_append,
    elsewhere earlier, elsewhere later, List.nil_append, List.append_nil, List.filter_eq_self]
  · intro d found
    rw [located.stands scan member d found, beq_self_eq_true]
  · intro other inside
    refine ⟨List.mem_append_right _ (List.mem_cons_of_mem _ inside), fun same => ?_⟩
    exact fresh (List.mem_map.mpr ⟨other, inside, same⟩)
  · intro other inside
    refine ⟨List.mem_append_left _ inside, fun same => ?_⟩
    exact apart _ (List.mem_map_of_mem inside) _ (List.mem_cons_self ..) same

namespace SourceModule

/-- The name of the first parameter that the modules declare under a name, if they declare them all
properly. -/
def firstNamed? (modules : List SourceModule) (name : String) : Option String := do
  let scans ← (modules.mapM SourceModule.scan).toOption
  let _ ← (ParamTable.ofScans scans).toOption
  let d ← firstDeclared? scans name
  let p ← d.param.toOption
  return p.name

theorem exists_of_firstNamed? {modules : List SourceModule} {name param : String}
    (first : firstNamed? modules name = some param) :
    ∃ scans table d, modules.mapM SourceModule.scan = .ok scans ∧
      ParamTable.ofScans scans = .ok table ∧ firstDeclared? scans name = some d ∧
      d.Names param := by
  simp only [firstNamed?, Option.bind_eq_bind, Option.bind_eq_some_iff, Option.pure_def,
    Option.some.injEq] at first
  obtain ⟨scans, searched, table, declared, d, isFirst, p, given, same⟩ := first
  exact ⟨scans, table, d, eq_ok_of_toOption searched, eq_ok_of_toOption declared, isFirst, p,
    eq_ok_of_toOption given, same⟩

theorem located_of_scan {modules : List SourceModule} {scans : List ModuleScan}
    (searched : modules.mapM SourceModule.scan = .ok scans)
    (distinct : (modules.map (·.name)).Nodup) : Located scans := by
  have each := mapM_eq_ok_iff.mp searched
  refine ⟨?_, ?_⟩
  · convert distinct using 1
    clear searched distinct
    induction each with
    | nil => rfl
    | cons first _ ih => rw [List.map_cons, List.map_cons, module_of_scan first, ih]
  · intro scan member d declared
    obtain ⟨m, -, read⟩ := exists_of_mem_of_mapM searched member
    rw [module_of_scan read]
    exact file_of_scan? (scan_eq_ok_iff.mp read) declared

end SourceModule

/-! ### Looking names up -/

/-- What a name refers to where it is used in a module of the tree. -/
inductive Resolves (scans : List ModuleScan) (scan : ModuleScan) (name : String) (offset : Nat) :
    ParamLookup → Prop where
  | found {d : Declaration} {p : Param} (last : scan.lastDeclared? name offset = some d)
      (declared : d.param = .ok p) : Resolves scans scan name offset (.found p)
  | declaredLater {d : Declaration} {p : Param} (none : scan.lastDeclared? name offset = none)
      (first : (scan.declaredAs name).head? = some d) (declared : d.param = .ok p) :
      Resolves scans scan name offset (.declaredLater p)
  | otherModule {d : Declaration} {p : Param} (own : scan.Undeclared name)
      (first : firstDeclared? scans name = some d) (declared : d.param = .ok p) :
      Resolves scans scan name offset (.otherModule p)
  | notFound (own : scan.Undeclared name) (none : firstDeclared? scans name = none) :
      Resolves scans scan name offset .notFound

section

variable {scans : List ModuleScan} {table : ParamTable} {scan : ModuleScan}

/-- The entries under a name are those of the declarations under it. -/
theorem ParamTable.rel_declaredAs (declared : ParamTable.ofScans scans = .ok table)
    (name : String) :
    List.Forall₂ (fun d entry => entering.entry d = .ok entry) (scans.flatMap (·.declaredAs name))
      (table.entries.filter (·.binding == some name)) := by
  have split : scans.flatMap (·.declaredAs name) =
      (scans.flatMap ModuleScan.declarations).filter (·.binding == some name) := by
    rw [List.filter_flatMap]
    rfl
  rw [split]
  refine rel_filter (ofScans_eq_ok_iff.mp declared).each fun d entry given => ?_
  rw [(of_entry given).2.1]

/-- Of these, the entries with a place in a module are those of its own declarations. -/
theorem ParamTable.rel_declaredAs_own (located : Located scans)
    (declared : ParamTable.ofScans scans = .ok table) (member : scan ∈ scans) (name : String) :
    List.Forall₂ (fun d entry => entering.entry d = .ok entry) (scan.declaredAs name)
      ((table.entries.filter (·.binding == some name)).filter
        (·.param.location.file == scan.module)) := by
  rw [ModuleScan.declaredAs, ← located.filter_file member, List.filter_filter, List.filter_filter]
  refine rel_filter (ofScans_eq_ok_iff.mp declared).each fun d entry given => ?_
  rw [(of_entry given).2.1, (of_entry given).2.2.2, Bool.and_comm]

/-- A look-up in the table finds what the declarations of the modules say. -/
theorem ParamTable.lookup_resolves (located : Located scans)
    (declared : ParamTable.ofScans scans = .ok table) (member : scan ∈ scans) (name : String)
    (offset : Nat) : Resolves scans scan name offset (table.lookup name scan.module offset) := by
  have bound := rel_declaredAs declared name
  have here := rel_declaredAs_own located declared member name
  have before : List.Forall₂ (fun d entry => entering.entry d = .ok entry)
      ((scan.declaredAs name).filter (·.offset < offset))
      (((table.entries.filter (·.binding == some name)).filter
        (·.param.location.file == scan.module)).filter (·.offset < offset)) := by
    refine rel_filter here fun d entry given => ?_
    rw [(of_entry given).2.2.1]
  rcases rel_cases (rel_getLast? before) with ⟨noLast, missing⟩ | ⟨d, entry, isLast, found, given⟩
  · rcases rel_cases (rel_head? here) with ⟨noNext, absent⟩ | ⟨d, entry, isNext, found, given⟩
    · have own := ModuleScan.declaredAs_eq_nil_iff.mp (List.head?_eq_none_iff.mp noNext)
      rcases rel_cases (rel_head? bound) with ⟨noFirst, nowhere⟩ | ⟨d, entry, isFirst, found, given⟩
      · simp only [lookup, boundTo_eq_filter, missing, absent, nowhere]
        exact .notFound own noFirst
      · simp only [lookup, boundTo_eq_filter, missing, absent, found]
        exact .otherModule own isFirst (of_entry given).1
    · simp only [lookup, boundTo_eq_filter, missing, found]
      exact .declaredLater noLast isNext (of_entry given).1
  · simp only [lookup, boundTo_eq_filter, found]
    exact .found isLast (of_entry given).1

end

/-! ### Names as expressions -/

namespace Scope

variable {scans : List ModuleScan} {table : ParamTable} {scan : ModuleScan} {name : String}
  {e : Expr}

/-- A name refers to the last parameter that the module declares under it in front of the use. -/
theorem param_of_lastDeclared (located : Located scans)
    (declared : ParamTable.ofScans scans = .ok table) (member : scan ∈ scans) {d : Declaration}
    (last : scan.lastDeclared? name e.offset = some d) :
    Scope.param ⟨table, scan⟩ name e = d.param := by
  have resolves := table.lookup_resolves located declared member name e.offset
  generalize result : table.lookup name scan.module e.offset = target at resolves
  cases resolves with
  | found again given =>
    obtain rfl := Option.some.inj (last.symm.trans again)
    simp only [Scope.param, result, given]
  | declaredLater none => cases last.symm.trans none
  | otherModule own => cases last.symm.trans (own.lastDeclared?_eq_none _)
  | notFound own => cases last.symm.trans (own.lastDeclared?_eq_none _)

/-- A name that the module declares only behind the use refers to nothing. -/
theorem param_of_declaredLater (located : Located scans)
    (declared : ParamTable.ofScans scans = .ok table) (member : scan ∈ scans)
    (none : scan.lastDeclared? name e.offset = none) (later : ¬ scan.Undeclared name) :
    Scope.param ⟨table, scan⟩ name e = .error (.unknownParam e.location name) := by
  have resolves := table.lookup_resolves located declared member name e.offset
  generalize result : table.lookup name scan.module e.offset = target at resolves
  cases resolves with
  | found last => cases none.symm.trans last
  | declaredLater => simp only [Scope.param, result]
  | otherModule own => exact absurd own later
  | notFound own => exact absurd own later

/-- A look-up of a name that the module does not declare gives the first parameter of the tree under
it. -/
theorem lookup_of_undeclared (located : Located scans)
    (declared : ParamTable.ofScans scans = .ok table) (member : scan ∈ scans)
    (own : scan.Undeclared name) (offset : Nat) :
    (∃ d p, firstDeclared? scans name = some d ∧ d.param = .ok p ∧
      table.lookup name scan.module offset = .otherModule p) ∨
    (firstDeclared? scans name = none ∧ table.lookup name scan.module offset = .notFound) := by
  have resolves := table.lookup_resolves located declared member name offset
  generalize table.lookup name scan.module offset = target at resolves
  cases resolves with
  | found last => cases (own.lastDeclared?_eq_none _).symm.trans last
  | declaredLater _ first =>
    rw [ModuleScan.declaredAs_eq_nil_iff.mpr own] at first
    cases first
  | otherModule _ first given => exact .inl ⟨_, _, first, given, rfl⟩
  | notFound _ none => exact .inr ⟨none, rfl⟩

/-- An imported name that the module does not declare refers to the first parameter of the tree
under it. -/
theorem param_of_imported (located : Located scans)
    (declared : ParamTable.ofScans scans = .ok table) (member : scan ∈ scans)
    (own : scan.Undeclared name) (imported : name ∈ scan.imports) :
    Scope.param ⟨table, scan⟩ name e =
      match firstDeclared? scans name with
      | some d => d.param
      | none => .error (e.unsupported (.localVariable name)) := by
  have known : scan.imports.contains name = true := List.contains_iff_mem.mpr imported
  rcases lookup_of_undeclared located declared member own e.offset with
    ⟨d, p, first, given, result⟩ | ⟨none, result⟩
  · simp only [Scope.param, result, known, Bool.true_or, if_true, first, given]
  · simp only [Scope.param, result, known, Bool.or_true, if_true, none]

/-- A name that the module binds, and neither declares nor imports, refers to nothing. -/
theorem param_of_local (located : Located scans)
    (declared : ParamTable.ofScans scans = .ok table) (member : scan ∈ scans)
    (own : scan.Undeclared name) (foreign : name ∉ scan.imports) (bound : name ∈ scan.locals) :
    ∃ fault, Scope.param ⟨table, scan⟩ name e = .error (e.unsupported fault) := by
  rcases lookup_of_undeclared located declared member own e.offset with
    ⟨d, p, first, given, result⟩ | ⟨none, result⟩
  · exact ⟨.shadowed name p.name, by simp [Scope.param, result, foreign, bound]⟩
  · exact ⟨.localVariable name, by simp [Scope.param, result, bound]⟩

/-- A name stands for the wish for the default if it is the one kept for that, and otherwise for the
parameter that it refers to. -/
theorem evaluate_name (s : Scope) (named : e.form = .name name) :
    s.evaluate e =
      if name = "RESET_VALUE" then .ok .reset else (s.param name e).map fun p => .param p.name := by
  obtain ⟨form, location, offset, text⟩ := e
  subst named
  simp only [evaluate]

theorem evaluate_reset (s : Scope) (named : e.form = .name "RESET_VALUE") :
    s.evaluate e = .ok .reset := by
  rw [evaluate_name s named, if_pos rfl]

theorem evaluate_eq_param_iff (s : Scope) (named : e.form = .name name) {param : String} :
    s.evaluate e = .ok (.param param) ↔
      name ≠ "RESET_VALUE" ∧ ∃ p, s.param name e = .ok p ∧ p.name = param := by
  rw [evaluate_name s named]
  split
  · rename_i reset
    constructor
    · intro same
      cases same
    · rintro ⟨other, -⟩
      exact absurd reset other
  · rename_i other
    rw [map_eq_ok_iff, and_iff_right other]
    simp only [Setting.param.injEq]

theorem evaluate_eq_error (s : Scope) (named : e.form = .name name) (other : name ≠ "RESET_VALUE")
    {fault : CompileError} (refused : s.param name e = .error fault) :
    s.evaluate e = .error fault := by
  rw [evaluate_name s named, if_neg other, refused]
  rfl

end Scope

end DeployManifest
