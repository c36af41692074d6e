import DeployManifest.Proofs.Scan.Span
import DeployManifest.Proofs.Scope.Lookup

/-! # The order of what is found

The search of a tree in source order records nodes that stand apart, in source order. So the last
declaration that a look-up comes to is the nearest one. Main statement: `recordsApart_and_findsNearest`.
-/

namespace DeployManifest

namespace SourceModule

variable {m : SourceModule}

/-! ### The records of a module -/

/-- What a search of the tree finds in the module. -/
def searched (m : SourceModule) (tree : Node) : ModuleScan := ⟨m.name, m.findings tree⟩

/-- Registrations, declarations and calls for global options are recorded of nodes of the tree that
stand apart, each of its own; those of each kind stand in source order. -/
structure RecordsApart (m : SourceModule) (tree : Node) : Prop where
  nodes : ∃ marked : List Node,
    marked.Nodup ∧ (∀ n ∈ marked, n ∈ tree.subtrees ∧ n.start < n.stop) ∧
      marked.Pairwise (fun n later => n.stop ≤ later.start) ∧
      List.Forall₂ m.Marks marked ((m.findings tree).filter (·.offset?.isSome))
  registrations : ((m.searched tree).registrations.map (·.offset)).Pairwise (· < ·)
  declarations : ((m.searched tree).declarations.map (·.offset)).Pairwise (· < ·)
  globalCalls : ((m.searched tree).globalCalls.map (·.offset)).Pairwise (· < ·)

theorem filterMap_sublist {α β : Type} {f g : α → Option β} {xs : List α}
    (extends' : ∀ x y, f x = some y → g x = some y) : (xs.filterMap f).Sublist (xs.filterMap g) := by
  induction xs with
  | nil => exact .slnil
  | cons x xs ih =>
    rw [List.filterMap_cons, List.filterMap_cons]
    cases given : f x with
    | none =>
      cases g x with
      | none => exact ih
      | some y => exact ih.cons y
    | some y =>
      rw [extends' x y given]
      exact ih.cons_cons y

/-- What can be read of everything recorded, and of names not, is what it is of the nodes. -/
theorem filterMap_eq_of_marks {α : Type} {read? : Finding → Option α} {part : Node → α}
    (marked? : ∀ n finding, m.Marks n finding → read? finding = some (part n))
    (named? : ∀ finding, finding.offset? = none → read? finding = none)
    {marked : List Node} {found : List Finding}
    (recorded : List.Forall₂ m.Marks marked (found.filter (·.offset?.isSome))) :
    found.filterMap read? = marked.map part := by
  have filtered : found.filterMap read? = (found.filter (·.offset?.isSome)).filterMap read? := by
    rw [List.filterMap_filter]
    refine List.filterMap_congr fun finding _ => ?_
    cases offset : finding.offset? with
    | none => exact named? finding offset
    | some _ => rfl
  rw [filtered]
  generalize found.filter (·.offset?.isSome) = records at recorded
  clear filtered
  induction recorded with
  | nil => rfl
  | cons first _ ih => rw [List.filterMap_cons, marked? _ _ first, ih, List.map_cons]

/-- The offsets of what is recorded are those of the nodes. -/
theorem offsets_eq {marked : List Node} {found : List Finding}
    (recorded : List.Forall₂ m.Marks marked (found.filter (·.offset?.isSome))) :
    found.filterMap (·.offset?) = marked.map (·.start) :=
  filterMap_eq_of_marks (fun _ _ => offset?_of_marks) (fun _ => id) recorded

theorem recordsApart (m : SourceModule) {tree : Node} (ordered : tree.IsOrdered) :
    m.RecordsApart tree := by
  obtain ⟨marked, inside, apart, recorded⟩ := spans_findings m tree ordered
  have less : marked.Pairwise (fun n later => n.start < later.start) := by
    refine apart.imp_of_mem fun member _ behind => ?_
    have filled := (inside _ member).2.2.1
    omega
  have offsets : ((m.findings tree).filterMap (·.offset?)).Pairwise (· < ·) := by
    rw [offsets_eq recorded, List.pairwise_map]
    exact less
  -- The offsets of one kind are some of all.
  have ofKind {α : Type} (kind? : Finding → Option α) (offset : α → Nat)
      (agrees : ∀ finding x, kind? finding = some x → finding.offset? = some (offset x)) :
      (((m.findings tree).filterMap kind?).map offset).Pairwise (· < ·) := by
    rw [List.map_filterMap]
    refine offsets.sublist (filterMap_sublist fun finding x given => ?_)
    obtain ⟨y, found, rfl⟩ := Option.map_eq_some_iff.mp given
    exact agrees finding y found
  refine ⟨⟨marked, ?_, fun n member => ?_, apart, recorded⟩, ?_, ?_, ?_⟩
  · refine less.imp fun before => ?_
    rintro rfl
    omega
  · exact ⟨(inside n member).1, (inside n member).2.2.1⟩
  · refine ofKind (·.registration?) (·.offset) fun finding r given => ?_
    cases finding <;> cases given
    rfl
  · refine ofKind (·.declaration?) (·.offset) fun finding d given => ?_
    cases finding <;> cases given
    rfl
  · refine ofKind (·.globalCall?) (·.offset) fun finding g given => ?_
    cases finding <;> cases given
    rfl

end SourceModule

/-! ### The nearest declaration -/

/-- The module declares the parameter under the name in front of the offset, and declares none under
it that is nearer. -/
def ModuleScan.DeclaresNearest (s : ModuleScan) (name : String) (offset : Nat) (p : Param) : Prop :=
  ∃ d ∈ s.declarations, d.binding = some name ∧ d.offset < offset ∧ d.param = .ok p ∧
    ∀ other ∈ s.declarations, other.binding = some name → other.offset < offset →
      other.offset ≤ d.offset

/-- Of a row that ascends in some number, the last one has the greatest. -/
theorem getLast?_eq_some_iff_of_ascends {α : Type} {number : α → Nat} {xs : List α}
    (ascends : (xs.map number).Pairwise (· < ·)) {x : α} :
    xs.getLast? = some x ↔ x ∈ xs ∧ ∀ y ∈ xs, number y ≤ number x := by
  rcases List.eq_nil_or_concat xs with rfl | ⟨front, last, rfl⟩
  · simp
  · rw [List.concat_eq_append] at ascends ⊢
    rw [List.map_append, List.pairwise_append] at ascends
    have below : ∀ y ∈ front, number y < number last := fun y member =>
      ascends.2.2 _ (List.mem_map_of_mem member) _ (List.mem_cons_self ..)
    rw [List.getLast?_concat, Option.some.injEq]
    constructor
    · rintro rfl
      refine ⟨List.mem_append_right _ (List.mem_cons_self ..), fun y member => ?_⟩
      rcases List.mem_append.mp member with earlier | same
      · exact Nat.le_of_lt (below y earlier)
      · exact Nat.le_of_eq (congrArg number (List.mem_singleton.mp same))
    · rintro ⟨member, greatest⟩
      rcases List.mem_append.mp member with earlier | same
      · have less := below x earlier
        have more := greatest last (List.mem_append_right _ (List.mem_cons_self ..))
        omega
      · exact (List.mem_singleton.mp same).symm

namespace ModuleScan

variable {s : ModuleScan} {name : String} {offset : Nat}

theorem lastDeclared?_eq_some_iff (ascends : (s.declarations.map (·.offset)).Pairwise (· < ·))
    {d : Declaration} :
    s.lastDeclared? name offset = some d ↔
      d ∈ s.declarations ∧ d.binding = some name ∧ d.offset < offset ∧
        ∀ other ∈ s.declarations, other.binding = some name → other.offset < offset →
          other.offset ≤ d.offset := by
  have chosen : (((s.declaredAs name).filter (·.offset < offset)).map (·.offset)).Pairwise
      (· < ·) :=
    ascends.sublist ((List.filter_sublist.trans List.filter_sublist).map _)
  rw [lastDeclared?, getLast?_eq_some_iff_of_ascends chosen]
  simp only [declaredAs, List.mem_filter, beq_iff_eq, decide_eq_true_eq, and_imp, and_assoc]

/-- A look-up finds the nearest declaration in front of the use. -/
theorem lookup_eq_found_iff {scans : List ModuleScan} {table : ParamTable}
    (located : Located scans) (declared : ParamTable.ofScans scans = .ok table)
    (member : s ∈ scans) (ascends : (s.declarations.map (·.offset)).Pairwise (· < ·)) {p : Param} :
    table.lookup name s.module offset = .found p ↔ s.DeclaresNearest name offset p := by
  have resolves := table.lookup_resolves located declared member name offset
  constructor
  · intro result
    rw [result] at resolves
    obtain ⟨last, given⟩ := resolves
    obtain ⟨inside, bound, early, nearest⟩ := (lastDeclared?_eq_some_iff ascends).mp last
    exact ⟨_, inside, bound, early, given, nearest⟩
  · rintro ⟨d, inside, bound, early, given, nearest⟩
    have last : s.lastDeclared? name offset = some d :=
      (lastDeclared?_eq_some_iff ascends).mpr ⟨inside, bound, early, nearest⟩
    generalize result : table.lookup name s.module offset = target at resolves
    cases resolves with
    | found again declared =>
      obtain rfl := Option.some.inj (last.symm.trans again)
      obtain rfl := Except.ok.inj (given.symm.trans declared)
      rfl
    | declaredLater none => cases last.symm.trans none
    | otherModule own => exact absurd bound (own d inside)
    | notFound own => exact absurd bound (own d inside)

end ModuleScan

namespace SourceModule

theorem located_searched {sources : List (SourceModule × Node)}
    (distinct : (sources.map (·.1.name)).Nodup) :
    Located (sources.map fun (m, tree) => m.searched tree) where
  distinct := by
    rw [List.map_map]
    exact distinct
  stands := by
    intro scan member d declared
    obtain ⟨⟨m, tree⟩, -, rfl⟩ := List.mem_map.mp member
    obtain ⟨found, inside, same⟩ := List.mem_filterMap.mp declared
    have stands := findings_covered m.covers_standsIn tree found inside
    cases found with
    | declaration _ =>
      cases same
      exact stands
    | registration _ | globalCall _ | localName _ | importedName _ => cases same

/-- Of modules whose trees are in source order, the search of each records nodes that stand apart, in
order. Where they have names of their own and their declarations are accepted, a name refers to the
declaration of its module that is nearest in front of it. -/
theorem recordsApart_and_findsNearest {sources : List (SourceModule × Node)}
    (ordered : ∀ source ∈ sources, source.2.IsOrdered) :
    (∀ m tree, (m, tree) ∈ sources → m.RecordsApart tree) ∧
      ∀ table, (sources.map (·.1.name)).Nodup →
        ParamTable.ofScans (sources.map fun (m, tree) => m.searched tree) = .ok table →
          ∀ m tree, (m, tree) ∈ sources → ∀ name offset p,
            table.lookup name m.name offset = .found p ↔
              (m.searched tree).DeclaresNearest name offset p := by
  refine ⟨fun m tree member => m.recordsApart (ordered _ member), ?_⟩
  intro table distinct declared m tree member name offset p
  have ascends := (m.recordsApart (ordered _ member)).declarations
  have listed : m.searched tree ∈ sources.map fun (m, tree) => m.searched tree :=
    List.mem_map.mpr ⟨_, member, rfl⟩
  exact ModuleScan.lookup_eq_found_iff (located_searched distinct) declared listed ascends

/-- A module that gives one name to two parameters, and one that declares the name after them. -/
def sized : SourceModule :=
  ⟨"main.py", "size = params.defineInt(\"A\")\nsize = params.defineInt(\"B\")\n".toList ++
    "\n@https.onRequest(\"hello\", minInstances=size)\ndef f(r): pass\n".toList⟩

def resized : SourceModule := ⟨"more.py", "size = params.defineInt(\"C\")\n".toList⟩

set_option maxRecDepth 100000 in
/-- In the registration the name refers to the second of the two. -/
theorem recordsApart_and_findsNearest_sized :
    ∃ first second table p, Node.ofText? sized.text = some first ∧
      Node.ofText? resized.text = some second ∧
      ParamTable.ofScans [sized.searched first, resized.searched second] = .ok table ∧
      sized.RecordsApart first ∧ (sized.searched first).registrations.length = 1 ∧
      (sized.searched first).DeclaresNearest "size" 98 p ∧ p.name = "B" := by
  have computed : (Node.ofText? sized.text).bind (fun first =>
      (Node.ofText? resized.text).bind fun second =>
        if first.IsOrdered ∧ second.IsOrdered ∧ (sized.searched first).registrations.length = 1 then
          (ParamTable.ofScans [sized.searched first, resized.searched second]).toOption.bind
            fun table =>
              match table.lookup "size" "main.py" 98 with
              | .found p => some p.name
              | _ => none
        else none) = some "B" := by
    decide +kernel
  obtain ⟨first, read, computed⟩ := Option.bind_eq_some_iff.mp computed
  obtain ⟨second, readSecond, computed⟩ := Option.bind_eq_some_iff.mp computed
  split at computed
  · rename_i holds
    obtain ⟨ordered, orderedSecond, registered⟩ := holds
    obtain ⟨table, declared, computed⟩ := Option.bind_eq_some_iff.mp computed
    split at computed
    · rename_i p result
      have both : ∀ source ∈ [(sized, first), (resized, second)], source.2.IsOrdered := by
        simp [ordered, orderedSecond]
      have distinct : ["main.py", "more.py"].Nodup := by decide
      have accepted := Outcome.eq_ok_of_toOption declared
      obtain ⟨apart, nearest⟩ := recordsApart_and_findsNearest both
      have here : (sized, first) ∈ [(sized, first), (resized, second)] := List.mem_cons_self ..
      exact ⟨first, second, table, p, read, readSecond, accepted, apart _ _ here, registered,
        (nearest table distinct accepted _ _ here "size" 98 p).mp result,
        Option.some.inj computed⟩
    · cases computed
  · cases computed

end SourceModule

end DeployManifest
