import DeployManifest.Proofs.Scan

/-! # Statements and the names they bind

A module binds names by statements, and a statement may stand in another: in a branch or loop, where
it still belongs to the same level, or in a function or class. The search for registrations passes
through all of these, so it finds every name that a statement binds (`mem_findings_of_holds`).
-/

namespace DeployManifest

/-! ### Where statements stand -/

/-- Do statements stand in the node, on the level of the node itself? -/
def NodeKind.holdsStatements (kind : NodeKind) : Bool :=
  [NodeKind.module, .block, .line, .expressionStatement, .ifStatement, .elifClause, .elseClause,
    .whileStatement, .forStatement, .tryStatement, .exceptClause, .exceptGroupClause,
    .finallyClause, .withStatement, .asPattern, .matchStatement, .caseClause].contains kind

/-- Do statements stand in the node, on a level of their own? -/
def NodeKind.isDefinition (kind : NodeKind) : Bool :=
  [NodeKind.functionDefinition, .classDefinition, .decoratedDefinition].contains kind

namespace Node

/-- A node that stands in another as a statement does: on its level or, where `deep`, also in the
functions and classes defined there. The value of an assignment may be an assignment again. -/
inductive Holds (deep : Bool) : Node → Node → Prop where
  | self (n : Node) : Holds deep n n
  | inside {n part inner : Node}
      (through : n.kind.holdsStatements = true ∨ deep = true ∧ n.kind.isDefinition = true)
      (member : part ∈ n.children) (statement : part.kind ≠ .decorator)
      (rest : Holds deep part inner) : Holds deep n inner
  | chained {n part inner : Node} (assigns : n.kind = .assignment)
      (value : n.child? .right = some part) (again : part.kind = .assignment)
      (rest : Holds deep part inner) : Holds deep n inner

mutual

/-- The node and all nodes below it. -/
def subtrees : Node → List Node
  | mk kind role start stop children =>
    mk kind role start stop children :: subtreesAll children

/-- The nodes and all nodes below them. -/
def subtreesAll : List Node → List Node
  | [] => []
  | n :: ns => subtrees n ++ subtreesAll ns

end

theorem self_mem_subtrees (n : Node) : n ∈ n.subtrees := by
  obtain ⟨kind, role, start, stop, children⟩ := n
  rw [subtrees]
  exact List.mem_cons_self ..

theorem mem_subtreesAll {n part : Node} {nodes : List Node} (member : part ∈ nodes)
    (inside : n ∈ part.subtrees) : n ∈ subtreesAll nodes := by
  induction nodes with
  | nil => cases member
  | cons first rest ih =>
    rw [subtreesAll]
    rcases List.mem_cons.mp member with rfl | member
    · exact List.mem_append_left _ inside
    · exact List.mem_append_right _ (ih member)

theorem exists_of_mem_subtreesAll {inner : Node} {nodes : List Node}
    (inside : inner ∈ subtreesAll nodes) : ∃ part ∈ nodes, inner ∈ part.subtrees := by
  induction nodes with
  | nil => cases inside
  | cons first rest ih =>
    rw [subtreesAll, List.mem_append] at inside
    rcases inside with here | there
    · exact ⟨first, List.mem_cons_self .., here⟩
    · obtain ⟨part, member, below⟩ := ih there
      exact ⟨part, List.mem_cons_of_mem _ member, below⟩

theorem mem_subtrees_of_child {n part inner : Node} (member : part ∈ n.children)
    (inside : inner ∈ part.subtrees) : inner ∈ n.subtrees := by
  obtain ⟨kind, role, start, stop, children⟩ := n
  rw [subtrees]
  exact List.mem_cons_of_mem _ (mem_subtreesAll member inside)

theorem Holds.mem_subtrees {deep : Bool} {n inner : Node} (held : Holds deep n inner) :
    inner ∈ n.subtrees := by
  induction held with
  | self n => exact n.self_mem_subtrees
  | inside _ member _ _ ih => exact mem_subtrees_of_child member ih
  | chained _ value _ _ ih => exact mem_subtrees_of_child (List.mem_of_find?_eq_some value) ih

end Node

/-! ### What a search finds on its way -/

namespace SourceModule

variable {m : SourceModule}

theorem mem_findingsAll {found : Finding} {n : Node} {nodes : List Node} (member : n ∈ nodes)
    (inside : found ∈ m.findings n) : found ∈ m.findingsAll nodes := by
  induction nodes with
  | nil => cases member
  | cons first rest ih =>
    rw [findingsAll]
    rcases List.mem_cons.mp member with rfl | member
    · exact List.mem_append_left _ inside
    · exact List.mem_append_right _ (ih member)

theorem mem_findingsAll_iff {found : Finding} {nodes : List Node} :
    found ∈ m.findingsAll nodes ↔ ∃ n ∈ nodes, found ∈ m.findings n := by
  constructor
  · intro member
    induction nodes with
    | nil => cases member
    | cons first nodes ih =>
      rw [findingsAll, List.mem_append] at member
      rcases member with here | there
      · exact ⟨first, List.mem_cons_self .., here⟩
      · obtain ⟨n, inside, found⟩ := ih there
        exact ⟨n, List.mem_cons_of_mem _ inside, found⟩
  · rintro ⟨n, inside, found⟩
    exact mem_findingsAll inside found

theorem mem_findingsDecorated {found : Finding} {function : String} {n : Node} {nodes : List Node}
    (member : n ∈ nodes) (statement : n.kind ≠ .decorator) (inside : found ∈ m.findings n) :
    found ∈ m.findingsDecorated function nodes := by
  induction nodes with
  | nil => cases member
  | cons first rest ih =>
    obtain ⟨kind, role, start, stop, children⟩ := first
    rw [findingsDecorated]
    rcases List.mem_cons.mp member with rfl | member
    · refine List.mem_append_left _ ?_
      change kind ≠ .decorator at statement
      rw [if_neg statement]
      exact inside
    · exact List.mem_append_right _ (ih member)

/-- The names that a node binds itself are found in it. -/
theorem ownNames_subset_findings {n : Node} {found : Finding}
    (own : found ∈ m.ownNames n.kind n.children) : found ∈ m.findings n := by
  obtain ⟨kind, role, start, stop, children⟩ := n
  change found ∈ m.ownNames kind children at own
  unfold findings
  split
  · cases own
  · cases own
  · split
    · exact List.mem_append_left _ own
    · exact List.mem_append_left _ own
  · exact List.mem_append_left _ own

/-- What is found in a part of a node is found in the node, if statements stand there. -/
theorem findings_subset_of_child {n part : Node} {found : Finding}
    (through : n.kind.holdsStatements = true ∨ n.kind.isDefinition = true)
    (member : part ∈ n.children) (statement : part.kind ≠ .decorator)
    (inside : found ∈ m.findings part) : found ∈ m.findings n := by
  obtain ⟨kind, role, start, stop, children⟩ := n
  change kind.holdsStatements = true ∨ kind.isDefinition = true at through
  change part ∈ children at member
  unfold findings
  split
  · exact mem_findingsDecorated member statement inside
  · exact absurd through (by decide)
  · exact absurd through (by decide)
  · exact List.mem_append_right _ (mem_findingsAll member inside)

/-- What is found in an assignment is found in the one that it is the value of. -/
theorem findings_subset_of_value {n part : Node} {found : Finding}
    (assigns : n.kind = .assignment) (value : n.child? .right = some part)
    (again : part.kind = .assignment) (inside : found ∈ m.findings part) :
    found ∈ m.findings n := by
  obtain ⟨kind, role, start, stop, children⟩ := n
  change kind = .assignment at assigns
  subst assigns
  change children.find? (·.role == .right) = some part at value
  have plain : m.assignedCall? children = none := by
    rw [assignedCall?, value]
    dsimp only
    rw [again, if_neg (by decide)]
  unfold findings
  rw [plain]
  have member := List.mem_of_find?_eq_some value
  exact List.mem_append_right _ (mem_findingsAll member inside)

/-- Whatever name a statement in a tree binds is found in the tree. -/
theorem mem_findings_of_holds {deep : Bool} {n inner : Node} {found : Finding}
    (held : Node.Holds deep n inner) (own : found ∈ m.ownNames inner.kind inner.children) :
    found ∈ m.findings n := by
  induction held with
  | self n => exact ownNames_subset_findings own
  | inside through member statement _ ih =>
    have passed := through.imp_right And.right
    exact findings_subset_of_child passed member statement (ih own)
  | chained assigns value again _ ih => exact findings_subset_of_value assigns value again (ih own)

/-- The names that a node binds by itself, and those that it binds by an import. -/
def localNames (m : SourceModule) (n : Node) : List String :=
  (m.ownNames n.kind n.children).filterMap (·.localName?)

def importedNames (m : SourceModule) (n : Node) : List String :=
  (m.ownNames n.kind n.children).filterMap (·.importedName?)

theorem mem_localNames_iff {n : Node} {name : String} :
    name ∈ m.localNames n ↔ .localName name ∈ m.ownNames n.kind n.children :=
  Finding.mem_filterMap_localName?

theorem findings_of_scan {tree : Node} {scan : ModuleScan} (read : Node.ofText? m.text = some tree)
    (searched : m.scan = .ok scan) : scan.findings = m.findings tree := by
  rw [scan_eq_ok_iff, scan?, read] at searched
  cases searched
  rfl

theorem mem_locals_of_holds {deep : Bool} {tree n : Node} {scan : ModuleScan} {name : String}
    (read : Node.ofText? m.text = some tree) (searched : m.scan = .ok scan)
    (held : tree.Holds deep n) (bound : name ∈ m.localNames n) : name ∈ scan.locals := by
  obtain ⟨found, own, is⟩ := List.mem_filterMap.mp bound
  rw [ModuleScan.locals, findings_of_scan read searched]
  exact List.mem_filterMap.mpr ⟨found, mem_findings_of_holds held own, is⟩

theorem mem_imports_of_holds {deep : Bool} {tree n : Node} {scan : ModuleScan} {name : String}
    (read : Node.ofText? m.text = some tree) (searched : m.scan = .ok scan)
    (held : tree.Holds deep n) (bound : name ∈ m.importedNames n) : name ∈ scan.imports := by
  obtain ⟨found, own, is⟩ := List.mem_filterMap.mp bound
  rw [ModuleScan.imports, findings_of_scan read searched]
  exact List.mem_filterMap.mpr ⟨found, mem_findings_of_holds held own, is⟩

end SourceModule

end DeployManifest
