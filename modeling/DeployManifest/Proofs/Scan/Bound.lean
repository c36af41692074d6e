import DeployManifest.Proofs.Scan.Position
import DeployManifest.Proofs.Scope.Statement

/-! # Names that a search comes to

A search collects the names that nodes bind, but only of the nodes that it comes to: those inside a
recorded call, for one, are missing. Main statement: `locals_complete_iff`, by which all names are
found if and only if those that are bound where the search does not come are bound elsewhere too.
-/

namespace DeployManifest

/-- The kinds of targets that are made of others. -/
def NodeKind.targetRows : List NodeKind :=
  [.tuplePattern, .listPattern, .patternList, .listSplatPattern, .tuple, .list, .listSplat,
    .expressionList, .parenthesizedExpression]

namespace SourceModule

variable {m : SourceModule} {n part : Node} {name : String}

/-! ### Names that nodes bind -/

/-- A name in a target: through tuples, lists and stars, but not in attributes or subscripts. -/
inductive Targets (m : SourceModule) : Node → String → Prop where
  | name {n : Node} (identifier : n.kind = .identifier) : Targets m n (m.nodeText n)
  | inside {n part : Node} {name : String} (row : n.kind ∈ NodeKind.targetRows)
      (member : part ∈ n.children) (below : Targets m part name) : Targets m n name

/-- A name of a parameter without a star. -/
inductive NamesParameter (m : SourceModule) (n : Node) : String → Prop where
  | untyped (identifier : n.kind = .identifier) : NamesParameter m n (m.nodeText n)
  | defaulted {given : Node} (kind : n.kind = .defaultParameter ∨ n.kind = .typedDefaultParameter)
      (named : n.child? .name = some given) (identifier : given.kind = .identifier) :
      NamesParameter m n (m.nodeText given)
  | typed {given : Node} (kind : n.kind = .typedParameter) (first : n.children.head? = some given)
      (identifier : given.kind = .identifier) : NamesParameter m n (m.nodeText given)

/-- A name that a node binds. -/
inductive BindsName (m : SourceModule) (n : Node) : String → Prop where
  | assigned {target : Node} {name : String}
      (kind : n.kind = .assignment ∨ n.kind = .augmentedAssignment)
      (left : n.child? .left = some target) (targets : m.Targets target name) : BindsName m n name
  | iterated {target : Node} {name : String}
      (kind : n.kind = .forStatement ∨ n.kind = .forInClause)
      (left : n.child? .left = some target) (targets : m.Targets target name) : BindsName m n name
  | aliased {target : Node} {name : String} (kind : n.kind = .asPatternTarget)
      (member : target ∈ n.children) (targets : m.Targets target name) : BindsName m n name
  | defined {given : Node} (kind : n.kind = .functionDefinition ∨ n.kind = .classDefinition)
      (named : n.child? .name = some given) : BindsName m n (m.nodeText given)
  | parameter {given : Node} {name : String}
      (kind : n.kind = .parameters ∨ n.kind = .lambdaParameters)
      (member : given ∈ n.children) (names : m.NamesParameter given name) : BindsName m n name

theorem mem_targetNamesAll {nodes : List Node} (member : part ∈ nodes)
    (inside : name ∈ m.targetNames part) : name ∈ m.targetNamesAll nodes := by
  induction nodes with
  | nil => cases member
  | cons first nodes ih =>
    rw [targetNamesAll]
    rcases List.mem_cons.mp member with rfl | member
    · exact List.mem_append_left _ inside
    · exact List.mem_append_right _ (ih member)

theorem Targets.mem_targetNames (targets : m.Targets n name) : name ∈ m.targetNames n := by
  induction targets with
  | @name n identifier =>
    obtain ⟨kind, role, start, stop, children⟩ := n
    obtain rfl : kind = .identifier := identifier
    exact List.mem_singleton_self _
  | @inside n part name row member below ih =>
    obtain ⟨kind, role, start, stop, children⟩ := n
    have all := mem_targetNamesAll member ih
    change kind ∈ NodeKind.targetRows at row
    unfold targetNames
    split
    · exact absurd row (by decide)
    · exact absurd row (by decide)
    · exact absurd row (by decide)
    · exact all

theorem NamesParameter.mem_parameterName (names : m.NamesParameter n name) :
    .localName name ∈ m.parameterName n := by
  rw [parameterName]
  cases names with
  | untyped identifier =>
    rw [identifier]
    exact List.mem_singleton_self _
  | defaulted kind named _ =>
    rw [Node.child?] at named
    rcases kind with kind | kind
    all_goals
      rw [kind]
      dsimp only
      rw [boundName, named]
      exact List.mem_singleton_self _
  | typed kind first identifier =>
    obtain ⟨rest, starts⟩ := List.head?_eq_some_iff.mp first
    rw [kind]
    dsimp only
    rw [starts, List.find?_cons_of_pos (by simpa using identifier)]
    exact List.mem_singleton_self _

theorem mem_boundIn {role : Role} {nodes : List Node} {target : Node}
    (first : nodes.find? (·.role == role) = some target) (targets : m.Targets target name) :
    .localName name ∈ m.boundIn role nodes := by
  rw [boundIn, first]
  exact List.mem_map_of_mem targets.mem_targetNames

/-- The search notes every name that a node binds when it comes to the node. -/
theorem BindsName.mem_localNames (binds : m.BindsName n name) : name ∈ m.localNames n := by
  rw [mem_localNames_iff]
  cases binds with
  | assigned kind left targets | iterated kind left targets =>
    have bound := mem_boundIn left targets
    rcases kind with kind | kind <;> rw [kind] <;> exact bound
  | aliased kind member targets =>
    rw [kind]
    exact List.mem_map_of_mem (mem_targetNamesAll member targets.mem_targetNames)
  | @defined given kind named =>
    have bound : .localName (m.nodeText given) ∈ m.boundName .name n.children := by
      rw [Node.child?] at named
      rw [boundName, named]
      exact List.mem_singleton_self _
    rcases kind with kind | kind <;> rw [kind] <;> exact bound
  | parameter kind member names =>
    have bound := List.mem_flatMap.mpr ⟨_, member, names.mem_parameterName⟩
    rcases kind with kind | kind <;> rw [kind] <;> exact bound

/-! ### Nodes that a search comes to -/

/-- What is bound by one of the nodes that a search comes to. -/
def Collects (m : SourceModule) (tree : Node) (found : Finding) : Prop :=
  ∃ position n, m.Visits tree position n ∧ found ∈ m.ownNames n.kind n.children

variable {found : Finding}

theorem collects_iff : m.Collects n found ↔ found ∈ m.ownNames n.kind n.children ∨
    ∃ i rest child part, ¬m.Hides n (i :: rest) ∧ n.children[i]? = some child ∧
      m.Visits child rest part ∧ found ∈ m.ownNames part.kind part.children := by
  constructor
  · rintro ⟨position, part, visits, own⟩
    cases position with
    | nil =>
      cases visits_nil_iff.mp visits
      exact .inl own
    | cons i rest =>
      obtain ⟨reached, child, there, visits⟩ := visits_cons_iff.mp visits
      exact .inr ⟨i, rest, child, part, reached, there, visits, own⟩
  · rintro (own | ⟨i, rest, child, part, reached, there, visits, own⟩)
    · exact ⟨[], n, visits_nil_iff.mpr rfl, own⟩
    · exact ⟨i :: rest, part, visits_cons_iff.mpr ⟨reached, child, there, visits⟩, own⟩

/-- Names are collected in all children of a node that hides nothing. -/
theorem collects_iff_of_open (opens : ∀ position, ¬m.Hides n position) :
    m.Collects n found ↔ found ∈ m.ownNames n.kind n.children ∨
      ∃ part ∈ n.children, m.Collects part found := by
  rw [collects_iff]
  refine or_congr_right ⟨?_, ?_⟩
  · rintro ⟨i, rest, child, part, -, there, visits, own⟩
    exact ⟨child, List.mem_of_getElem? there, rest, part, visits, own⟩
  · rintro ⟨child, member, rest, part, visits, own⟩
    obtain ⟨i, there⟩ := List.mem_iff_getElem?.mp member
    exact ⟨i, rest, child, part, opens _, there, visits, own⟩

/-- No names are collected in a call that is recorded. -/
theorem not_collects_of_registering (registering : m.IsRegistering n) : ¬m.Collects n found := by
  rw [collects_iff]
  rintro (own | ⟨i, rest, child, part, reached, -⟩)
  · rw [registering.call] at own
    cases own
  · exact reached (.within registering)

/-- In an assignment whose value is recorded, the names of the target are collected. -/
theorem collects_iff_of_assigned {i : Nat} {value : Node} (assigns : n.kind = .assignment)
    (first : n.children.findIdx? (·.role == .right) = some i)
    (there : n.children[i]? = some value) (registering : m.IsRegistering value) :
    m.Collects n found ↔ found ∈ m.ownNames n.kind n.children := by
  rw [collects_iff, or_iff_left_iff_imp]
  rintro ⟨j, rest, child, part, reached, stands, visits, own⟩
  rw [hides_iff_of_assigned assigns first there registering, not_not] at reached
  subst reached
  cases there.symm.trans stands
  exact absurd ⟨rest, part, visits, own⟩ (not_collects_of_registering registering)

/-- What is collected in the parts of a decorator: an attribute holds nothing. -/
def CollectsDecorator (m : SourceModule) (parts : List Node) (found : Finding) : Prop :=
  ∃ first, parts[0]? = some first ∧ first.kind ≠ .member ∧ m.Collects first found

/-- What is collected in a part of a decorated definition. -/
def CollectsDecorated (m : SourceModule) (part : Node) (found : Finding) : Prop :=
  if part.kind = .decorator then m.CollectsDecorator part.children found else m.Collects part found

theorem collects_iff_of_decorated (decorated : n.kind = .decoratedDefinition) :
    m.Collects n found ↔ ∃ part ∈ n.children, m.CollectsDecorated part found := by
  rw [collects_iff]
  constructor
  · rintro (own | ⟨i, rest, child, part, reached, there, visits, own⟩)
    · rw [decorated] at own
      cases own
    rw [hides_iff_of_decorated decorated] at reached
    refine ⟨child, List.mem_of_getElem? there, ?_⟩
    rw [CollectsDecorated]
    split
    · rename_i decorates
      cases rest with
      | nil =>
        obtain rfl := visits_nil_iff.mp visits
        rw [decorates] at own
        cases own
      | cons j inner =>
        obtain ⟨-, first, starts, onward⟩ := visits_cons_iff.mp visits
        have front : j = 0 := by
          by_contra later
          exact reached ⟨child, there, decorates, j, inner, rfl, .inl later⟩
        subst front
        refine ⟨first, starts, fun member => ?_, inner, part, onward, own⟩
        exact reached ⟨child, there, decorates, 0, inner, rfl, .inr ⟨first, starts, member⟩⟩
    · exact ⟨rest, part, visits, own⟩
  · rintro ⟨child, member, collects⟩
    obtain ⟨i, there⟩ := List.mem_iff_getElem?.mp member
    rw [CollectsDecorated] at collects
    split at collects
    · rename_i decorates
      obtain ⟨first, starts, noMember, inner, part, visits, own⟩ := collects
      refine .inr ⟨i, 0 :: inner, child, part, ?_, there, visits_cons_iff.mpr
        ⟨not_hides_of_decorator decorates, first, starts, visits⟩, own⟩
      rw [hides_iff_of_decorated decorated]
      rintro ⟨other, again, -, _, _, ⟨rfl, rfl⟩, later | ⟨start, starting, isMember⟩⟩
      · exact later rfl
      · cases there.symm.trans again
        cases starts.symm.trans starting
        exact noMember isMember
    · rename_i statement
      obtain ⟨rest, part, visits, own⟩ := collects
      refine .inr ⟨i, rest, child, part, ?_, there, visits, own⟩
      rw [hides_iff_of_decorated decorated]
      rintro ⟨other, again, decorates, -⟩
      cases there.symm.trans again
      exact statement decorates

/-! ### Names that are found -/

mutual

/-- The names found in a node are those that are collected in it. -/
theorem mem_findings_iff (isName : found.IsName) : ∀ n : Node,
    found ∈ m.findings n ↔ m.Collects n found
  | .mk kind role start stop children => by
    unfold findings
    dsimp only
    split
    · rw [collects_iff_of_decorated rfl, mem_findingsDecorated_iff isName]
      rfl
    · split
      · rename_i call recorded
        have registering : m.IsRegistering (.mk .call role start stop children) :=
          (isRegistering_iff none).mpr ⟨rfl, call, recorded⟩
        refine iff_of_false (fun member => ?_) (not_collects_of_registering registering)
        cases List.mem_singleton.mp member
        cases isName.isCall.symm.trans (records_of_recorded? recorded).1
      · rename_i unrecorded
        have notRegistering : ¬m.IsRegistering (.mk .call role start stop children) := by
          intro registering
          obtain ⟨-, call, recorded⟩ := (isRegistering_iff none).mp registering
          cases unrecorded.symm.trans recorded
        rw [collects_iff_of_open fun _ => not_hides_of_open notRegistering nofun nofun,
          mem_findingsAll_iff_collects isName children]
        exact (or_iff_right nofun).symm
    · split
      · rename_i call recorded
        obtain ⟨i, value, first, there, registering, isCall, -⟩ := exists_of_assignedCall? recorded
        rw [collects_iff_of_assigned (n := .mk .assignment role start stop children) rfl first there
          registering, List.mem_append]
        refine or_iff_left fun member => ?_
        cases List.mem_singleton.mp member
        cases isName.isCall.symm.trans isCall
      · rename_i unrecorded
        have opens (position : List Nat) :
            ¬m.Hides (.mk .assignment role start stop children) position :=
          not_hides_of_open (not_isRegistering_of_kind nofun)
            (fun _ _ _ => not_isRegistering_of_assignedCall? unrecorded) nofun
        rw [collects_iff_of_open opens, List.mem_append,
          mem_findingsAll_iff_collects isName children]
        rfl
    · rename_i notDecorated notCall notAssigned
      have opens (position : List Nat) : ¬m.Hides (.mk kind role start stop children) position :=
        not_hides_of_open (not_isRegistering_of_kind notCall)
          (fun assigns => absurd assigns notAssigned) notDecorated
      rw [collects_iff_of_open opens, List.mem_append, mem_findingsAll_iff_collects isName children]
      rfl

theorem mem_findingsAll_iff_collects (isName : found.IsName) : ∀ nodes : List Node,
    found ∈ m.findingsAll nodes ↔ ∃ part ∈ nodes, m.Collects part found
  | [] => by
    rw [findingsAll]
    exact iff_of_false List.not_mem_nil (by rintro ⟨_, member, -⟩; cases member)
  | n :: nodes => by
    rw [findingsAll, List.mem_append, mem_findings_iff isName n,
      mem_findingsAll_iff_collects isName nodes]
    simp only [List.mem_cons, exists_eq_or_imp]

theorem mem_findingsDecorated_iff (isName : found.IsName) {function : String} :
    ∀ nodes : List Node,
    found ∈ m.findingsDecorated function nodes ↔ ∃ part ∈ nodes, m.CollectsDecorated part found
  | [] => by
    rw [findingsDecorated]
    exact iff_of_false List.not_mem_nil (by rintro ⟨_, member, -⟩; cases member)
  | .mk kind role start stop children :: nodes => by
    rw [findingsDecorated, List.mem_append, mem_findingsDecorated_iff isName nodes]
    simp only [List.mem_cons, exists_eq_or_imp]
    refine or_congr_left ?_
    rw [CollectsDecorated]
    split
    · rename_i decorates
      exact (mem_findingsDecorator_iff isName children).trans (if_pos decorates).to_iff.symm
    · rename_i statement
      exact (mem_findings_iff isName (.mk kind role start stop children)).trans
        (if_neg statement).to_iff.symm

theorem mem_findingsDecorator_iff (isName : found.IsName) {function : String} :
    ∀ parts : List Node,
    found ∈ m.findingsDecorator function parts ↔ m.CollectsDecorator parts found
  | [] => by
    rw [findingsDecorator]
    exact iff_of_false List.not_mem_nil (by rintro ⟨_, starts, -⟩; cases starts)
  | n :: later => by
    have whole := mem_findings_iff isName n
    have first :
        m.CollectsDecorator (n :: later) found ↔ n.kind ≠ .member ∧ m.Collects n found := by
      constructor
      · rintro ⟨_, ⟨rfl⟩, other, collects⟩
        exact ⟨other, collects⟩
      · rintro ⟨other, collects⟩
        exact ⟨n, rfl, other, collects⟩
    rw [first, findingsDecorator]
    split
    · rename_i call
      rw [and_iff_right (by rw [call]; nofun)]
      split
      · rename_i recorded
        obtain ⟨isCall, -, known⟩ := records_of_calledDecorator? recorded
        refine iff_of_false (fun member => ?_) (not_collects_of_registering ⟨call, known⟩)
        cases List.mem_singleton.mp member
        cases isName.isCall.symm.trans isCall
      · exact whole
    · rename_i isMember
      refine iff_of_false (fun member => ?_) fun ⟨other, _⟩ => other isMember
      obtain ⟨_, _, rfl⟩ := Option.map_eq_some_iff.mp (Option.mem_toList.mp member)
      cases isName
    · rename_i notCall notMember
      rw [and_iff_right notMember]
      exact whole

end

/-- The local names of a scan are those of the nodes that the search comes to. -/
theorem mem_locals_iff_collects {tree : Node} {scan : ModuleScan}
    (read : Node.ofText? m.text = some tree) (searched : m.scan = .ok scan) :
    name ∈ scan.locals ↔ ∃ position n, m.Visits tree position n ∧ name ∈ m.localNames n := by
  have isName : (Finding.localName name).IsName := trivial
  rw [ModuleScan.mem_locals_iff, findings_of_scan read searched, mem_findings_iff isName]
  simp only [Collects, mem_localNames_iff]

/-- A module that is read has all names among its locals that its tree binds, if and only if each of
them that is bound where the search does not come is also bound where it does. -/
theorem locals_complete_iff {tree : Node} (read : Node.ofText? m.text = some tree) :
    ∃ scan, m.scan = .ok scan ∧
      ((∀ position n name, tree.at? position = some n → m.BindsName n name → name ∈ scan.locals) ↔
        ∀ position n name, tree.at? position = some n → m.Hidden tree position →
          m.BindsName n name → ∃ shown other, tree.at? shown = some other ∧
            ¬m.Hidden tree shown ∧ name ∈ m.localNames other) := by
  have searched : m.scan = .ok ⟨m.name, m.findings tree⟩ := by
    rw [scan_eq_ok_iff, scan?, read]
    rfl
  refine ⟨_, searched, fun complete position n name stands hidden binds => ?_,
    fun elsewhere position n name stands binds => ?_⟩
  · obtain ⟨shown, other, visits, bound⟩ :=
      (mem_locals_iff_collects read searched).mp (complete position n name stands binds)
    exact ⟨shown, other, visits.stands, visits.reached, bound⟩
  · rw [mem_locals_iff_collects read searched]
    by_cases hidden : m.Hidden tree position
    · obtain ⟨shown, other, there, reached, bound⟩ := elsewhere position n name stands hidden binds
      exact ⟨shown, other, ⟨there, reached⟩, bound⟩
    · exact ⟨position, n, ⟨stands, hidden⟩, binds.mem_localNames⟩

/-- A registration with a comprehension among its arguments. -/
def listed : SourceModule :=
  ⟨"main.py", "https.onRequest(\"a\", f, secrets=[s for s in names])\n".toList⟩

/-- The name of the comprehension is bound in the arguments only, and is missing. -/
theorem locals_complete_iff_listed : ∃ tree scan n, Node.ofText? listed.text = some tree ∧
    listed.scan = .ok scan ∧ tree.at? [0, 0, 1, 2, 1, 1] = some n ∧
    listed.Hidden tree [0, 0, 1, 2, 1, 1] ∧ listed.BindsName n "s" ∧ "s" ∉ scan.locals ∧
    ¬∀ position n name, tree.at? position = some n → listed.Hidden tree position →
      listed.BindsName n name → ∃ shown other, tree.at? shown = some other ∧
        ¬listed.Hidden tree shown ∧ name ∈ listed.localNames other := by
  have outer : (Node.ofText? listed.text).map (fun tree => (tree.at? [0, 0]).map fun call =>
      (call.kind, (listed.recorded? call none).isSome)) = some (some (.call, true)) := by
    decide +kernel
  have inner : (Node.ofText? listed.text).map (fun tree =>
      (tree.at? [0, 0, 1, 2, 1, 1]).map fun n => (n.kind, (n.child? .left).map fun target =>
        (target.kind, listed.nodeText target))) =
      some (some (.forInClause, some (.identifier, "s"))) := by
    decide +kernel
  have locals : (Node.ofText? listed.text).map (fun tree =>
      (listed.findings tree).filterMap (·.localName?)) = some [] := by
    decide +kernel
  obtain ⟨tree, read, outer⟩ := Option.map_eq_some_iff.mp outer
  rw [read, Option.map_some, Option.some.injEq] at inner locals
  obtain ⟨call, stands, outer⟩ := Option.map_eq_some_iff.mp outer
  obtain ⟨n, there, inner⟩ := Option.map_eq_some_iff.mp inner
  simp only [Prod.mk.injEq] at outer inner
  obtain ⟨target, left, name⟩ := Option.map_eq_some_iff.mp inner.2
  simp only [Prod.mk.injEq] at name
  have registering : listed.IsRegistering call :=
    (isRegistering_iff none).mpr ⟨outer.1, Option.isSome_iff_exists.mp outer.2⟩
  have hidden : listed.Hidden tree [0, 0, 1, 2, 1, 1] :=
    ⟨[0, 0], [1, 2, 1, 1], call, rfl, stands, .within registering⟩
  have binds : listed.BindsName n "s" := .iterated (.inr inner.1) left (name.2 ▸ .name name.1)
  obtain ⟨scan, searched, complete⟩ := locals_complete_iff read
  have missing : "s" ∉ scan.locals := by
    rw [ModuleScan.locals, findings_of_scan read searched, locals]
    exact List.not_mem_nil
  exact ⟨tree, scan, n, read, searched, there, hidden, binds, missing,
    fun elsewhere => missing (complete.mpr elsewhere _ n "s" there binds)⟩

end SourceModule

end DeployManifest
