import DeployManifest.Proofs.Scope.Statement
import DeployManifest.Proofs.Tree.Token
import DeployManifest.Proofs.Tree.Yields
import DeployManifest.Tree.Sequence

/-! # What can be said of a tree that is read

A whole number has the text of one token, a joint of lines that of a backslash and a line end, and a
row of strings holds nothing else. Statements stand in statements only, and not where names and
targets stand; in a decorator there is none, and in an assignment only its value may be one.
`Node.Fits` says so of a node and of all nodes below it. A parser of a part of an expression yields
one that `IsPart`; a parser of a statement, or of what may stand in its place, one that `IsBranch`.
-/

namespace DeployManifest

/-- The kinds of statements, and of the clauses of statements, other than assignments. -/
def NodeKind.holders : List NodeKind :=
  [.module, .block, .line, .expressionStatement, .augmentedAssignment, .printStatement,
    .execStatement, .assertStatement, .returnStatement, .deleteStatement, .raiseStatement,
    .passStatement, .breakStatement, .continueStatement, .globalStatement, .nonlocalStatement,
    .typeAliasStatement, .importStatement, .importFromStatement, .futureImportStatement,
    .ifStatement, .elifClause, .elseClause, .whileStatement, .forStatement, .tryStatement,
    .exceptClause, .exceptGroupClause, .finallyClause, .withStatement, .matchStatement,
    .caseClause, .functionDefinition, .classDefinition, .decoratedDefinition]

/-- The kinds of statements, and of the clauses and decorators of statements. -/
def NodeKind.statements : List NodeKind := .assignment :: .decorator :: holders

/-- The kinds with something to be said of their nodes besides. -/
def NodeKind.tokens : List NodeKind := [.integer, .joint, .concatenatedString]

namespace Node

variable {m : SourceModule} {n : Node}

/-- Is it a statement, or a clause or decorator of one? -/
abbrev IsStatement (n : Node) : Prop := n.kind ∈ NodeKind.statements

/-- What can be said of a node of a tree that is read, and of its children. -/
structure FitsHere (m : SourceModule) (n : Node) : Prop where
  integer : n.kind = .integer → Token.IsInteger (m.slice n.start n.stop)
  joint : n.kind = .joint → m.slice n.start n.stop ∈ SourceModule.jointTexts
  strings : n.kind = .concatenatedString →
    ∀ part ∈ n.children, part.kind = .string ∨ part.kind = .joint
  expression : ¬n.IsStatement → ∀ part ∈ n.children, ¬part.IsStatement
  statement : ∀ part ∈ n.children, part.IsStatement → part.role ≠ .left ∧ part.role ≠ .name
  decorator : n.kind = .decorator → ∀ part ∈ n.children, ¬part.IsStatement
  /-- The only statement in an assignment is an assignment that is its value. -/
  assignment : n.kind = .assignment → ∀ part ∈ n.children, part.IsStatement →
    n.child? .right = some part

/-- The node fits, and so do all nodes below it. -/
inductive Fits (m : SourceModule) : Node → Prop where
  | mk {n : Node} (here : n.FitsHere m) (parts : ∀ part ∈ n.children, Fits m part) : Fits m n

theorem Fits.here (fits : n.Fits m) : n.FitsHere m := by
  cases fits
  assumption

theorem Fits.parts (fits : n.Fits m) : ∀ part ∈ n.children, part.Fits m := by
  cases fits
  assumption

theorem role_withRole (n : Node) (role : Role) : (n.withRole role).role = role := by
  cases n
  rfl

theorem Fits.withRole (fits : n.Fits m) (role : Role) : (n.withRole role).Fits m := by
  obtain ⟨kind, _, start, stop, children⟩ := n
  obtain ⟨integer, joint, strings, expression, statement, decorator, assignment⟩ := fits.here
  exact ⟨⟨integer, joint, strings, expression, statement, decorator, assignment⟩, fits.parts⟩

mutual

theorem Fits.of_mem_subtrees : ∀ {tree : Node}, tree.Fits m → n ∈ tree.subtrees → n.Fits m
  | mk kind role start stop children, fits, inside => by
    rw [subtrees, List.mem_cons] at inside
    rcases inside with rfl | below
    · exact fits
    · exact fits_of_mem_subtreesAll fits.parts below

theorem fits_of_mem_subtreesAll : ∀ {nodes : List Node}, (∀ part ∈ nodes, part.Fits m) →
    n ∈ subtreesAll nodes → n.Fits m
  | [], _, inside => by
    rw [subtreesAll] at inside
    cases inside
  | first :: nodes, fits, inside => by
    rw [List.forall_mem_cons] at fits
    rw [subtreesAll, List.mem_append] at inside
    rcases inside with here | there
    · exact fits.1.of_mem_subtrees here
    · exact fits_of_mem_subtreesAll fits.2 there

end

/-- A part of an expression. -/
structure IsPart (m : SourceModule) (n : Node) : Prop where
  fits : n.Fits m
  other : ¬n.IsStatement

/-- A statement, or a part of an expression. -/
structure IsBranch (m : SourceModule) (n : Node) : Prop where
  fits : n.Fits m
  role : n.IsStatement → n.role ≠ .left ∧ n.role ≠ .name

theorem IsPart.withRole (part : n.IsPart m) (role : Role) : (n.withRole role).IsPart m := by
  obtain ⟨kind, _, start, stop, children⟩ := n
  exact ⟨part.fits.withRole role, part.other⟩

theorem IsPart.branch (part : n.IsPart m) : n.IsBranch m :=
  ⟨part.fits, fun statement => absurd statement part.other⟩

theorem IsBranch.withRole (branch : n.IsBranch m) {role : Role}
    (free : role ≠ .left ∧ role ≠ .name) : (n.withRole role).IsBranch m := by
  obtain ⟨kind, _, start, stop, children⟩ := n
  exact ⟨branch.fits.withRole role, fun _ => free⟩

variable {kind : NodeKind} {role : Role} {start stop : Nat} {children : List Node}

theorem kind_ne {other : NodeKind} {kinds : List NodeKind} (listed : kind ∈ kinds)
    (missing : other ∉ kinds) : kind ≠ other :=
  fun same => missing (same ▸ listed)

/-- A node whose parts are no statements is well formed if its text or its parts are. -/
theorem fits_of_parts (integer : kind = .integer → Token.IsInteger (m.slice start stop))
    (joint : kind = .joint → m.slice start stop ∈ SourceModule.jointTexts)
    (strings : kind = .concatenatedString →
      ∀ part ∈ children, part.kind = .string ∨ part.kind = .joint)
    (parts : ∀ part ∈ children, part.IsPart m) : (mk kind role start stop children).Fits m :=
  have here : (mk kind role start stop children).FitsHere m :=
    { integer, joint, strings
      expression := fun _ part member => (parts part member).other
      statement := fun part member statement => absurd statement (parts part member).other
      decorator := fun _ part member => (parts part member).other
      assignment := fun _ part member statement => absurd statement (parts part member).other }
  ⟨here, fun part member => (parts part member).fits⟩

/-- A part of an expression fits if its parts do. -/
theorem isPart_mk (plain : kind ∉ NodeKind.statements ++ NodeKind.tokens)
    (parts : ∀ part ∈ children, part.IsPart m) :
    (mk kind role start stop children).IsPart m := by
  rw [List.mem_append, not_or] at plain
  obtain ⟨expression, other⟩ := plain
  have refuted {token : NodeKind} (listed : token ∈ NodeKind.tokens) (is : kind = token) : False :=
    other (is ▸ listed)
  exact ⟨fits_of_parts (fun is => (refuted (by decide) is).elim)
    (fun is => (refuted (by decide) is).elim) (fun is => (refuted (by decide) is).elim) parts,
    expression⟩

/-- A statement fits if its parts do. -/
theorem isBranch_mk (statement : kind ∈ NodeKind.holders)
    (free : role ≠ .left ∧ role ≠ .name) (parts : ∀ part ∈ children, part.IsBranch m) :
    (mk kind role start stop children).IsBranch m := by
  have here : (mk kind role start stop children).FitsHere m :=
    { integer := fun is => absurd is (kind_ne statement (by decide))
      joint := fun is => absurd is (kind_ne statement (by decide))
      strings := fun is => absurd is (kind_ne statement (by decide))
      expression := absurd (List.mem_cons_of_mem _ (List.mem_cons_of_mem _ statement))
      statement := fun part member => (parts part member).role
      decorator := fun is => absurd is (kind_ne statement (by decide))
      assignment := fun is => absurd is (kind_ne statement (by decide)) }
  exact ⟨⟨here, fun part member => (parts part member).fits⟩, fun _ => free⟩

theorem isBranch_decorator (parts : ∀ part ∈ children, part.IsPart m) :
    (mk .decorator .plain start stop children).IsBranch m :=
  ⟨fits_of_parts nofun nofun nofun parts,
    fun _ => (by decide : Role.plain ≠ .left ∧ Role.plain ≠ .name)⟩

/-- An assignment fits if its parts do, and none of them but its value is a statement. -/
theorem isBranch_assignment (parts : ∀ part ∈ children, part.IsBranch m)
    (value : ∀ part ∈ children, part.IsStatement → children.find? (·.role == .right) = some part) :
    (mk .assignment .plain start stop children).IsBranch m :=
  ⟨⟨⟨nofun, nofun, nofun, fun other => absurd (List.mem_cons_self ..) other,
    fun part member => (parts part member).role, nofun, fun _ => value⟩,
    fun part member => (parts part member).fits⟩,
    fun _ => (by decide : Role.plain ≠ .left ∧ Role.plain ≠ .name)⟩

theorem isPart_integer (text : Token.IsInteger (m.slice start stop))
    (parts : ∀ part ∈ children, part.IsPart m) :
    (mk .integer role start stop children).IsPart m :=
  ⟨fits_of_parts (fun _ => text) nofun nofun parts,
    (by decide : NodeKind.integer ∉ NodeKind.statements)⟩

theorem isPart_joint (text : m.slice start stop ∈ SourceModule.jointTexts) :
    (mk .joint role start stop []).IsPart m :=
  ⟨fits_of_parts nofun (fun _ => text) nofun nofun,
    (by decide : NodeKind.joint ∉ NodeKind.statements)⟩

end Node

namespace Parser

variable {m : SourceModule} {c : Cursor} {kind : NodeKind} {start : Nat} {children : List Node}

/-! ### Nodes over what is read -/

theorem mem_placed {n x : Node} {nodes : List Node} :
    x ∈ placed n nodes ↔ x = n ∨ x ∈ nodes := by
  induction nodes with
  | nil => simp [placed]
  | cons first nodes ih =>
    rw [placed]
    split
    · exact List.mem_cons
    · rw [List.mem_cons, ih, List.mem_cons]
      exact or_left_comm

theorem mem_foldl_placed {x : Node} {joints nodes : List Node} :
    x ∈ joints.foldl (fun nodes n => placed n nodes) nodes ↔ x ∈ joints ∨ x ∈ nodes := by
  induction joints generalizing nodes with
  | nil => simp
  | cons joint joints ih =>
    rw [List.foldl_cons, ih, mem_placed, List.mem_cons, or_left_comm, or_assoc]

theorem find?_placed {p : Node → Bool} {n : Node} {nodes : List Node} (other : p n = false) :
    (placed n nodes).find? p = nodes.find? p := by
  induction nodes with
  | nil => simp [placed, other]
  | cons first nodes ih =>
    rw [placed]
    split
    · rw [List.find?_cons_of_neg (by simp [other])]
    · rw [List.find?_cons, ih, List.find?_cons]

theorem find?_foldl_placed {p : Node → Bool} {joints nodes : List Node}
    (others : ∀ joint ∈ joints, p joint = false) :
    (joints.foldl (fun nodes n => placed n nodes) nodes).find? p = nodes.find? p := by
  induction joints generalizing nodes with
  | nil => rfl
  | cons joint joints ih =>
    rw [List.forall_mem_cons] at others
    rw [List.foldl_cons, ih others.2, find?_placed others.1]

theorem jointsOutside_part (stands : c.StandsIn m) : ∀ joint ∈ jointsOutside c start children,
    joint.kind = .joint ∧ joint.role = .plain ∧ joint.IsPart m := by
  intro joint member
  obtain ⟨place, inside, rfl⟩ := List.mem_map.mp member
  have passed := (List.takeWhile_sublist _).subset (List.mem_filter.mp inside).1
  exact ⟨rfl, rfl, Node.isPart_joint (stands.joints place passed)⟩

/-- What is finished holds the parts, and maybe joints between them. -/
theorem mem_finished {x : Node} (stands : c.StandsIn m)
    (member : x ∈ (jointsOutside c start children).foldl (fun nodes n => placed n nodes) children) :
    x ∈ children ∨ x.kind = .joint ∧ x.IsPart m := by
  rcases mem_foldl_placed.mp member with joint | given
  · obtain ⟨kind, -, part⟩ := jointsOutside_part stands x joint
    exact .inr ⟨kind, part⟩
  · exact .inl given

theorem yields_finish {Q : Node → Prop}
    (holds : ∀ stop nodes, (∀ x ∈ nodes, x ∈ children ∨ x.kind = .joint ∧ x.IsPart m) →
      Q (.mk kind .plain start stop nodes)) : (finish kind start children).Yields m Q := by
  rintro c _ _ stands ⟨⟩
  exact ⟨stands, holds _ _ fun x => mem_finished stands⟩

theorem finish_part (plain : kind ∉ NodeKind.statements ++ NodeKind.tokens)
    (parts : ∀ part ∈ children, part.IsPart m) :
    (finish kind start children).Yields m (Node.IsPart m) :=
  yields_finish fun _ _ among => Node.isPart_mk plain fun part member =>
    (among part member).elim (parts part) And.right

theorem finish_branch (statement : kind ∈ NodeKind.holders)
    (parts : ∀ part ∈ children, part.IsBranch m) :
    (finish kind start children).Yields m (Node.IsBranch m) :=
  yields_finish fun _ _ among => Node.isBranch_mk statement (by decide) fun part member =>
    (among part member).elim (parts part) fun joint => joint.2.branch

theorem spanning_part (plain : kind ∉ NodeKind.statements ++ NodeKind.tokens)
    (parts : ∀ part ∈ children, part.IsPart m) :
    (spanning kind children).Yields m (Node.IsPart m) := by
  cases children with
  | nil => exact yields_refuse
  | cons first rest => exact finish_part plain parts

theorem spanning_branch (statement : kind ∈ NodeKind.holders)
    (parts : ∀ part ∈ children, part.IsBranch m) :
    (spanning kind children).Yields m (Node.IsBranch m) := by
  cases children with
  | nil => exact yields_refuse
  | cons first rest => exact finish_branch statement parts

/-- A row of strings. -/
theorem spanning_strings (parts : ∀ part ∈ children, part.kind = .string ∧ part.IsPart m) :
    (spanning .concatenatedString children).Yields m (Node.IsPart m) := by
  cases children with
  | nil => exact yields_refuse
  | cons first rest =>
    refine yields_finish fun stop nodes among => ?_
    have known : ∀ x ∈ nodes, (x.kind = .string ∨ x.kind = .joint) ∧ x.IsPart m := by
      intro x member
      rcases among x member with given | joint
      · exact (parts x given).imp_left .inl
      · exact joint.imp_left .inr
    exact ⟨Node.fits_of_parts nofun nofun (fun _ x member => (known x member).1)
      fun x member => (known x member).2,
      (by decide : NodeKind.concatenatedString ∉ NodeKind.statements)⟩

theorem finish_decorator (parts : ∀ part ∈ children, part.IsPart m) :
    (finish .decorator start children).Yields m (Node.IsBranch m) :=
  yields_finish fun _ _ among => Node.isBranch_decorator fun part member =>
    (among part member).elim (parts part) And.right

/-- A target, maybe a type, and maybe a value, which may be an assignment again. -/
theorem spanning_assignment {front back : List Node} (parts : ∀ part ∈ front, part.IsPart m)
    (noValue : ∀ part ∈ front, part.role ≠ .right) (value : ∀ part ∈ back, part.IsBranch m)
    (role : ∀ part ∈ back, part.role = .right) (one : back.length ≤ 1) :
    (spanning .assignment (front ++ back)).Yields m (Node.IsBranch m) := by
  unfold spanning
  split
  · exact yields_refuse
  · rintro c _ _ stands ⟨⟩
    refine ⟨stands, Node.isBranch_assignment (fun x member => ?_) fun x member statement => ?_⟩
    · rcases mem_finished stands member with given | joint
      · exact (List.mem_append.mp given).elim (fun inFront => (parts x inFront).branch) (value x)
      · exact joint.2.branch
    · -- Neither a joint nor a target or type is a statement, so the node is the value.
      have last : x ∈ back := by
        rcases mem_finished stands member with given | joint
        · exact (List.mem_append.mp given).resolve_left fun inFront =>
            (parts x inFront).other statement
        · exact absurd statement joint.2.other
      obtain rfl : back = [x] := by
        obtain ⟨y, rfl⟩ := List.length_eq_one_iff.mp
          (Nat.le_antisymm one (List.length_pos_of_mem last))
        rw [List.mem_singleton.mp last]
      rw [find?_foldl_placed fun joint among => by
        rw [(jointsOutside_part stands joint among).2.1]
        rfl]
      have none : front.find? (·.role == .right) = none :=
        List.find?_eq_none.mpr fun y inFront => by simpa using noValue y inFront
      rw [List.find?_append, none, Option.none_or,
        List.find?_cons_of_pos (by simpa using role x last)]

theorem identifier_part {a : Admits} : (identifier a).Yields m (Node.IsPart m) := by
  refine yields_token.bind fun here stands => ?_
  split
  · exact yields_refuse
  · exact (stays_moveTo (stands.advance _)).bind fun _ _ => finish_part (by decide) nofun

end Parser

end DeployManifest
