import DeployManifest.Proofs.Scan.Alike
import DeployManifest.Proofs.Tree.Statement

/-! # Trees with one more pair of parentheses

A pair of parentheses more around the value of an assignment or the expression of a decorator:
`Wraps`. The statement that holds it is always searched, and around it the same is found
(`exists_findings_inside`).
-/

namespace DeployManifest

open List (Forall₂)

namespace SourceModule

variable {m m' : SourceModule} {n n' site : Node}

/-- One more pair of parentheses around an expression. Expressions in a row become a tuple. -/
structure InParentheses (m m' : SourceModule) (v v' : Node) : Prop where
  role : v'.role = v.role
  text : m'.slice v'.start v'.stop = '(' :: m.slice v.start v.stop ++ [')']
  inside : (v'.kind = .parenthesizedExpression ∧
      ∃ inner, v'.children = [inner] ∧ m.Matches m' (v.withRole .plain) inner) ∨
    (v.kind = .expressionList ∧ v'.kind = .tuple ∧ Forall₂ (m.Matches m') v.children v'.children)

/-- The second tree is the first with one more pair of parentheses around the value of an assignment
or the expression of a decorator; the rest matches. -/
inductive Wraps (m m' : SourceModule) : (site n n' : Node) → Prop where
  | value {role : Role} {start stop start' stop' : Nat} {before after before' after' : List Node}
      {v v' : Node} (front : Forall₂ (m.Matches m') before before') (right : v.role = .right)
      (only : ∀ part ∈ before ++ after, part.role ≠ .right) (wrapped : m.InParentheses m' v v')
      (back : Forall₂ (m.Matches m') after after') :
      Wraps m m' (.mk .assignment role start stop (before ++ v :: after))
        (.mk .assignment role start stop (before ++ v :: after))
        (.mk .assignment role start' stop' (before' ++ v' :: after'))
  | decorator {role : Role} {start stop start' stop' first last first' last' : Nat}
      {before after before' after' joints rest joints' rest' : List Node} {e e' : Node}
      (front : Forall₂ (m.Matches m') before before')
      (inFront : Forall₂ (m.Matches m') joints joints')
      (areJoints : ∀ part ∈ joints, part.kind = .joint)
      (wrapped : m.InParentheses m' e e') (behind : Forall₂ (m.Matches m') rest rest')
      (back : Forall₂ (m.Matches m') after after') :
      Wraps m m' (.mk .decorator .plain first last (joints ++ e :: rest))
        (.mk .decoratedDefinition role start stop
          (before ++ .mk .decorator .plain first last (joints ++ e :: rest) :: after))
        (.mk .decoratedDefinition role start' stop'
          (before' ++ .mk .decorator .plain first' last' (joints' ++ e' :: rest') :: after'))
  | inside {kind : NodeKind} {role : Role} {start stop start' stop' : Nat}
      {before after before' after' : List Node} {site n n' : Node}
      (front : Forall₂ (m.Matches m') before before') (below : Wraps m m' site n n')
      (back : Forall₂ (m.Matches m') after after') :
      Wraps m m' site (.mk kind role start stop (before ++ n :: after))
        (.mk kind role start' stop' (before' ++ n' :: after'))

/-! ### What stands around -/

theorem find?_around {p : Node → Bool} {before after : List Node} (other : p n = false) :
    (before ++ n :: after).find? p = (before ++ after).find? p := by
  rw [List.find?_append, List.find?_append, List.find?_cons_of_neg (by simp [other])]

/-- The first node in a part matches, if the two nodes that do not match are not in it. -/
theorem findRole_around {before after before' after' : List Node} {role : Role}
    (front : Forall₂ (m.Matches m') before before') (back : Forall₂ (m.Matches m') after after')
    (other : n.role ≠ role) (other' : n'.role ≠ role) :
    Option.Rel (m.Matches m') ((before ++ n :: after).find? (·.role == role))
      ((before' ++ n' :: after').find? (·.role == role)) := by
  rw [find?_around (by simpa using other), find?_around (by simpa using other')]
  exact findRole_matches (List.rel_append front back) role

/-- A statement is no part of an import. -/
theorem importName_of_isStatement (statement : n.IsStatement) : m.importName n = [] := by
  rw [importName]
  split
  · rfl
  · split
    · rename_i aliased
      exact absurd aliased (Node.kind_ne statement (by decide))
    · rename_i dotted
      exact absurd dotted (Node.kind_ne statement (by decide))
    · rfl

namespace Wraps

theorem kind (wraps : m.Wraps m' site n n') : n'.kind = n.kind := by
  cases wraps <;> rfl

theorem role (wraps : m.Wraps m' site n n') : n'.role = n.role := by
  cases wraps <;> rfl

/-- The expression is part of a statement, and not in a decorator of another one. -/
theorem isStatement (wraps : m.Wraps m' site n n') (fits : n.Fits m) :
    n.IsStatement ∧ n.kind ≠ .decorator := by
  induction wraps with
  | value => exact ⟨(by decide : NodeKind.assignment ∈ NodeKind.statements), nofun⟩
  | decorator => exact ⟨(by decide : NodeKind.decoratedDefinition ∈ NodeKind.statements), nofun⟩
  | @inside _ _ _ _ _ _ before after _ _ _ n _ front below back ih =>
    have member : n ∈ before ++ n :: after := List.mem_append_right _ (List.mem_cons_self ..)
    have inner := (ih (fits.parts n member)).1
    exact ⟨by_contra fun other => fits.here.expression other n member inner,
      fun decorates => fits.here.decorator decorates n member inner⟩

/-- Targets and names match: there is no statement in their place. -/
theorem child? (wraps : m.Wraps m' site n n') (fits : n.Fits m) {role : Role}
    (free : role = .left ∨ role = .name) :
    Option.Rel (m.Matches m') (n.child? role) (n'.child? role) := by
  cases wraps with
  | value front right only wrapped back =>
    have other : Role.right ≠ role := by rcases free with rfl | rfl <;> decide
    exact findRole_around front back (right ▸ other) (wrapped.role.trans right ▸ other)
  | decorator front inFront areJoints wrapped behind back =>
    have other : Role.plain ≠ role := by rcases free with rfl | rfl <;> decide
    exact findRole_around front back other other
  | @inside kind _ start stop start' stop' before after before' after' _ n n' front below back =>
    have member : n ∈ before ++ n :: after := List.mem_append_right _ (List.mem_cons_self ..)
    have apart := fits.here.statement n member (below.isStatement (fits.parts n member)).1
    have other : n.role ≠ role := by
      rcases free with rfl | rfl
      · exact apart.1
      · exact apart.2
    exact findRole_around front back other (below.role ▸ other)

/-- No name is lost or won by parentheses, apart from the nodes inside. -/
theorem ownNames (wraps : m.Wraps m' site n n') (fits : n.Fits m) :
    m'.ownNames n'.kind n'.children = m.ownNames n.kind n.children := by
  have left := boundIn_eq (wraps.child? fits (.inl rfl))
  have name := boundName_eq (wraps.child? fits (.inr rfl))
  have whole := (wraps.isStatement fits).1
  cases wraps with
  | value => exact left
  | decorator => rfl
  | @inside kind _ _ _ _ _ before after before' after' _ n n' front below back =>
    change kind ∈ NodeKind.statements at whole
    have member : n ∈ before ++ n :: after := List.mem_append_right _ (List.mem_cons_self ..)
    have statement := (below.isStatement (fits.parts n member)).1
    have imports : (before' ++ n' :: after').flatMap m'.importName =
        (before ++ n :: after).flatMap m.importName := by
      have none : m.importName n = [] := importName_of_isStatement statement
      have none' : m'.importName n' = [] := importName_of_isStatement <| by
        rw [Node.IsStatement, below.kind]
        exact statement
      rw [List.flatMap_append, List.flatMap_append, List.flatMap_cons, List.flatMap_cons, none,
        none', flatMap_matches front fun _ _ => importName_matches,
        flatMap_matches back fun _ _ => importName_matches]
    simp only [Node.kind, Node.children] at left name ⊢
    unfold SourceModule.ownNames
    split
    · exact left
    · exact left
    · exact left
    · exact left
    · exact name
    · exact name
    · exact absurd whole (by decide)
    · exact absurd whole (by decide)
    · exact imports
    · exact imports
    · exact absurd whole (by decide)
    · rfl

end Wraps

/-- A decorated definition goes by the same name. -/
theorem decoratedName_around {before after before' after' : List Node}
    (front : Forall₂ (m.Matches m') before before') (below : m.Wraps m' site n n') (fits : n.Fits m)
    (back : Forall₂ (m.Matches m') after after') :
    m'.decoratedName (before' ++ n' :: after') = m.decoratedName (before ++ n :: after) := by
  by_cases defines : n.role = .definition
  · have first := findRole_matches front .definition
    rw [decoratedName, decoratedName, List.find?_append, List.find?_append,
      List.find?_cons_of_pos (by simpa using below.role.trans defines),
      List.find?_cons_of_pos (by simpa using defines)]
    generalize before.find? (·.role == .definition) = found,
      before'.find? (·.role == .definition) = found' at first ⊢
    cases first with
    | none => exact partText_eq (below.child? fits (.inr rfl))
    | some same => exact partText_matches same.parts .name
  · exact decoratedName_eq (findRole_around front back defines (below.role ▸ defines))

/-! ### The search around a statement -/

theorem findingsAll_append (before after : List Node) :
    m.findingsAll (before ++ after) = m.findingsAll before ++ m.findingsAll after := by
  induction before with
  | nil => rfl
  | cons first before ih => rw [List.cons_append, findingsAll, findingsAll, ih, List.append_assoc]

theorem findingsDecorated_append (function : String) (before after : List Node) :
    m.findingsDecorated function (before ++ after) =
      m.findingsDecorated function before ++ m.findingsDecorated function after := by
  induction before with
  | nil => rfl
  | cons first before ih =>
    obtain ⟨kind, role, start, stop, children⟩ := first
    rw [List.cons_append, findingsDecorated, findingsDecorated, ih, List.append_assoc]

theorem findingsDecorated_cons (function : String) (statement : n.kind ≠ .decorator)
    (after : List Node) : m.findingsDecorated function (n :: after) =
      m.findings n ++ m.findingsDecorated function after := by
  obtain ⟨kind, role, start, stop, children⟩ := n
  change kind ≠ .decorator at statement
  rw [findingsDecorated, if_neg statement]

/-- In a statement that is no decorated definition and records no value, all parts are searched. -/
theorem findings_of_isStatement (statement : n.IsStatement)
    (notDecorated : n.kind ≠ .decoratedDefinition)
    (unrecorded : n.kind = .assignment → m.assignedCall? n.children = none) :
    m.findings n = m.ownNames n.kind n.children ++ m.findingsAll n.children := by
  obtain ⟨kind, role, start, stop, children⟩ := n
  change kind ∈ NodeKind.statements at statement
  unfold findings
  dsimp only [Node.kind, Node.children] at *
  split
  · exact absurd rfl notDecorated
  · exact absurd statement (by decide)
  · rw [unrecorded rfl]
  · rfl

theorem assignedCall?_eq_none {nodes : List Node}
    (noCall : ∀ value, nodes.find? (·.role == .right) = some value → value.kind ≠ .call) :
    m.assignedCall? nodes = none := by
  rw [assignedCall?]
  split
  · rename_i value found
    exact if_neg (noCall value found)
  · rfl

/-- The value of an assignment is of the same kind, with the expression somewhere in it. -/
theorem valueKind_around {before after before' after' : List Node}
    (front : Forall₂ (m.Matches m') before before') (below : m.Wraps m' site n n')
    (value : (before ++ n :: after).find? (·.role == .right) = some n) {value' : Node}
    (found : (before' ++ n' :: after').find? (·.role == .right) = some value') :
    value'.kind = n.kind := by
  have right : n.role = .right := by simpa using List.find?_some value
  have first := findRole_matches front .right
  rw [List.find?_append, List.find?_cons_of_pos (by simpa using right)] at value
  rw [List.find?_append, List.find?_cons_of_pos (by simpa using below.role.trans right)] at found
  generalize before.find? (·.role == .right) = given, before'.find? (·.role == .right) = given'
    at first value found
  cases first with
  | none =>
    cases found
    exact below.kind
  | some same =>
    cases value
    cases found
    exact same.kind

/-- Around a part with the expression in it, the same is found in front and behind. -/
theorem exists_findings_inside {kind : NodeKind} {role : Role} {start stop start' stop' : Nat}
    {before after before' after' : List Node} (front : Forall₂ (m.Matches m') before before')
    (below : m.Wraps m' site n n') (back : Forall₂ (m.Matches m') after after')
    (fits : (Node.mk kind role start stop (before ++ n :: after)).Fits m) : ∃ first last,
      (m.findings (.mk kind role start stop (before ++ n :: after))).map (·.unplaced) =
        first ++ (m.findings n).map (·.unplaced) ++ last ∧
      (m'.findings (.mk kind role start' stop' (before' ++ n' :: after'))).map (·.unplaced) =
        first ++ (m'.findings n').map (·.unplaced) ++ last := by
  have member : n ∈ before ++ n :: after := List.mem_append_right _ (List.mem_cons_self ..)
  obtain ⟨statement, notDecorator⟩ := below.isStatement (fits.parts n member)
  have wraps : m.Wraps m' site (.mk kind role start stop (before ++ n :: after))
      (.mk kind role start' stop' (before' ++ n' :: after')) := .inside front below back
  obtain ⟨whole, -⟩ := wraps.isStatement fits
  have whole' : (Node.mk kind role start' stop' (before' ++ n' :: after')).IsStatement := whole
  by_cases decorated : kind = .decoratedDefinition
  · subst decorated
    have same := decoratedName_around front below (fits.parts n member) back
    refine ⟨(m.findingsDecorated (m.decoratedName (before ++ n :: after)) before).map (·.unplaced),
      (m.findingsDecorated (m.decoratedName (before ++ n :: after)) after).map (·.unplaced), ?_, ?_⟩
    · rw [findings, findingsDecorated_append, findingsDecorated_cons _ notDecorator,
        List.map_append, List.map_append, List.append_assoc]
    · rw [findings, same, findingsDecorated_append,
        findingsDecorated_cons _ (below.kind ▸ notDecorator), List.map_append, List.map_append,
        unplaced_findingsDecorated _ front, unplaced_findingsDecorated _ back, List.append_assoc]
  · have notCall : n.kind ≠ .call := Node.kind_ne statement (by decide)
    have unrecorded (assigns : kind = .assignment) :
        m.assignedCall? (before ++ n :: after) = none :=
      assignedCall?_eq_none fun value found => by
        have given := fits.here.assignment assigns n member statement
        rw [Option.some.inj (found.symm.trans given)]
        exact notCall
    have unrecorded' (assigns : kind = .assignment) :
        m'.assignedCall? (before' ++ n' :: after') = none :=
      assignedCall?_eq_none fun value found => by
        have given := fits.here.assignment assigns n member statement
        rw [valueKind_around front below given found]
        exact notCall
    refine ⟨(m.ownNames kind (before ++ n :: after) ++ m.findingsAll before).map (·.unplaced),
      (m.findingsAll after).map (·.unplaced), ?_, ?_⟩
    · rw [findings_of_isStatement whole decorated unrecorded]
      simp only [Node.kind, Node.children, findingsAll_append, findingsAll, List.map_append,
        List.append_assoc]
    · rw [findings_of_isStatement whole' decorated unrecorded', wraps.ownNames fits]
      simp only [Node.kind, Node.children, findingsAll_append, findingsAll, List.map_append,
        unplaced_findingsAll front, unplaced_findingsAll back, List.append_assoc]

end SourceModule

end DeployManifest
