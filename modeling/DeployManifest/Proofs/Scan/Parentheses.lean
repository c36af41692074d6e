import DeployManifest.Proofs.Outcome
import DeployManifest.Proofs.Scan.Wrap

/-! # Parentheses around values and decorators

A call in parentheses is recorded as one that stands for itself, without the name that it is
assigned to or the function that it decorates, and what stands beside it is searched. Main
statement: `isAlike_iff_of_wraps`, which says when nothing of that shows.
-/

namespace DeployManifest

open List (Forall₂)

namespace Node

mutual

/-- Trees can be compared. -/
instance decEq : DecidableEq Node
  | mk kind role start stop children, mk kind' role' start' stop' children' =>
    have := decEqAll children children'
    decidable_of_iff
      (kind = kind' ∧ role = role' ∧ start = start' ∧ stop = stop' ∧ children = children') (by simp)

def decEqAll : DecidableEq (List Node)
  | [], [] => .isTrue rfl
  | [], _ :: _ => .isFalse nofun
  | _ :: _, [] => .isFalse nofun
  | n :: nodes, n' :: nodes' =>
    have := decEq n n'
    have := decEqAll nodes nodes'
    decidable_of_iff (n = n' ∧ nodes = nodes') (by simp)

end

end Node

namespace SourceModule

variable {m m' : SourceModule} {v v' n n' site : Node}

/-- What stays the same if the expression of an assignment or decorator is put in parentheses: an
assigned call keeps its record if it has no name to lose, and the names beside it are known anyway;
a decorator registers nothing, and neither does it hide names that are not known. -/
structure BearsParentheses (m : SourceModule) (known : List Finding) (site : Node) : Prop where
  value : site.kind = .assignment → ∀ v, site.child? .right = some v → m.IsRegistering v →
    (m.assignedName? site.children = none ∨ m.Names v "options" "setGlobalOptions") ∧
      ∀ part ∈ site.children, part.role ≠ .right → ∀ found ∈ m.findings part,
        found.IsName ∧ found ∈ known
  called : site.kind = .decorator → ∀ e, site.children.head? = some e → e.kind = .call →
    (e.child? .function).bind m.registering? = none
  bare : site.kind = .decorator → ∀ e, site.children.head? = some e → e.kind = .member →
    m.registering? e = none ∧ ∀ found ∈ m.findings e, found.IsName ∧ found ∈ known

/-- Whatever is found around two nodes, all of it stays alike just if the site bears parentheses. -/
def Settles (m m' : SourceModule) (site n n' : Node) : Prop :=
  ∀ first last : List Finding,
    Finding.Alike (first ++ (m.findings n).map (·.unplaced) ++ last)
        (first ++ (m'.findings n').map (·.unplaced) ++ last) ↔
      m.BearsParentheses (first ++ (m.findings n).map (·.unplaced) ++ last) site

/-! ### What is found in parentheses -/

theorem findings_withRole (n : Node) (role : Role) :
    m.findings (n.withRole role) = m.findings n := by
  obtain ⟨kind, _, start, stop, children⟩ := n
  cases kind <;> rfl

/-- Rows of expressions bind no names, and neither do parentheses. -/
theorem findings_of_isRow (row : n.kind ∈ [.parenthesizedExpression, .expressionList, .tuple]) :
    m.findings n = m.findingsAll n.children := by
  obtain ⟨kind, role, start, stop, children⟩ := n
  change kind ∈ _ at row
  simp only [List.mem_cons, List.not_mem_nil, or_false] at row
  rcases row with rfl | rfl | rfl <;> rfl

namespace InParentheses

theorem kind (wrapped : m.InParentheses m' v v') :
    v'.kind = .parenthesizedExpression ∨ v'.kind = .tuple := by
  rcases wrapped.inside with ⟨parentheses, -⟩ | ⟨-, tuple, -⟩
  · exact .inl parentheses
  · exact .inr tuple

theorem findings (wrapped : m.InParentheses m' v v') :
    (m'.findings v').map (·.unplaced) = (m.findings v).map (·.unplaced) := by
  rcases wrapped.inside with ⟨parentheses, inner, only, same⟩ | ⟨row, tuple, parts⟩
  · rw [findings_of_isRow (by simp [parentheses]), only, findingsAll, findingsAll, List.append_nil,
      unplaced_findings same, findings_withRole]
  · rw [findings_of_isRow (by simp [tuple]), findings_of_isRow (by simp [row]),
      unplaced_findingsAll parts]

end InParentheses

/-! ### Values of assignments -/

theorem findings_of_recorded? {finding : Finding} (call : n.kind = .call)
    (recorded : m.recorded? n none = some finding) : m.findings n = [finding] := by
  obtain ⟨kind, role, start, stop, children⟩ := n
  obtain rfl : kind = .call := call
  unfold findings
  dsimp only
  rw [recorded]

/-- A recorded call is recorded alike without a name if it has none, or if it sets options. -/
theorem unplaced_recorded?_iff {binding : Option String} {first second : Finding}
    (named : m.recorded? n binding = some first) (nameless : m.recorded? n none = some second) :
    second.unplaced = first.unplaced ↔
      binding = none ∨ m.Names n "options" "setGlobalOptions" := by
  rw [← names_iff]
  rw [recorded?] at named nameless
  cases callee : (n.child? .function).bind m.methodOf? with
  | none =>
    rw [callee] at named
    cases named
  | some known =>
    obtain ⟨space, method⟩ := known
    rw [callee] at named nameless
    dsimp only at named nameless
    split at named
    · rename_i kind declares
      rw [declares] at nameless
      cases named
      cases nameless
      obtain ⟨rfl, -⟩ := declaring?_eq_some_iff.mp declares
      simp [Finding.unplaced, Declaration.unplaced, eq_comm]
    · rename_i undeclared
      rw [undeclared] at nameless
      dsimp only at nameless
      split at named
      · rename_i sets
        rw [if_pos sets] at nameless
        cases named
        cases nameless
        simp [sets]
      · rename_i unset
        rw [if_neg unset] at nameless
        obtain ⟨family, found, rfl⟩ := Option.map_eq_some_iff.mp named
        rw [found] at nameless
        cases nameless
        simp [Finding.unplaced, Registration.unplaced, unset, eq_comm]

theorem not_isName_unplaced_of_recorded? {binding : Option String} {finding : Finding}
    (recorded : m.recorded? n binding = some finding) : ¬finding.unplaced.IsName := by
  rw [Finding.isName_unplaced_iff]
  intro isName
  exact absurd (records_of_recorded? recorded).1 (by rw [isName.isCall]; nofun)

section

variable {role : Role} {start stop start' stop' : Nat} {before after before' after' : List Node}

/-- The parts of an assignment beside its value. -/
theorem forall_beside_iff {Q : Finding → Prop} (right : v.role = .right)
    (only : ∀ part ∈ before ++ after, part.role ≠ .right) :
    (∀ part ∈ before ++ v :: after, part.role ≠ .right → ∀ finding ∈ m.findings part, Q finding) ↔
      ∀ finding ∈ m.findingsAll (before ++ after), Q finding := by
  constructor
  · intro beside finding member
    obtain ⟨part, inside, found⟩ := mem_findingsAll_iff.mp member
    refine beside part ?_ (only part inside) finding found
    exact (List.mem_append.mp inside).elim (List.mem_append_left _)
      fun behind => List.mem_append_right _ (List.mem_cons_of_mem _ behind)
  · intro all part member other finding found
    refine all finding (mem_findingsAll_iff.mpr ⟨part, ?_, found⟩)
    rcases List.mem_append.mp member with inFront | rest
    · exact List.mem_append_left _ inFront
    · rcases List.mem_cons.mp rest with rfl | behind
      · exact absurd right other
      · exact List.mem_append_right _ behind

theorem find?_right (right : v.role = .right)
    (only : ∀ part ∈ before ++ after, part.role ≠ .right) :
    (before ++ v :: after).find? (·.role == .right) = some v := by
  have none : before.find? (·.role == .right) = none :=
    List.find?_eq_none.mpr fun part inside => by
      simpa using only part (List.mem_append_left _ inside)
  rw [List.find?_append, none, List.find?_cons_of_pos (by simpa using right), Option.none_or]

theorem roles_matches {nodes nodes' : List Node} (same : Forall₂ (m.Matches m') nodes nodes')
    (others : ∀ part ∈ nodes, part.role ≠ role) : ∀ part ∈ nodes', part.role ≠ role := by
  intro part' member
  obtain ⟨part, inside, matching⟩ := Outcome.exists_of_mem_of_forall₂ same member
  exact matching.role ▸ others part inside

theorem assignedCall?_of_call {nodes : List Node}
    (value : nodes.find? (·.role == .right) = some v) (call : v.kind = .call) :
    m.assignedCall? nodes = m.recorded? v (m.assignedName? nodes) := by
  rw [assignedCall?, value]
  exact if_pos call

theorem assignedCall?_of_not_isRegistering {nodes : List Node}
    (value : nodes.find? (·.role == .right) = some v) (other : ¬m.IsRegistering v) :
    m.assignedCall? nodes = none := by
  cases assigned : m.assignedCall? nodes with
  | none => rfl
  | some finding =>
    obtain ⟨i, given, first, there, registering, -⟩ := exists_of_assignedCall? assigned
    obtain rfl := Option.some.inj
      (value.symm.trans (find?_right_eq_some_iff.mpr ⟨i, first, there⟩))
    exact absurd registering other

/-- In an assignment with a recorded value, nothing but the names and that value is found. -/
theorem unplaced_findings_assigned {nodes : List Node} {finding : Finding}
    (assigned : m.assignedCall? nodes = some finding) :
    (m.findings (.mk .assignment role start stop nodes)).map (·.unplaced) =
      m.ownNames .assignment nodes ++ [finding.unplaced] := by
  unfold findings
  dsimp only
  rw [assigned, List.map_append, Finding.map_unplaced_eq_self m.ownNames_isName]
  rfl

/-- In any other assignment all parts are searched. -/
theorem unplaced_findings_searched (unrecorded : m.assignedCall? (before ++ v :: after) = none) :
    (m.findings (.mk .assignment role start stop (before ++ v :: after))).map (·.unplaced) =
      m.ownNames .assignment (before ++ v :: after) ++
        ((m.findingsAll before).map (·.unplaced) ++ (m.findings v).map (·.unplaced) ++
          (m.findingsAll after).map (·.unplaced)) := by
  have statement : (Node.mk .assignment role start stop (before ++ v :: after)).IsStatement :=
    (by decide : NodeKind.assignment ∈ NodeKind.statements)
  rw [findings_of_isStatement statement nofun fun _ => unrecorded]
  simp only [Node.kind, Node.children, findingsAll_append, findingsAll, List.map_append,
    Finding.map_unplaced_eq_self m.ownNames_isName, List.append_assoc]

/-- In parentheses the value is no call, so all parts of the assignment are searched. -/
theorem unplaced_findings_inParentheses (front : Forall₂ (m.Matches m') before before')
    (right : v.role = .right) (only : ∀ part ∈ before ++ after, part.role ≠ .right)
    (wrapped : m.InParentheses m' v v') (back : Forall₂ (m.Matches m') after after')
    (fits : (Node.mk .assignment role start stop (before ++ v :: after)).Fits m) :
    (m'.findings (.mk .assignment role start' stop' (before' ++ v' :: after'))).map (·.unplaced) =
      m.ownNames .assignment (before ++ v :: after) ++
        ((m.findingsAll before).map (·.unplaced) ++ (m.findings v).map (·.unplaced) ++
          (m.findingsAll after).map (·.unplaced)) := by
  have wraps : m.Wraps m' _ (.mk .assignment role start stop (before ++ v :: after))
      (.mk .assignment role start' stop' (before' ++ v' :: after')) :=
    .value front right only wrapped back
  have isValue := find?_right (wrapped.role.trans right)
    (roles_matches (List.rel_append front back) only)
  have unrecorded : m'.assignedCall? (before' ++ v' :: after') = none :=
    assignedCall?_eq_none fun value found => by
      rw [← Option.some.inj (isValue.symm.trans found)]
      rcases wrapped.kind with kind | kind <;> rw [kind] <;> nofun
  rw [unplaced_findings_searched unrecorded, unplaced_findingsAll front, unplaced_findingsAll back,
    wrapped.findings]
  exact congrArg (· ++ _) (wraps.ownNames fits)

/-- A registering value keeps its record in parentheses only without a name, and lets the search see
what is beside it; any other value is searched as before. -/
theorem settles_value (front : Forall₂ (m.Matches m') before before') (right : v.role = .right)
    (only : ∀ part ∈ before ++ after, part.role ≠ .right) (wrapped : m.InParentheses m' v v')
    (back : Forall₂ (m.Matches m') after after')
    (fits : (Node.mk .assignment role start stop (before ++ v :: after)).Fits m) :
    m.Settles m' (.mk .assignment role start stop (before ++ v :: after))
      (.mk .assignment role start stop (before ++ v :: after))
      (.mk .assignment role start' stop' (before' ++ v' :: after')) := by
  intro first last
  have isValue := find?_right right only
  rw [unplaced_findings_inParentheses front right only wrapped back fits]
  by_cases registering : m.IsRegistering v
  · obtain ⟨call, finding, recorded⟩ :=
      (isRegistering_iff (m.assignedName? (before ++ v :: after))).mp registering
    obtain ⟨-, nameless, recordedAlone⟩ := (isRegistering_iff none).mp registering
    have beside : (m.findingsAll before).map (·.unplaced) ++
        (m.findingsAll after).map (·.unplaced) =
        (m.findingsAll (before ++ after)).map (·.unplaced) := by
      rw [findingsAll_append, List.map_append]
    rw [unplaced_findings_assigned ((assignedCall?_of_call isValue call).trans recorded),
      findings_of_recorded? call recordedAlone, List.map_singleton,
      Finding.alike_iff_of_beside m.ownNames_isName (not_isName_unplaced_of_recorded? recorded)
        (not_isName_unplaced_of_recorded? recordedAlone),
      unplaced_recorded?_iff recorded recordedAlone, beside, Finding.forall_mem_map_unplaced,
      ← forall_beside_iff right only]
    constructor
    · intro bears
      refine ⟨fun _ value given _ => ?_, nofun, nofun⟩
      obtain rfl := Option.some.inj (isValue.symm.trans given)
      exact bears
    · intro bears
      exact bears.value rfl v isValue registering
  · rw [unplaced_findings_searched (assignedCall?_of_not_isRegistering isValue registering)]
    refine iff_of_true (.refl _) ⟨fun _ value given is => ?_, nofun, nofun⟩
    rw [Option.some.inj (isValue.symm.trans given)] at registering
    exact absurd is registering

end

/-! ### Expressions of decorators -/

theorem exists_child_of_mem_findings {finding : Finding} (expression : ¬n.IsStatement)
    (member : finding ∈ m.findings n) : finding.isCall = true ∨ finding.IsName ∨
      ∃ part ∈ n.children, finding ∈ m.findings part := by
  obtain ⟨kind, role, start, stop, children⟩ := n
  have own : finding ∈ m.ownNames kind children → finding.IsName := m.ownNames_isName finding
  unfold findings at member
  dsimp only at member
  split at member
  · exact absurd (by decide : NodeKind.decoratedDefinition ∈ NodeKind.statements) expression
  · split at member
    · rename_i recorded
      cases List.mem_singleton.mp member
      exact .inl (records_of_recorded? recorded).1
    · exact .inr (.inr (mem_findingsAll_iff.mp member))
  · exact absurd (by decide : NodeKind.assignment ∈ NodeKind.statements) expression
  · exact .inr ((List.mem_append.mp member).imp own mem_findingsAll_iff.mp)

/-- In an expression nothing is found as a decorator that is not called. -/
theorem isCall_or_isName (fits : n.Fits m) (expression : ¬n.IsStatement) :
    ∀ finding ∈ m.findings n, finding.isCall = true ∨ finding.IsName := by
  induction n using Node.inductionOn with
  | step n ih =>
    intro finding member
    obtain isCall | isName | ⟨part, child, inside⟩ := exists_child_of_mem_findings expression member
    · exact .inl isCall
    · exact .inr isName
    · exact ih part child (fits.parts part child) (fits.here.expression expression part child)
        finding inside

theorem form_of_recorded? {binding : Option String} {r : Registration}
    (recorded : m.recorded? n binding = some (.registration r)) : r.form = .call binding := by
  rw [recorded?] at recorded
  split at recorded
  · cases recorded
  · dsimp only at recorded
    split at recorded
    · cases recorded
    · split at recorded
      · cases recorded
      · obtain ⟨family, -, same⟩ := Option.map_eq_some_iff.mp recorded
        cases same
        rfl

theorem isCall_unplaced (finding : Finding) : finding.unplaced.isCall = finding.isCall := by
  cases finding <;> rfl

section

variable {e e' : Node} {function : String} {start stop : Nat} {rest rest' : List Node}
  {first last : List Finding}

/-- A call that registers as a decorator is recorded as one that stands for itself instead. -/
theorem not_alike_called {finding : Finding} (called : m.calledDecorator? function e = some finding)
    (call : e.kind = .call) : ¬Finding.Alike (first ++ [finding.unplaced] ++ last)
      (first ++ (m.findings e).map (·.unplaced) ++ last) := by
  intro alike
  obtain ⟨isCall, -, known⟩ := records_of_calledDecorator? called
  obtain ⟨-, alone, recorded⟩ := (isRegistering_iff none).mp ⟨call, known⟩
  obtain ⟨named, -, rfl⟩ := Option.map_eq_some_iff.mp called
  rw [findings_of_recorded? call recorded, List.map_singleton,
    Finding.alike_iff_of_instead (List.forall_mem_singleton.mpr id) le_rfl,
    Finding.recorded_eq_self
      (List.forall_mem_singleton.mpr (not_isName_unplaced_of_recorded? recorded))] at alike
  -- The two registrations differ in their forms.
  have same := List.singleton_inj.mp alike.1
  cases alone with
  | registration r =>
    have form := congrArg Registration.form (Finding.registration.inj same)
    cases (form_of_recorded? recorded).symm.trans form
  | declaration _ | globalCall _ | localName _ | importedName _ => cases same

/-- A method that registers without being called is not recorded at all. -/
theorem not_alike_bare {finding : Finding} (bare : m.bareDecorator? function e = some finding)
    (fits : e.Fits m) (expression : ¬e.IsStatement) :
    ¬Finding.Alike (first ++ [finding.unplaced] ++ last)
      (first ++ (m.findings e).map (·.unplaced) ++ last) := by
  intro alike
  have isCall := isCall_of_bareDecorator? bare
  obtain ⟨named, -, rfl⟩ := Option.map_eq_some_iff.mp bare
  rw [Finding.alike_iff_of_instead (List.forall_mem_singleton.mpr id) le_rfl] at alike
  have member := (Finding.mem_recorded_iff.mp (alike.1 ▸ List.mem_singleton_self _)).1
  obtain ⟨other, inside, same⟩ := List.mem_map.mp member
  rcases isCall_or_isName fits expression other inside with call | isName
  · rw [← isCall_unplaced, same, isCall_unplaced, isCall] at call
    cases call
  · rw [← Finding.isName_unplaced_iff, same] at isName
    exact isName

/-- What is found of a decorator stays alike in parentheses if it registers nothing, and if what is
in it is searched anyway or known. -/
theorem alike_decorator_iff (wrapped : m.InParentheses m' e e') (fits : e.Fits m)
    (expression : ¬e.IsStatement) :
    Finding.Alike (first ++ (m.findingsDecorator function (e :: rest)).map (·.unplaced) ++ last)
        (first ++ (m'.findingsDecorator function (e' :: rest')).map (·.unplaced) ++ last) ↔
      m.BearsParentheses
        (first ++ (m.findingsDecorator function (e :: rest)).map (·.unplaced) ++ last)
        (.mk .decorator .plain start stop (e :: rest)) := by
  have found' : (m'.findingsDecorator function (e' :: rest')).map (·.unplaced) =
      (m.findings e).map (·.unplaced) := by
    rw [findingsDecorator, ← wrapped.findings]
    rcases wrapped.kind with kind | kind <;> rw [kind]
  rw [found', findingsDecorator]
  by_cases call : e.kind = .call
  · rw [call]
    dsimp only
    cases called : m.calledDecorator? function e with
    | none =>
      refine iff_of_true (.refl _) ⟨nofun, fun _ _ given _ => ?_, fun _ _ given member => ?_⟩
      · cases given
        exact Option.map_eq_none_iff.mp called
      · cases given
        cases call.symm.trans member
    | some finding =>
      refine iff_of_false (not_alike_called called call) fun bears => ?_
      rw [calledDecorator?, bears.called rfl e rfl call] at called
      cases called
  by_cases member : e.kind = .member
  · rw [member]
    dsimp only
    cases bare : m.bareDecorator? function e with
    | none =>
      rw [Option.toList_none, List.map_nil,
        Finding.alike_iff_of_instead (List.forall_mem_nil _) (Nat.zero_le 1),
        Finding.recorded_eq_nil_iff]
      constructor
      · rintro ⟨names, known⟩
        refine ⟨nofun, fun _ _ given is => ?_, fun _ _ given _ => ?_⟩
        · cases given
          exact absurd is call
        · cases given
          exact ⟨Option.map_eq_none_iff.mp bare,
            Finding.forall_mem_map_unplaced.mp fun finding inside =>
              ⟨names finding inside, known finding inside (names finding inside)⟩⟩
      · intro bears
        have all := Finding.forall_mem_map_unplaced.mpr (bears.bare rfl e rfl member).2
        exact ⟨fun finding inside => (all finding inside).1,
          fun finding inside _ => (all finding inside).2⟩
    | some finding =>
      refine iff_of_false (not_alike_bare bare fits expression) fun bears => ?_
      rw [bareDecorator?, (bears.bare rfl e rfl member).1] at bare
      cases bare
  · split
    · exact absurd ‹_› call
    · exact absurd ‹_› member
    · refine iff_of_true (.refl _) ⟨nofun, fun _ _ given is => ?_, fun _ _ given is => ?_⟩
      · cases given
        exact absurd is call
      · cases given
        exact absurd is member

end

section

variable {role : Role} {start stop start' stop' from₁ to₁ from₂ to₂ : Nat}
  {before after before' after' joints rest joints' rest' : List Node} {e e' : Node}

theorem settles_decorator (front : Forall₂ (m.Matches m') before before')
    (inFront : Forall₂ (m.Matches m') joints joints')
    (areJoints : ∀ part ∈ joints, part.kind = .joint)
    (wrapped : m.InParentheses m' e e') (back : Forall₂ (m.Matches m') after after')
    (fits : (Node.mk .decoratedDefinition role start stop
      (before ++ .mk .decorator .plain from₁ to₁ (joints ++ e :: rest) :: after)).Fits m) :
    m.Settles m' (.mk .decorator .plain from₁ to₁ (joints ++ e :: rest))
      (.mk .decoratedDefinition role start stop
        (before ++ .mk .decorator .plain from₁ to₁ (joints ++ e :: rest) :: after))
      (.mk .decoratedDefinition role start' stop'
        (before' ++ .mk .decorator .plain from₂ to₂ (joints' ++ e' :: rest') :: after')) := by
  intro first last
  have name : m'.decoratedName
        (before' ++ .mk .decorator .plain from₂ to₂ (joints' ++ e' :: rest') :: after') =
      m.decoratedName (before ++ .mk .decorator .plain from₁ to₁ (joints ++ e :: rest) :: after) :=
    decoratedName_eq (findRole_around front back (by rintro ⟨⟩) (by rintro ⟨⟩))
  generalize given : m.decoratedName _ = function at name
  have around (found : List Finding) :
      first ++ ((m.findingsDecorated function before).map (·.unplaced) ++
        (found ++ (m.findingsDecorated function after).map (·.unplaced))) ++ last =
      (first ++ (m.findingsDecorated function before).map (·.unplaced)) ++ found ++
        ((m.findingsDecorated function after).map (·.unplaced) ++ last) := by
    simp only [List.append_assoc]
  rw [findings, findings, name, given, findingsDecorated_append, findingsDecorated_append,
    findingsDecorated, findingsDecorated, if_pos rfl, if_pos rfl]
  simp only [List.map_append]
  rw [unplaced_findingsDecorated function front, unplaced_findingsDecorated function back,
    around, around]
  have decorator := fits.parts (.mk .decorator .plain from₁ to₁ (joints ++ e :: rest))
    (List.mem_append_right _ (List.mem_cons_self ..))
  cases inFront with
  | nil =>
    have part : e ∈ [] ++ e :: rest := List.mem_cons_self ..
    exact alike_decorator_iff wrapped (decorator.parts e part) (decorator.here.decorator rfl e part)
  | @cons joint joint' joints joints' same others =>
    have kind := areJoints joint (List.mem_cons_self ..)
    have found :
        (m'.findingsDecorator function (joint' :: joints' ++ e' :: rest')).map (·.unplaced) =
          (m.findingsDecorator function (joint :: joints ++ e :: rest)).map (·.unplaced) := by
      rw [List.cons_append, List.cons_append, findingsDecorator, findingsDecorator, same.kind, kind]
      exact unplaced_findings same
    rw [found]
    refine iff_of_true (.refl _) ⟨by rintro ⟨⟩, fun _ _ given is => ?_, fun _ _ given is => ?_⟩
    · cases given
      cases kind.symm.trans is
    · cases given
      cases kind.symm.trans is

end

/-! ### Modules -/

theorem Wraps.settles (wraps : m.Wraps m' site n n') (fits : n.Fits m) :
    m.Settles m' site n n' := by
  induction wraps with
  | value front right only wrapped back => exact settles_value front right only wrapped back fits
  | decorator front inFront areJoints wrapped behind back =>
    exact settles_decorator front inFront areJoints wrapped back fits
  | @inside _ _ _ _ _ _ before after before' after' _ n n' front below back ih =>
    intro first last
    have settled := ih (fits.parts n (List.mem_append_right _ (List.mem_cons_self ..)))
    obtain ⟨inFront, behind, found, found'⟩ := exists_findings_inside front below back fits
    have around (found : List Finding) : first ++ (inFront ++ found ++ behind) ++ last =
        (first ++ inFront) ++ found ++ (behind ++ last) := by
      simp only [List.append_assoc]
    rw [found, found', around, around]
    exact settled (first ++ inFront) (behind ++ last)

theorem BearsParentheses.congr {known known' : List Finding}
    (same : ∀ finding : Finding, finding.IsName → (finding ∈ known ↔ finding ∈ known')) :
    m.BearsParentheses known site ↔ m.BearsParentheses known' site := by
  have both (found : Finding) : found.IsName ∧ found ∈ known ↔ found.IsName ∧ found ∈ known' :=
    and_congr_right (same found)
  constructor
  · rintro ⟨value, called, bare⟩
    simp only [both] at value bare
    exact ⟨value, called, bare⟩
  · rintro ⟨value, called, bare⟩
    simp only [← both] at value bare
    exact ⟨value, called, bare⟩

/-- One more pair of parentheses around the value of an assignment or the expression of a decorator
changes nothing but places if and only if it bears them: no name or function is lost with the record
of a call, and no name is found beside it or in it that is not found anyway. -/
theorem isAlike_iff_of_wraps {tree tree' : Node} (read : Node.ofText? m.text = some tree)
    (read' : Node.ofText? m'.text = some tree') (wraps : m.Wraps m' site tree tree') :
    ∃ scan scan', m.scan = .ok scan ∧ m'.scan = .ok scan' ∧
      (scan.IsAlike scan' ↔ m.BearsParentheses scan.findings site) := by
  refine ⟨⟨m.name, m.findings tree⟩, ⟨m'.name, m'.findings tree'⟩, ?_, ?_, ?_⟩
  · rw [scan_eq_ok_iff, scan?, read]
    rfl
  · rw [scan_eq_ok_iff, scan?, read']
    rfl
  · have settled := wraps.settles (Node.fits_ofText? read) [] []
    rw [List.nil_append, List.append_nil, List.nil_append, List.append_nil] at settled
    rw [ModuleScan.isAlike_iff, settled]
    exact BearsParentheses.congr fun finding isName => Finding.mem_map_unplaced_iff isName

/-- A parameter under a name. -/
def named : SourceModule := ⟨"main.py", "x = params.defineInt(\"A\")\n".toList⟩

/-- The same with parentheses around the call. -/
def namedInside : SourceModule := ⟨"main.py", "x = (params.defineInt(\"A\"))\n".toList⟩

/-- The call at an offset. -/
def declaredAt (role : Role) (start : Nat) : Node :=
  .mk .call role start (start + 21)
    [.mk .member .function start (start + 16)
      [.mk .identifier .object start (start + 6) [],
        .mk .identifier .member (start + 7) (start + 16) []],
    .mk .argumentList .arguments (start + 16) (start + 21)
      [.mk .string .plain (start + 17) (start + 20) []]]

/-- The assignment of a value. -/
def assignment (stop : Nat) (value : Node) : Node :=
  .mk .assignment .plain 0 stop [.mk .identifier .left 0 1 [], value]

/-- A module of one statement. -/
def moduleOf (stop : Nat) (statement : Node) : Node :=
  .mk .module .plain 0 (stop + 1) [.mk .expressionStatement .plain 0 stop [statement]]

/-- In parentheses the parameter loses its name. -/
theorem isAlike_iff_of_wraps_named : ∃ tree tree' site scan scan',
    Node.ofText? named.text = some tree ∧ Node.ofText? namedInside.text = some tree' ∧
      named.Wraps namedInside site tree tree' ∧ named.scan = .ok scan ∧
      namedInside.scan = .ok scan' ∧ ¬scan.IsAlike scan' := by
  have value : named.InParentheses namedInside (declaredAt .right 4)
      (.mk .parenthesizedExpression .right 4 27 [declaredAt .plain 5]) := by
    refine ⟨rfl, by decide +kernel, .inl ⟨rfl, _, rfl, ?_⟩⟩
    exact .mk (by decide +kernel)
      (.cons (.mk (by decide +kernel) (.cons (.mk (by decide +kernel) .nil)
        (.cons (.mk (by decide +kernel) .nil) .nil)))
        (.cons (.mk (by decide +kernel) (.cons (.mk (by decide +kernel) .nil) .nil)) .nil))
  have site : named.Wraps namedInside (assignment 25 (declaredAt .right 4))
      (assignment 25 (declaredAt .right 4))
      (assignment 27 (.mk .parenthesizedExpression .right 4 27 [declaredAt .plain 5])) :=
    .value (.cons (.mk (by decide +kernel) .nil) .nil) rfl
      (List.forall_mem_singleton.mpr (by decide)) value .nil
  have wraps : named.Wraps namedInside (assignment 25 (declaredAt .right 4))
      (moduleOf 25 (assignment 25 (declaredAt .right 4)))
      (moduleOf 27
        (assignment 27 (.mk .parenthesizedExpression .right 4 27 [declaredAt .plain 5]))) :=
    .inside .nil (.inside .nil site .nil) .nil
  have read : Node.ofText? named.text =
      some (moduleOf 25 (assignment 25 (declaredAt .right 4))) := by
    decide +kernel
  have read' : Node.ofText? namedInside.text = some (moduleOf 27 (assignment 27
      (.mk .parenthesizedExpression .right 4 27 [declaredAt .plain 5]))) := by
    decide +kernel
  obtain ⟨scan, scan', searched, searched', alike⟩ := isAlike_iff_of_wraps read read' wraps
  refine ⟨_, _, _, scan, scan', read, read', wraps, searched, searched', fun same => ?_⟩
  have registering : named.IsRegistering (declaredAt .right 4) :=
    (isRegistering_iff none).mpr ⟨rfl, Option.isSome_iff_exists.mp (by decide +kernel)⟩
  rcases ((alike.mp same).value rfl _ rfl registering).1 with nameless | sets
  · cases (by decide +kernel : named.assignedName? (assignment 25 (declaredAt .right 4)).children =
      some "x").symm.trans nameless
  · rw [← names_iff] at sets
    revert sets
    decide +kernel

end SourceModule

end DeployManifest
