import DeployManifest.Proofs.Scan.Call
import DeployManifest.Proofs.Scope.Statement
import DeployManifest.Proofs.Tree.Order
import Mathlib.Data.List.Forall2

/-! # Ranges of what is recorded

In a tree in source order the nodes that a search records stand apart from each other, one behind the
other. `spans_findings` carries that through the search: of the nodes below a node, those that are
recorded stand in its range.
-/

namespace DeployManifest

namespace SourceModule

variable {m : SourceModule}

/-! ### Recorded nodes are not empty -/

theorem lt_of_slice_ne_nil {start stop : Nat} (some : m.slice start stop ≠ []) : start < stop := by
  by_contra empty
  rw [slice, Nat.sub_eq_zero_of_le (Nat.not_lt.mp empty)] at some
  cases rest : dropBytes start m.text with
  | nil => simp [rest, takeBytes] at some
  | cons c cs => simp [rest, takeBytes] at some

theorem lt_of_nodeText_ne {n : Node} (named : m.nodeText n ≠ "") : n.start < n.stop := by
  refine lt_of_slice_ne_nil (m := m) fun none => named ?_
  rw [nodeText, none, String.ofList_nil]

theorem exists_of_partText_ne {role : Role} {nodes : List Node}
    (named : m.partText role nodes ≠ "") : ∃ n ∈ nodes, n.start < n.stop := by
  rw [partText] at named
  split at named
  · rename_i n found
    exact ⟨n, List.mem_of_find?_eq_some found, lt_of_nodeText_ne named⟩
  · exact absurd rfl named

/-- Names and members are paths, and so are parentheses around one. -/
theorem cases_of_path? {n : Node} {path : List String} (lowered : (m.lower n).path? = some path) :
    path = [m.nodeText n] ∨
      (∃ parts, path = parts ++ [m.partText .member n.children]) ∨
      ∃ only, n.children = [only] ∧ (m.lower only).path? = some path := by
  obtain ⟨kind, role, start, stop, children⟩ := n
  have constantless {α : Type} {form : α → ExprForm} {value : Option α}
      (noPath : ∀ a, (m.exprAt start stop (form a)).path? = none) :
      (m.exprAt start stop (constant form value)).path? = none := by
    cases value with
    | none => rfl
    | some a => exact noPath a
  -- The equation of `lower` is one by computation, so each kind is computed with.
  cases kind
  case identifier =>
    cases lowered
    exact .inl rfl
  case member =>
    change (m.exprAt start stop
      (member (m.lowerPart .object children) (m.partText .member children))).path? = some path
      at lowered
    rw [member] at lowered
    split at lowered
    · cases lowered
      exact .inr (.inl ⟨_, rfl⟩)
    · cases lowered
  case parenthesizedExpression =>
    rcases children with _ | ⟨only, _ | _⟩
    · cases lowered
    · exact .inr (.inr ⟨only, rfl, lowered⟩)
    · cases lowered
  case unaryOperator sign =>
    conv at lowered => lhs; arg 1; whnf
    generalize m.lowerPart .argument children = operand at lowered
    cases operand with
    | none => cases lowered
    | some operand =>
      dsimp only [signed] at lowered
      split at lowered <;> cases lowered
  case call =>
    conv at lowered => lhs; arg 1; whnf
    generalize m.lowerPart .function children = callee at lowered
    cases callee <;> cases lowered
  case integer | float | string | concatenatedString | dictionary =>
    cases (constantless fun _ => rfl).symm.trans lowered
  all_goals cases lowered

/-- A path ends with a name, for which there has to be room. -/
theorem lt_of_path? {n : Node} (ordered : n.IsOrdered) {path : List String} {last : String}
    (lowered : (m.lower n).path? = some path) (ends : path.getLast? = some last)
    (named : last ≠ "") : n.start < n.stop := by
  have inside := Node.isOrdered_iff.mp ordered
  rcases cases_of_path? lowered with rfl | ⟨parts, rfl⟩ | ⟨only, whole, inner⟩
  · obtain rfl : _ = last := Option.some.inj ends
    exact lt_of_nodeText_ne named
  · rw [List.getLast?_concat, Option.some.injEq] at ends
    subst ends
    obtain ⟨part, member, filled⟩ := exists_of_partText_ne named
    exact inside.lt_of_mem member filled
  · have member : only ∈ n.children := by
      rw [whole]
      exact List.mem_cons_self ..
    exact inside.lt_of_mem member (lt_of_path? (inside.of_mem member).2.2 inner ends named)
termination_by sizeOf n
decreasing_by exact Node.sizeOf_lt_of_mem member

theorem ne_empty_of_isKnown {space method : String} (known : IsKnown space method) :
    method ≠ "" := by
  rintro rfl
  rcases known with ⟨-, declares⟩ | ⟨-, sets⟩ | registers
  · cases declares
  · exact absurd sets (by decide)
  · obtain ⟨family, found⟩ := Option.isSome_iff_exists.mp registers
    have listed := Family.method_mem_of_find? found
    cases family <;> exact absurd listed (by decide)

theorem lt_of_known {n : Node} (ordered : n.IsOrdered) {path : List String} {space method : String}
    (lowered : (m.lower n).path? = some path) (ends : [space, method] <:+ path)
    (known : IsKnown space method) : n.start < n.stop := by
  obtain ⟨front, rfl⟩ := ends
  refine lt_of_path? ordered lowered ?_ (ne_empty_of_isKnown known)
  rw [List.getLast?_append]
  rfl

/-- A call by a known method is not empty. -/
theorem lt_of_names {call : Node} (ordered : call.IsOrdered) {space method : String}
    (names : m.Names call space method) (known : IsKnown space method) :
    call.start < call.stop := by
  obtain ⟨callee, path, called, lowered, ends⟩ := names
  have member : callee ∈ call.children := List.mem_of_find?_eq_some called
  have inside := Node.isOrdered_iff.mp ordered
  exact inside.lt_of_mem member (lt_of_known (inside.of_mem member).2.2 lowered ends known)

/-- Nor is a decorator that registers without a call. -/
theorem lt_of_bareDecorator? {n : Node} (ordered : n.IsOrdered) {function : String}
    {found : Finding} (recorded : m.bareDecorator? function n = some found) : n.start < n.stop := by
  obtain ⟨⟨family, method⟩, registers, -⟩ := Option.map_eq_some_iff.mp recorded
  obtain ⟨space, named, known⟩ := registering?_eq_some_iff.mp registers
  obtain ⟨path, lowered, ends⟩ := Option.bind_eq_some_iff.mp named
  exact lt_of_known ordered lowered (lastTwo?_eq_some_iff.mp ends)
    (.inr (.inr (Option.isSome_iff_exists.mpr ⟨family, known⟩)))

/-! ### Recorded nodes -/

/-- The finding was recorded of this node: a call, or a decorator that is not called. -/
def Marks (m : SourceModule) (n : Node) (found : Finding) : Prop :=
  m.Records n found ∨ ∃ function, m.bareDecorator? function n = some found

theorem offset?_of_marks {n : Node} {found : Finding} (marks : m.Marks n found) :
    found.offset? = some n.start := by
  rcases marks with records | ⟨function, recorded⟩
  · exact offset?_of_records records
  · obtain ⟨_, _, rfl⟩ := Option.map_eq_some_iff.mp recorded
    rfl

/-- What is recorded among the findings is recorded of some of the nodes, which are not empty and
stand between two offsets, one behind the other. -/
def Spans (m : SourceModule) (nodes : List Node) (start stop : Nat) (found : List Finding) : Prop :=
  ∃ marked : List Node,
    (∀ n ∈ marked, n ∈ nodes ∧ start ≤ n.start ∧ n.start < n.stop ∧ n.stop ≤ stop) ∧
      marked.Pairwise (fun n later => n.stop ≤ later.start) ∧
      List.Forall₂ m.Marks marked (found.filter (·.offset?.isSome))

namespace Spans

variable {nodes others : List Node} {start middle stop : Nat} {found later : List Finding}

/-- Names are not recorded. -/
theorem names {nodes : List Node} (areNames : ∀ finding ∈ found, finding.IsName) :
    m.Spans nodes start stop found := by
  have nothing : found.filter (·.offset?.isSome) = [] := by
    rw [List.filter_eq_nil_iff]
    intro finding member
    have name := areNames finding member
    cases finding with
    | registration _ | declaration _ | globalCall _ => cases name
    | localName _ | importedName _ => simp [Finding.offset?]
  exact ⟨[], by simp, .nil, nothing ▸ .nil⟩

theorem one {n : Node} {finding : Finding} (marks : m.Marks n finding) (member : n ∈ nodes)
    (filled : n.start < n.stop) (before : start ≤ n.start) (behind : n.stop ≤ stop) :
    m.Spans nodes start stop [finding] := by
  have recorded : [finding].filter (·.offset?.isSome) = [finding] := by
    simp [offset?_of_marks marks]
  refine ⟨[n], ?_, List.pairwise_singleton .., ?_⟩
  · rintro _ (_ | ⟨_, ⟨⟩⟩)
    exact ⟨member, before, filled, behind⟩
  · rw [recorded]
    exact .cons marks .nil

theorem append (spans : m.Spans nodes start middle found)
    (behind : m.Spans others middle stop later) (first : start ≤ middle) (last : middle ≤ stop) :
    m.Spans (nodes ++ others) start stop (found ++ later) := by
  obtain ⟨marked, inside, apart, recorded⟩ := spans
  obtain ⟨marked', inside', apart', recorded'⟩ := behind
  refine ⟨marked ++ marked', ?_, ?_, ?_⟩
  · rw [List.forall_mem_append]
    constructor
    · intro n member
      obtain ⟨there, before, filled, end'⟩ := inside n member
      exact ⟨List.mem_append_left _ there, before, filled, by omega⟩
    · intro n member
      obtain ⟨there, before, filled, end'⟩ := inside' n member
      exact ⟨List.mem_append_right _ there, by omega, filled, end'⟩
  · rw [List.pairwise_append]
    refine ⟨apart, apart', fun n member n' member' => ?_⟩
    have ends := (inside n member).2.2.2
    have starts := (inside' n' member').2.1
    omega
  · rw [List.filter_append]
    exact List.rel_append recorded recorded'

theorem mono {first last : Nat} (spans : m.Spans nodes start stop found)
    (more : ∀ n ∈ nodes, n ∈ others) (before : first ≤ start) (behind : stop ≤ last) :
    m.Spans others first last found := by
  obtain ⟨marked, inside, apart, recorded⟩ := spans
  refine ⟨marked, fun n member => ?_, apart, recorded⟩
  obtain ⟨there, starts, filled, ends⟩ := inside n member
  exact ⟨more n there, by omega, filled, by omega⟩

theorem followed {first : Nat} (spans : m.Spans nodes start middle found) (before : first ≤ start)
    (filled : start ≤ middle) (behind : m.Spans others middle stop later) (last : middle ≤ stop) :
    m.Spans (nodes ++ others) first stop (found ++ later) :=
  (spans.mono (fun _ => id) before (Nat.le_refl _)).append behind (by omega) last

/-- Names are found besides. -/
theorem besides {names : List Finding} (areNames : ∀ finding ∈ names, finding.IsName)
    (spans : m.Spans nodes start stop found) (ordered : start ≤ stop) :
    m.Spans nodes start stop (names ++ found) := by
  have nothing : m.Spans [] start start names := .names areNames
  simpa using nothing.append spans (Nat.le_refl _) ordered

end Spans

/-- A recorded call stands in its own range. -/
theorem spans_recorded {n : Node} {binding : Option String} {found : Finding} {nodes : List Node}
    {start stop : Nat} (recorded : m.recorded? n binding = some found)
    (between : start ≤ n.start ∧ n.stop ≤ stop ∧ n.IsOrdered) (member : n ∈ nodes) :
    m.Spans nodes start stop [found] := by
  obtain ⟨before, behind, ordered⟩ := between
  obtain ⟨space, method, names, known⟩ := exists_recorded?_iff.mp ⟨found, recorded⟩
  exact .one (.inl (records_of_recorded? recorded).2) member (lt_of_names ordered names known)
    before behind

mutual

theorem spans_findings (m : SourceModule) : ∀ n : Node, n.IsOrdered →
    m.Spans n.subtrees n.start n.stop (m.findings n)
  | .mk kind role start stop children, ordered => by
    have inside := Node.isOrdered_iff.mp ordered
    have below : ∀ n ∈ Node.subtreesAll children,
        n ∈ (Node.mk kind role start stop children).subtrees := by
      intro n member
      rw [Node.subtrees]
      exact List.mem_cons_of_mem _ member
    have searched : m.Spans (Node.mk kind role start stop children).subtrees start stop
        (m.findingsAll children) :=
      (spans_findingsAll m children start stop inside).mono below (Nat.le_refl _) (Nat.le_refl _)
    unfold findings
    dsimp only
    split
    · exact (spans_findingsDecorated m _ children start stop inside).mono below (Nat.le_refl _)
        (Nat.le_refl _)
    · split
      · exact spans_recorded ‹_› ⟨Nat.le_refl _, Nat.le_refl _, ordered⟩ (Node.self_mem_subtrees _)
      · exact searched
    · split
      · rename_i found assigned
        obtain ⟨i, value, -, there, ⟨-, space, method, names, known⟩, -, records⟩ :=
          exists_of_assignedCall? assigned
        have member : value ∈ children := List.mem_of_getElem? there
        obtain ⟨before, behind, own⟩ := inside.of_mem member
        have filled := lt_of_names own names known
        exact .besides m.ownNames_isName (.one (.inl records)
          (Node.mem_subtrees_of_child member value.self_mem_subtrees) filled before behind) inside.le
      · exact .besides m.ownNames_isName searched inside.le
    · exact .besides m.ownNames_isName searched inside.le

theorem spans_findingsAll (m : SourceModule) : ∀ (nodes : List Node) (start stop : Nat),
    Node.AreOrdered start stop nodes →
      m.Spans (Node.subtreesAll nodes) start stop (m.findingsAll nodes)
  | [], _, _, _ => by
    rw [findingsAll]
    exact .names (by simp)
  | n :: ns, start, stop, ordered => by
    rw [Node.AreOrdered] at ordered
    obtain ⟨before, own, behind⟩ := ordered
    rw [findingsAll, Node.subtreesAll]
    exact (spans_findings m n own).followed before own.start_le_stop
      (spans_findingsAll m ns n.stop stop behind) behind.le

theorem spans_findingsDecorated (m : SourceModule) (function : String) :
    ∀ (parts : List Node) (start stop : Nat), Node.AreOrdered start stop parts →
      m.Spans (Node.subtreesAll parts) start stop (m.findingsDecorated function parts)
  | [], _, _, _ => by
    rw [findingsDecorated]
    exact .names (by simp)
  | .mk kind role start' stop' children :: ns, start, stop, ordered => by
    rw [Node.AreOrdered] at ordered
    obtain ⟨before, own, behind⟩ := ordered
    rw [findingsDecorated, Node.subtreesAll]
    have first : m.Spans (Node.mk kind role start' stop' children).subtrees start' stop'
        (if kind = .decorator then m.findingsDecorator function children
          else m.findings (.mk kind role start' stop' children)) := by
      split
      · refine (spans_findingsDecorator m function children start' stop'
          (Node.isOrdered_iff.mp own)).mono ?_ (Nat.le_refl _) (Nat.le_refl _)
        intro n member
        rw [Node.subtrees]
        exact List.mem_cons_of_mem _ member
      · exact spans_findings m (.mk kind role start' stop' children) own
    exact first.followed before own.start_le_stop
      (spans_findingsDecorated m function ns stop' stop behind) behind.le

theorem spans_findingsDecorator (m : SourceModule) (function : String) :
    ∀ (parts : List Node) (start stop : Nat), Node.AreOrdered start stop parts →
      m.Spans (Node.subtreesAll parts) start stop (m.findingsDecorator function parts)
  | [], _, _, _ => by
    rw [findingsDecorator]
    exact .names (by simp)
  | n :: later, start, stop, ordered => by
    rw [Node.AreOrdered] at ordered
    obtain ⟨before, own, behind⟩ := ordered
    have first : m.Spans n.subtrees n.start n.stop (m.findings n) := spans_findings m n own
    have self := n.self_mem_subtrees
    rw [findingsDecorator, Node.subtreesAll]
    suffices own : m.Spans n.subtrees n.start n.stop (m.findingsDecorator function (n :: later)) by
      rw [findingsDecorator] at own
      exact own.mono (fun _ => List.mem_append_left _) before behind.le
    rw [findingsDecorator]
    split
    · split
      · obtain ⟨-, records, space, method, names, known⟩ := records_of_calledDecorator? ‹_›
        exact .one (.inl records) self (lt_of_names own names known) (Nat.le_refl _) (Nat.le_refl _)
      · exact first
    · cases recorded : m.bareDecorator? function n with
      | none => exact .names (by simp)
      | some found =>
        have filled := lt_of_bareDecorator? own recorded
        exact .one (.inr ⟨function, recorded⟩) self filled (Nat.le_refl _) (Nat.le_refl _)
    · exact first

end

end SourceModule

end DeployManifest
