import DeployManifest.Expr.Lower
import DeployManifest.Proofs.Scope.Statement

/-! # Parts of expressions

An expression may hold others: the items of a list, the keys and values of a mapping, the callee and
the arguments of a call. Each of them is what a node below stands for (`exists_of_holds`).
-/

namespace DeployManifest

/-- Does it hold no other expressions? -/
def ExprForm.isLeaf : ExprForm → Bool
  | .list _ => false
  | .dict _ => false
  | .call _ _ => false
  | _ => true

/-- The expression of an argument, unless it is unpacked. -/
def Argument.value? : Argument → Option Expr
  | .positional value => some value
  | .keyword _ value _ => some value
  | .splat _ => none

/-- The expression, or one inside it. -/
inductive Expr.Holds : Expr → Expr → Prop where
  | self (e : Expr) : Holds e e
  | item {e item inner : Expr} {items : List Expr} (list : e.form = .list items)
      (member : item ∈ items) (inside : Holds item inner) : Holds e inner
  | key {e inner : Expr} {entries : List (Expr × Expr)} {entry : Expr × Expr}
      (dict : e.form = .dict entries) (member : entry ∈ entries) (inside : Holds entry.1 inner) :
      Holds e inner
  | value {e inner : Expr} {entries : List (Expr × Expr)} {entry : Expr × Expr}
      (dict : e.form = .dict entries) (member : entry ∈ entries) (inside : Holds entry.2 inner) :
      Holds e inner
  | callee {e callee inner : Expr} {args : List Argument} (call : e.form = .call callee args)
      (inside : Holds callee inner) : Holds e inner
  | argument {e callee value inner : Expr} {args : List Argument} {arg : Argument}
      (call : e.form = .call callee args) (member : arg ∈ args) (given : arg.value? = some value)
      (inside : Holds value inner) : Holds e inner

namespace Node

/-- What holds of a node whenever it holds of its children holds of all nodes. -/
@[elab_as_elim]
theorem inductionOn {motive : Node → Prop} (n : Node)
    (step : ∀ n : Node, (∀ part ∈ n.children, motive part) → motive n) : motive n :=
  @Node.rec motive (fun nodes => ∀ part ∈ nodes, motive part)
    (fun kind role start stop children below => step (mk kind role start stop children) below)
    nofun (fun _ _ first rest => List.forall_mem_cons.mpr ⟨first, rest⟩) n

theorem child_mem_subtrees {n part : Node} (member : part ∈ n.children) : part ∈ n.subtrees :=
  mem_subtrees_of_child member part.self_mem_subtrees

theorem mem_subtrees_trans {n inner : Node} : ∀ {tree : Node}, n ∈ tree.subtrees →
    inner ∈ n.subtrees → inner ∈ tree.subtrees := by
  intro tree
  induction tree using inductionOn with
  | step tree ih =>
    intro inside below
    obtain ⟨kind, role, start, stop, children⟩ := tree
    rw [subtrees, List.mem_cons] at inside
    rcases inside with rfl | inside
    · exact below
    · obtain ⟨part, member, inside⟩ := exists_of_mem_subtreesAll inside
      exact mem_subtrees_of_child member (ih part member inside below)

end Node

namespace SourceModule

variable {m : SourceModule} {n : Node} {role : Role} {nodes : List Node}

/-! ### What is lowered -/

-- A call and a sign have no value without the part that they need.
theorem lower_call {start stop : Nat} {children : List Node} :
    m.lower (.mk .call role start stop children) =
      match m.lowerPart .function children with
      | some callee => m.exprAt start stop (.call callee (m.lowerCall children))
      | none => m.exprAt start stop .unsupported :=
  rfl

theorem lower_unaryOperator {start stop : Nat} {children : List Node} {sign : Char} :
    m.lower (.mk (.unaryOperator sign) role start stop children) =
      match m.lowerPart .argument children with
      | some operand => m.exprAt start stop (signed sign operand.form)
      | none => m.exprAt start stop .unsupported :=
  rfl

theorem lowerAll_eq_map (m : SourceModule) (nodes : List Node) :
    m.lowerAll nodes = nodes.map m.lower := by
  induction nodes with
  | nil => rfl
  | cons n nodes ih => rw [lowerAll, ih, List.map_cons]

theorem lowerPart_eq_map_find? (m : SourceModule) (role : Role) (nodes : List Node) :
    m.lowerPart role nodes = (nodes.find? (·.role == role)).map m.lower := by
  induction nodes with
  | nil => rfl
  | cons n nodes ih =>
    rw [lowerPart]
    by_cases first : n.role = role
    · rw [if_pos first, List.find?_cons_of_pos (by simpa using first), Option.map_some]
    · rw [if_neg first, List.find?_cons_of_neg (by simpa using first), ih]

theorem exists_of_lowerPart {e : Expr} (lowered : m.lowerPart role nodes = some e) :
    ∃ part ∈ nodes, m.lower part = e := by
  rw [lowerPart_eq_map_find?] at lowered
  obtain ⟨part, found, rfl⟩ := Option.map_eq_some_iff.mp lowered
  exact ⟨part, List.mem_of_find?_eq_some found, rfl⟩

/-- Parentheses stand for what is inside them, so what a node stands for is what a node stands for
that is none, unless it is unsupported. -/
theorem exists_bare (m : SourceModule) (n : Node) : ∃ bare ∈ n.subtrees, m.lower n = m.lower bare ∧
    (bare.kind = .parenthesizedExpression → (m.lower bare).form = .unsupported) := by
  induction n using Node.inductionOn with
  | step n ih =>
    by_cases parens : n.kind = .parenthesizedExpression
    · obtain ⟨kind, role, start, stop, children⟩ := n
      obtain rfl : kind = .parenthesizedExpression := parens
      rcases children with _ | ⟨only, _ | _⟩
      · exact ⟨_, Node.self_mem_subtrees _, rfl, fun _ => rfl⟩
      · obtain ⟨bare, inside, same, bounds⟩ := ih only (List.mem_singleton_self _)
        exact ⟨bare, Node.mem_subtrees_of_child (List.mem_singleton_self _) inside, same, bounds⟩
      · exact ⟨_, Node.self_mem_subtrees _, rfl, fun _ => rfl⟩
    · exact ⟨n, n.self_mem_subtrees, rfl, fun is => absurd is parens⟩

theorem exists_of_lowerEntries {entries : List (Expr × Expr)}
    (lowered : m.lowerEntries nodes = some entries) : ∀ entry ∈ entries, ∃ pair ∈ nodes,
      (∃ part ∈ pair.children, m.lower part = entry.1) ∧
        ∃ part ∈ pair.children, m.lower part = entry.2 := by
  induction nodes generalizing entries with
  | nil =>
    cases lowered
    nofun
  | cons n nodes ih =>
    obtain ⟨kind, role, start, stop, children⟩ := n
    rw [lowerEntries] at lowered
    split at lowered
    · split at lowered
      · rename_i key value others first second more
        cases lowered
        refine List.forall_mem_cons.mpr ⟨?_, fun entry member => ?_⟩
        · exact ⟨_, List.mem_cons_self .., exists_of_lowerPart first, exists_of_lowerPart second⟩
        · obtain ⟨pair, inside, parts⟩ := ih more entry member
          exact ⟨pair, List.mem_cons_of_mem _ inside, parts⟩
      · cases lowered
    · cases lowered

/-- The argument that a node stands for. -/
def argument (m : SourceModule) (n : Node) : Argument :=
  match n.kind with
  | .keywordArgument =>
    match m.lowerPart .value n.children with
    | some value => .keyword (m.partText .name n.children) value (m.location n.start)
    | none => .positional (m.lower n)
  | .listSplat => .splat (m.location n.start)
  | .dictionarySplat => .splat (m.location n.start)
  | _ => .positional (m.lower n)

theorem lowerArguments_eq_map (m : SourceModule) (nodes : List Node) :
    m.lowerArguments nodes = nodes.map m.argument := by
  induction nodes with
  | nil => rfl
  | cons n nodes ih =>
    obtain ⟨kind, role, start, stop, children⟩ := n
    rw [List.map_cons, ← ih]
    cases kind <;> rfl

/-- The arguments of a call: those of the first part that is called the arguments, where a
comprehension is one argument. -/
theorem lowerCall_eq (m : SourceModule) (nodes : List Node) :
    m.lowerCall nodes = match nodes.find? (·.role == .arguments) with
      | some n => if n.kind = .argumentList then n.children.map m.argument
        else [.positional (m.lower n)]
      | none => [] := by
  induction nodes with
  | nil => rfl
  | cons n nodes ih =>
    obtain ⟨kind, role, start, stop, children⟩ := n
    rw [lowerCall, lowerArguments_eq_map]
    by_cases first : role = .arguments
    · rw [if_pos first, List.find?_cons_of_pos (by simpa [Node.role] using first)]
      rfl
    · rw [if_neg first, List.find?_cons_of_neg (by simpa [Node.role] using first), ih]

theorem exists_of_value?_argument {e : Expr} (given : (m.argument n).value? = some e) :
    ∃ part ∈ n.subtrees, m.lower part = e := by
  have whole (same : some (m.lower n) = some e) : ∃ part ∈ n.subtrees, m.lower part = e :=
    ⟨n, n.self_mem_subtrees, Option.some.inj same⟩
  unfold argument at given
  split at given
  · split at given
    · rename_i value found
      cases given
      obtain ⟨part, member, same⟩ := exists_of_lowerPart found
      exact ⟨part, Node.child_mem_subtrees member, same⟩
    · exact whole given
  · cases given
  · cases given
  · exact whole given

theorem exists_of_lowerCall {e : Expr} {arg : Argument} (member : arg ∈ m.lowerCall nodes)
    (given : arg.value? = some e) : ∃ part ∈ nodes, ∃ inner ∈ part.subtrees, m.lower inner = e := by
  rw [lowerCall_eq] at member
  split at member
  · rename_i n found
    refine ⟨n, List.mem_of_find?_eq_some found, ?_⟩
    split at member
    · obtain ⟨part, inside, rfl⟩ := List.mem_map.mp member
      obtain ⟨inner, below, same⟩ := exists_of_value?_argument given
      exact ⟨inner, Node.mem_subtrees_of_child inside below, same⟩
    · obtain rfl := List.mem_singleton.mp member
      exact ⟨n, n.self_mem_subtrees, Option.some.inj given⟩
  · cases member

/-! ### What is held -/

theorem isLeaf_constant {α : Type} {form : α → ExprForm} {value : Option α}
    (leaf : ∀ a, (form a).isLeaf = true) : (constant form value).isLeaf = true := by
  cases value with
  | none => rfl
  | some a => exact leaf a

theorem isLeaf_signed (sign : Char) (operand : ExprForm) : (signed sign operand).isLeaf = true := by
  unfold signed
  split <;> rfl

theorem isLeaf_member (object : Option Expr) (name : String) :
    (SourceModule.member object name).isLeaf = true := by
  unfold SourceModule.member
  split <;> rfl

/-- What a node stands for that is no pair of parentheses: a list of what its parts stand for, a
mapping, a call, or an expression that holds no others. -/
theorem form_lower_cases (m : SourceModule) (n : Node) :
    n.kind = .parenthesizedExpression ∨
    (m.lower n).form = .list (n.children.map m.lower) ∨
    (∃ entries, m.lowerEntries n.children = some entries ∧ (m.lower n).form = .dict entries) ∨
    (∃ callee, m.lowerPart .function n.children = some callee ∧
      (m.lower n).form = .call callee (m.lowerCall n.children)) ∨
    (m.lower n).form.isLeaf = true := by
  obtain ⟨kind, role, start, stop, children⟩ := n
  -- The equation of `lower` is one by computation, so each kind is computed with.
  cases kind
  case parenthesizedExpression => exact .inl rfl
  case list | tuple => exact .inr (.inl (congrArg ExprForm.list (lowerAll_eq_map m children)))
  case dictionary =>
    cases found : m.lowerEntries children with
    | none =>
      refine .inr (.inr (.inr (.inr ?_)))
      change (constant ExprForm.dict (m.lowerEntries children)).isLeaf = true
      rw [found]
      rfl
    | some entries =>
      refine .inr (.inr (.inl ⟨entries, found, ?_⟩))
      change constant ExprForm.dict (m.lowerEntries children) = .dict entries
      rw [found]
      rfl
  case call =>
    cases found : m.lowerPart .function children with
    | none =>
      refine .inr (.inr (.inr (.inr ?_)))
      rw [lower_call, found]
      rfl
    | some callee =>
      refine .inr (.inr (.inr (.inl ⟨callee, found, ?_⟩)))
      rw [lower_call, found]
      rfl
  case unaryOperator sign =>
    refine .inr (.inr (.inr (.inr ?_)))
    rw [lower_unaryOperator]
    split
    · exact isLeaf_signed ..
    · rfl
  case member => exact .inr (.inr (.inr (.inr (isLeaf_member ..))))
  case integer | float | string | concatenatedString =>
    exact .inr (.inr (.inr (.inr (isLeaf_constant fun _ => rfl))))
  all_goals exact .inr (.inr (.inr (.inr rfl)))

/-- An expression that holds others is what a node below stands for that has them for parts. -/
theorem exists_of_holder {e : ExprForm} (form : (m.lower n).form = e) (holder : e.isLeaf = false) :
    ∃ bare ∈ n.subtrees, e = .list (bare.children.map m.lower) ∨
      (∃ entries, m.lowerEntries bare.children = some entries ∧ e = .dict entries) ∨
      ∃ callee, m.lowerPart .function bare.children = some callee ∧
        e = .call callee (m.lowerCall bare.children) := by
  obtain ⟨bare, inside, same, notParens⟩ := exists_bare m n
  rw [same] at form
  refine ⟨bare, inside, ?_⟩
  rcases form_lower_cases m bare with parens | list | ⟨entries, found, dict⟩ |
    ⟨callee, found, call⟩ | leaf
  · rw [← form, notParens parens] at holder
    cases holder
  · exact .inl (form.symm.trans list)
  · exact .inr (.inl ⟨entries, found, form.symm.trans dict⟩)
  · exact .inr (.inr ⟨callee, found, form.symm.trans call⟩)
  · rw [form, holder] at leaf
    cases leaf

theorem through {part bare : Node} {e : Expr} (inside : bare ∈ n.subtrees)
    (member : part ∈ bare.subtrees) (rest : ∃ last ∈ part.subtrees, m.lower last = e) :
    ∃ last ∈ n.subtrees, m.lower last = e := by
  obtain ⟨last, below, same⟩ := rest
  exact ⟨last, Node.mem_subtrees_trans inside (Node.mem_subtrees_trans member below), same⟩

/-- Every expression inside the one that a node stands for is what a node below stands for. -/
theorem exists_of_holds {e inner : Expr} (holds : e.Holds inner) (lowered : m.lower n = e) :
    ∃ part ∈ n.subtrees, m.lower part = inner := by
  induction holds generalizing n with
  | self e => exact ⟨n, n.self_mem_subtrees, lowered⟩
  | item list member _ ih =>
    subst lowered
    obtain ⟨bare, inside, holder⟩ := exists_of_holder list rfl
    obtain same | ⟨_, _, same⟩ | ⟨_, _, same⟩ := holder <;> cases same
    obtain ⟨part, child, lowered⟩ := List.mem_map.mp member
    exact through inside (Node.child_mem_subtrees child) (ih lowered)
  | key dict member _ ih =>
    subst lowered
    obtain ⟨bare, inside, holder⟩ := exists_of_holder dict rfl
    obtain same | ⟨_, found, same⟩ | ⟨_, _, same⟩ := holder <;> cases same
    obtain ⟨pair, child, ⟨part, below, lowered⟩, -⟩ := exists_of_lowerEntries found _ member
    exact through inside (Node.mem_subtrees_of_child child (Node.child_mem_subtrees below))
      (ih lowered)
  | value dict member _ ih =>
    subst lowered
    obtain ⟨bare, inside, holder⟩ := exists_of_holder dict rfl
    obtain same | ⟨_, found, same⟩ | ⟨_, _, same⟩ := holder <;> cases same
    obtain ⟨pair, child, -, part, below, lowered⟩ := exists_of_lowerEntries found _ member
    exact through inside (Node.mem_subtrees_of_child child (Node.child_mem_subtrees below))
      (ih lowered)
  | callee call _ ih =>
    subst lowered
    obtain ⟨bare, inside, holder⟩ := exists_of_holder call rfl
    obtain same | ⟨_, _, same⟩ | ⟨_, found, same⟩ := holder <;> cases same
    obtain ⟨part, child, lowered⟩ := exists_of_lowerPart found
    exact through inside (Node.child_mem_subtrees child) (ih lowered)
  | argument call member given _ ih =>
    subst lowered
    obtain ⟨bare, inside, holder⟩ := exists_of_holder call rfl
    obtain same | ⟨_, _, same⟩ | ⟨_, _, same⟩ := holder <;> cases same
    obtain ⟨part, child, inner, below, lowered⟩ := exists_of_lowerCall member given
    exact through inside (Node.mem_subtrees_of_child child below) (ih lowered)

end SourceModule

end DeployManifest
