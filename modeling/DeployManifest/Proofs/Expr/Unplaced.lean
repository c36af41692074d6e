import DeployManifest.Proofs.Expr.Lower
import Mathlib.Data.List.Forall2

/-! # Expressions up to their places

`Expr.unplaced` forgets where an expression stands. Nodes of two modules match if they differ in
their places alone; matching nodes stand for expressions that differ in theirs alone
(`unplaced_lower`).
-/

namespace DeployManifest

/-- The location that stands for any. -/
def Location.anywhere : Location := ⟨"", 0, 0⟩

mutual

/-- The expression without its places. -/
def Expr.unplaced : Expr → Expr
  | ⟨form, _, _, text⟩ => ⟨form.unplaced, .anywhere, 0, text⟩

def ExprForm.unplaced : ExprForm → ExprForm
  | .list items => .list (unplacedItems items)
  | .dict entries => .dict (unplacedEntries entries)
  | .call callee args => .call callee.unplaced (unplacedArguments args)
  | .bool value => .bool value
  | .int value => .int value
  | .float value => .float value
  | .text value => .text value
  | .none => .none
  | .name name => .name name
  | .path parts => .path parts
  | .unsupported => .unsupported

def Argument.unplaced : Argument → Argument
  | .positional value => .positional value.unplaced
  | .keyword name value _ => .keyword name value.unplaced .anywhere
  | .splat _ => .splat .anywhere

def unplacedItems : List Expr → List Expr
  | [] => []
  | item :: items => item.unplaced :: unplacedItems items

def unplacedEntry : Expr × Expr → Expr × Expr
  | (key, value) => (key.unplaced, value.unplaced)

def unplacedEntries : List (Expr × Expr) → List (Expr × Expr)
  | [] => []
  | entry :: entries => unplacedEntry entry :: unplacedEntries entries

def unplacedArguments : List Argument → List Argument
  | [] => []
  | arg :: args => arg.unplaced :: unplacedArguments args

end

theorem unplacedItems_eq_map (items : List Expr) :
    unplacedItems items = items.map (·.unplaced) := by
  induction items with
  | nil => rfl
  | cons item items ih => rw [unplacedItems, ih, List.map_cons]

theorem unplacedEntries_eq_map (entries : List (Expr × Expr)) :
    unplacedEntries entries = entries.map unplacedEntry := by
  induction entries with
  | nil => rfl
  | cons entry entries ih => rw [unplacedEntries, ih, List.map_cons]

theorem unplacedArguments_eq_map (args : List Argument) :
    unplacedArguments args = args.map (·.unplaced) := by
  induction args with
  | nil => rfl
  | cons arg args ih => rw [unplacedArguments, ih, List.map_cons]

/-- Names and paths are the same anywhere. -/
theorem path?_unplaced (e : Expr) : e.unplaced.path? = e.path? := by
  obtain ⟨form, location, offset, text⟩ := e
  cases form <;> rfl

theorem form_unplaced (e : Expr) : e.unplaced.form = e.form.unplaced := by
  obtain ⟨form, location, offset, text⟩ := e
  rfl

namespace SourceModule

variable {m m' : SourceModule}

/-! ### Nodes that match -/

/-- Nodes of two modules that differ in their places alone. -/
inductive Matches (m m' : SourceModule) : Node → Node → Prop where
  | mk {kind : NodeKind} {role : Role} {start stop start' stop' : Nat}
      {children children' : List Node}
      (text : m'.slice start' stop' = m.slice start stop)
      (parts : List.Forall₂ (Matches m m') children children') :
      Matches m m' (.mk kind role start stop children) (.mk kind role start' stop' children')

namespace Matches

variable {n n' : Node}

theorem kind (same : m.Matches m' n n') : n'.kind = n.kind := by
  cases same
  rfl

theorem role (same : m.Matches m' n n') : n'.role = n.role := by
  cases same
  rfl

theorem nodeText (same : m.Matches m' n n') : m'.nodeText n' = m.nodeText n := by
  cases same with
  | mk text parts => exact congrArg String.ofList text

theorem parts (same : m.Matches m' n n') :
    List.Forall₂ (m.Matches m') n.children n'.children := by
  cases same
  assumption

end Matches

variable {nodes nodes' : List Node}

/-- The first of the nodes with a property that does not depend on places. -/
theorem find?_matches (same : List.Forall₂ (m.Matches m') nodes nodes') {p : Node → Bool}
    (agrees : ∀ n n', m.Matches m' n n' → p n' = p n) :
    Option.Rel (m.Matches m') (nodes.find? p) (nodes'.find? p) := by
  induction same with
  | nil => exact .none
  | @cons n n' nodes nodes' first rest ih =>
    rw [List.find?_cons, List.find?_cons, agrees n n' first]
    split
    · exact .some first
    · exact ih

theorem findRole_matches (same : List.Forall₂ (m.Matches m') nodes nodes') (role : Role) :
    Option.Rel (m.Matches m') (nodes.find? (·.role == role)) (nodes'.find? (·.role == role)) :=
  find?_matches same fun _ _ matching => by rw [matching.role]

theorem partText_eq {role : Role} (first : Option.Rel (m.Matches m')
    (nodes.find? (·.role == role)) (nodes'.find? (·.role == role))) :
    m'.partText role nodes' = m.partText role nodes := by
  rw [partText, partText]
  generalize nodes.find? (·.role == role) = found, nodes'.find? (·.role == role) = found'
    at first ⊢
  cases first with
  | none => rfl
  | some matching => exact matching.nodeText

theorem partText_matches (same : List.Forall₂ (m.Matches m') nodes nodes') (role : Role) :
    m'.partText role nodes' = m.partText role nodes :=
  partText_eq (findRole_matches same role)

theorem joined_matches (same : List.Forall₂ (m.Matches m') nodes nodes') :
    m'.joined nodes' = m.joined nodes := by
  have pieces : nodes'.mapM (fun part => Constant.text? (m'.slice part.start part.stop)) =
      nodes.mapM fun part => Constant.text? (m.slice part.start part.stop) := by
    induction same with
    | nil => rfl
    | cons first rest ih =>
      cases first with
      | mk text parts =>
        rw [List.mapM_cons, List.mapM_cons, ih]
        simp only [Node.start, Node.stop, text]
  rw [joined, joined, pieces]

/-! ### What matching nodes stand for -/

theorem unplaced_exprAt {start stop start' stop' : Nat} {form form' : ExprForm}
    (text : m'.slice start' stop' = m.slice start stop) (same : form'.unplaced = form.unplaced) :
    (m'.exprAt start' stop' form').unplaced = (m.exprAt start stop form).unplaced := by
  simp only [exprAt, Expr.unplaced, text, same]

/-- Either there is no expression, or there are two that are the same up to places. -/
abbrev SameParts : Option Expr → Option Expr → Prop :=
  Option.Rel fun e e' => e'.unplaced = e.unplaced

theorem unplaced_signed (sign : Char) (form : ExprForm) :
    (signed sign form).unplaced = signed sign form.unplaced := by
  cases form <;> simp only [signed, ExprForm.unplaced] <;> split <;> rfl

theorem unplaced_member {object object' : Option Expr} (same : SameParts object object')
    (name : String) : (member object' name).unplaced = (member object name).unplaced := by
  cases same with
  | none => rfl
  | @some e e' same =>
    rw [member, member, Option.bind_some, Option.bind_some, ← path?_unplaced e', same,
      path?_unplaced]

/-- Arguments are the same up to places if the nodes are and their values are. -/
theorem unplaced_argument {n n' : Node} (same : m.Matches m' n n')
    (whole : (m'.lower n').unplaced = (m.lower n).unplaced)
    (value : SameParts (m.lowerPart .value n.children) (m'.lowerPart .value n'.children)) :
    (m'.argument n').unplaced = (m.argument n).unplaced := by
  have positional : (Argument.positional (m'.lower n')).unplaced =
      (Argument.positional (m.lower n)).unplaced := congrArg Argument.positional whole
  rw [argument, argument, same.kind]
  split
  · rw [partText_matches same.parts]
    generalize m.lowerPart .value n.children = first, m'.lowerPart .value n'.children = first'
      at value ⊢
    cases value with
    | none => exact positional
    | some same => exact congrArg (Argument.keyword _ · _) same
  · rfl
  · rfl
  · exact positional

mutual

/-- Matching nodes stand for the same, up to places. -/
theorem unplaced_lower : ∀ {n n' : Node}, m.Matches m' n n' →
    (m'.lower n').unplaced = (m.lower n).unplaced
  | .mk kind role start stop children, .mk _ _ start' stop' children', .mk text parts => by
    -- The equation of `lower` is one by computation, so each kind is computed with.
    cases kind
    case integer =>
      exact unplaced_exprAt text
        (congrArg (fun cs => (constant .int (Constant.integer? cs)).unplaced) text)
    case float =>
      exact unplaced_exprAt text
        (congrArg (fun cs => (constant .float (Constant.float? cs)).unplaced) text)
    case string =>
      exact unplaced_exprAt text (congrArg
        (fun cs => (constant .text ((Constant.text? cs).map String.ofList)).unplaced) text)
    case concatenatedString =>
      exact unplaced_exprAt text
        (congrArg (fun value => (constant .text value).unplaced) (joined_matches parts))
    case identifier =>
      exact unplaced_exprAt text (congrArg (fun cs => ExprForm.name (String.ofList cs)) text)
    case list | tuple =>
      refine unplaced_exprAt text (congrArg ExprForm.list ?_)
      rw [unplacedItems_eq_map, unplacedItems_eq_map, unplaced_lowerAll parts]
    case dictionary =>
      have entries := unplaced_lowerEntries parts
      refine unplaced_exprAt text ?_
      generalize m.lowerEntries children = found, m'.lowerEntries children' = found' at entries
      cases entries with
      | none => rfl
      | some same =>
        refine congrArg ExprForm.dict ?_
        rw [unplacedEntries_eq_map, unplacedEntries_eq_map, same]
    case parenthesizedExpression =>
      have items := unplaced_lowerAll parts
      rcases parts with _ | ⟨_, _ | _⟩
      · exact unplaced_exprAt text rfl
      · exact (List.cons.inj items).1
      · exact unplaced_exprAt text rfl
    case unaryOperator sign =>
      have operand := unplaced_lowerPart .argument parts
      rw [lower_unaryOperator, lower_unaryOperator]
      generalize m.lowerPart .argument children = found, m'.lowerPart .argument children' = found'
        at operand ⊢
      cases operand with
      | none => exact unplaced_exprAt text rfl
      | @some e e' same =>
        refine unplaced_exprAt text ?_
        rw [unplaced_signed, unplaced_signed, ← form_unplaced, ← form_unplaced, same]
    case member =>
      have object := unplaced_lowerPart .object parts
      refine unplaced_exprAt text ?_
      rw [partText_matches parts]
      exact unplaced_member object _
    case call =>
      have callee := unplaced_lowerPart .function parts
      have args := unplaced_lowerCall parts
      rw [lower_call, lower_call]
      generalize m.lowerPart .function children = found, m'.lowerPart .function children' = found'
        at callee ⊢
      cases callee with
      | none => exact unplaced_exprAt text rfl
      | some same =>
        refine unplaced_exprAt text ?_
        rw [ExprForm.unplaced, ExprForm.unplaced, unplacedArguments_eq_map,
          unplacedArguments_eq_map, same, args]
    all_goals exact unplaced_exprAt text rfl
termination_by structural n => n

theorem unplaced_lowerAll : ∀ {nodes nodes' : List Node},
    List.Forall₂ (m.Matches m') nodes nodes' →
    (m'.lowerAll nodes').map (·.unplaced) = (m.lowerAll nodes).map (·.unplaced)
  | [], [], .nil => rfl
  | n :: nodes, n' :: nodes', .cons first rest => by
    rw [lowerAll, lowerAll, List.map_cons, List.map_cons, unplaced_lower first,
      unplaced_lowerAll rest]
termination_by structural nodes => nodes

theorem unplaced_lowerPart : ∀ {nodes nodes' : List Node} (role : Role),
    List.Forall₂ (m.Matches m') nodes nodes' →
    SameParts (m.lowerPart role nodes) (m'.lowerPart role nodes')
  | [], [], _, .nil => .none
  | n :: nodes, n' :: nodes', role, .cons first rest => by
    rw [lowerPart, lowerPart, first.role]
    split
    · exact .some (unplaced_lower first)
    · exact unplaced_lowerPart role rest
termination_by structural nodes => nodes

theorem unplaced_lowerEntries : ∀ {nodes nodes' : List Node},
    List.Forall₂ (m.Matches m') nodes nodes' →
    Option.Rel (fun entries entries' => entries'.map unplacedEntry = entries.map unplacedEntry)
      (m.lowerEntries nodes) (m'.lowerEntries nodes')
  | [], [], .nil => .some rfl
  | .mk kind _ _ _ children :: nodes, .mk _ _ _ _ children' :: nodes',
      .cons (.mk _ parts) rest => by
    have key := unplaced_lowerPart .key parts
    have value := unplaced_lowerPart .value parts
    have others := unplaced_lowerEntries rest
    rw [lowerEntries, lowerEntries]
    split
    · generalize m.lowerPart .key children = k, m'.lowerPart .key children' = k' at key ⊢
      generalize m.lowerPart .value children = v, m'.lowerPart .value children' = v' at value ⊢
      generalize m.lowerEntries nodes = es, m'.lowerEntries nodes' = es' at others ⊢
      cases key with
      | none => exact .none
      | some key =>
        cases value with
        | none => exact .none
        | some value =>
          cases others with
          | none => exact .none
          | some others =>
            refine .some ?_
            rw [List.map_cons, List.map_cons, others, unplacedEntry, unplacedEntry, key, value]
    · exact .none
termination_by structural nodes => nodes

theorem unplaced_lowerCall : ∀ {nodes nodes' : List Node},
    List.Forall₂ (m.Matches m') nodes nodes' →
    (m'.lowerCall nodes').map (·.unplaced) = (m.lowerCall nodes).map (·.unplaced)
  | [], [], .nil => rfl
  | .mk kind role start stop children :: nodes, .mk _ _ start' stop' children' :: nodes',
      .cons (.mk text parts) rest => by
    rw [lowerCall, lowerCall]
    split
    · split
      · exact unplaced_lowerArguments parts
      · exact congrArg (fun e => [Argument.positional e]) (unplaced_lower (.mk text parts))
    · exact unplaced_lowerCall rest
termination_by structural nodes => nodes

theorem unplaced_lowerArguments : ∀ {nodes nodes' : List Node},
    List.Forall₂ (m.Matches m') nodes nodes' →
    (m'.lowerArguments nodes').map (·.unplaced) = (m.lowerArguments nodes).map (·.unplaced)
  | [], [], .nil => rfl
  | .mk kind role start stop children :: nodes, .mk _ _ start' stop' children' :: nodes',
      .cons (.mk text parts) rest => by
    have same : m.Matches m' (.mk kind role start stop children)
        (.mk kind role start' stop' children') := .mk text parts
    have given := unplaced_argument same (unplaced_lower same) (unplaced_lowerPart .value parts)
    have others := unplaced_lowerArguments rest
    simp only [lowerArguments_eq_map, List.map_cons] at others ⊢
    rw [given, others]
termination_by structural nodes => nodes

end

end SourceModule

end DeployManifest
