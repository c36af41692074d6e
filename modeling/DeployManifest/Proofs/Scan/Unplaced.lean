import DeployManifest.Proofs.Expr.Unplaced
import DeployManifest.Proofs.Scan.Call

/-! # What is found, up to places

A search of matching nodes finds the same up to places: `unplaced_findings`.
-/

namespace DeployManifest

/-- The registration without its places. -/
def Registration.unplaced (r : Registration) : Registration :=
  { r with args := r.args.map (·.unplaced), location := .anywhere, offset := 0 }

/-- The declaration without its places. -/
def Declaration.unplaced (d : Declaration) : Declaration :=
  { d with args := d.args.map (·.unplaced), location := .anywhere, offset := 0 }

/-- The call without its places. -/
def GlobalCall.unplaced (g : GlobalCall) : GlobalCall :=
  { args := g.args.map (·.unplaced), location := .anywhere, offset := 0 }

namespace Finding

/-- What is found, without its places. -/
def unplaced : Finding → Finding
  | .registration r => .registration r.unplaced
  | .declaration d => .declaration d.unplaced
  | .globalCall g => .globalCall g.unplaced
  | .localName name => .localName name
  | .importedName name => .importedName name

theorem IsName.unplaced {found : Finding} (name : found.IsName) : found.unplaced = found := by
  cases found with
  | registration _ | declaration _ | globalCall _ => cases name
  | localName _ | importedName _ => rfl

end Finding

namespace SourceModule

variable {m m' : SourceModule} {n n' : Node} {nodes nodes' : List Node}

/-! ### Names -/

mutual

theorem targetNames_matches : ∀ {n n' : Node}, m.Matches m' n n' →
    m'.targetNames n' = m.targetNames n
  | .mk kind role start stop children, .mk _ _ start' stop' children', .mk text parts => by
    have same : m.Matches m' (.mk kind role start stop children)
        (.mk kind role start' stop' children') := .mk text parts
    unfold targetNames
    split
    · rw [same.nodeText]
    · rfl
    · rfl
    · exact targetNamesAll_matches parts
termination_by structural n => n

theorem targetNamesAll_matches : ∀ {nodes nodes' : List Node},
    List.Forall₂ (m.Matches m') nodes nodes' → m'.targetNamesAll nodes' = m.targetNamesAll nodes
  | [], [], .nil => rfl
  | n :: nodes, n' :: nodes', .cons first rest => by
    rw [targetNamesAll, targetNamesAll, targetNames_matches first, targetNamesAll_matches rest]
termination_by structural nodes => nodes

end

/-- What is told by the first node in a part is the same if these nodes match. -/
theorem boundIn_eq {role : Role} (first : Option.Rel (m.Matches m')
    (nodes.find? (·.role == role)) (nodes'.find? (·.role == role))) :
    m'.boundIn role nodes' = m.boundIn role nodes := by
  rw [boundIn, boundIn]
  generalize nodes.find? (·.role == role) = found, nodes'.find? (·.role == role) = found' at first ⊢
  cases first with
  | none => rfl
  | some same => exact congrArg (List.map _) (targetNames_matches same)

theorem boundName_eq {role : Role} (first : Option.Rel (m.Matches m')
    (nodes.find? (·.role == role)) (nodes'.find? (·.role == role))) :
    m'.boundName role nodes' = m.boundName role nodes := by
  rw [boundName, boundName]
  generalize nodes.find? (·.role == role) = found, nodes'.find? (·.role == role) = found' at first ⊢
  cases first with
  | none => rfl
  | some same => exact congrArg (fun name => [Finding.localName name]) same.nodeText

theorem parameterName_matches (same : m.Matches m' n n') :
    m'.parameterName n' = m.parameterName n := by
  have name := boundName_eq (findRole_matches same.parts .name)
  rw [parameterName, parameterName, same.kind]
  split
  · rw [same.nodeText]
  · exact name
  · exact name
  · have first := find?_matches same.parts (p := (·.kind == .identifier))
      fun _ _ matching => by rw [matching.kind]
    generalize n.children.find? (·.kind == .identifier) = found,
      n'.children.find? (·.kind == .identifier) = found' at first ⊢
    cases first with
    | none => rfl
    | some same => exact congrArg (fun name => [Finding.localName name]) same.nodeText

theorem importName_matches (same : m.Matches m' n n') : m'.importName n' = m.importName n := by
  rw [importName, importName, same.role, same.kind]
  split
  · rfl
  · split
    · have given := findRole_matches same.parts .alias
      rw [Node.child?, Node.child?]
      generalize n.children.find? (·.role == .alias) = found,
        n'.children.find? (·.role == .alias) = found' at given ⊢
      cases given with
      | none => rfl
      | some same => exact congrArg (fun name => [Finding.importedName name]) same.nodeText
    · have parts := same.parts
      generalize n.children = children, n'.children = children' at parts ⊢
      cases parts with
      | nil => rfl
      | cons first rest => exact congrArg (fun name => [Finding.importedName name]) first.nodeText
    · rfl

theorem flatMap_matches {f f' : Node → List Finding}
    (same : List.Forall₂ (m.Matches m') nodes nodes')
    (agrees : ∀ n n', m.Matches m' n n' → f' n' = f n) : nodes'.flatMap f' = nodes.flatMap f := by
  induction same with
  | nil => rfl
  | cons first rest ih => rw [List.flatMap_cons, List.flatMap_cons, ih, agrees _ _ first]

theorem ownNames_matches (same : List.Forall₂ (m.Matches m') nodes nodes') (kind : NodeKind) :
    m'.ownNames kind nodes' = m.ownNames kind nodes := by
  have left := boundIn_eq (findRole_matches same .left)
  have name := boundName_eq (findRole_matches same .name)
  unfold ownNames
  split
  · exact left
  · exact left
  · exact left
  · exact left
  · exact name
  · exact name
  · exact flatMap_matches same fun _ _ => parameterName_matches
  · exact flatMap_matches same fun _ _ => parameterName_matches
  · exact flatMap_matches same fun _ _ => importName_matches
  · exact flatMap_matches same fun _ _ => importName_matches
  · rw [targetNamesAll_matches same]
  · rfl

theorem assignedName?_eq (first : Option.Rel (m.Matches m')
    (nodes.find? (·.role == .left)) (nodes'.find? (·.role == .left))) :
    m'.assignedName? nodes' = m.assignedName? nodes := by
  rw [assignedName?, assignedName?]
  generalize nodes.find? (·.role == .left) = found, nodes'.find? (·.role == .left) = found'
    at first ⊢
  cases first with
  | none => rfl
  | some same =>
    dsimp only
    rw [same.kind, same.nodeText]

theorem decoratedName_eq (first : Option.Rel (m.Matches m')
    (nodes.find? (·.role == .definition)) (nodes'.find? (·.role == .definition))) :
    m'.decoratedName nodes' = m.decoratedName nodes := by
  rw [decoratedName, decoratedName]
  generalize nodes.find? (·.role == .definition) = found,
    nodes'.find? (·.role == .definition) = found' at first ⊢
  cases first with
  | none => rfl
  | some same => exact partText_matches same.parts .name

theorem decoratedName_matches (same : List.Forall₂ (m.Matches m') nodes nodes') :
    m'.decoratedName nodes' = m.decoratedName nodes :=
  decoratedName_eq (findRole_matches same .definition)

/-! ### Calls -/

theorem methodOf?_matches (same : m.Matches m' n n') : m'.methodOf? n' = m.methodOf? n := by
  rw [methodOf?, methodOf?, ← path?_unplaced, unplaced_lower same, path?_unplaced]

theorem registering?_matches (same : m.Matches m' n n') :
    m'.registering? n' = m.registering? n := by
  rw [registering?, registering?, methodOf?_matches same]

/-- Either nothing is found, or the same up to places. -/
abbrev SameFound : Option Finding → Option Finding → Prop :=
  Option.Rel fun found found' => found'.unplaced = found.unplaced

theorem sameFound_of_map {found found' : Option Finding}
    (same : found'.map (·.unplaced) = found.map (·.unplaced)) : SameFound found found' := by
  cases found with
  | none =>
    obtain rfl := Option.map_eq_none_iff.mp same
    exact .none
  | some found =>
    cases found' with
    | none => cases same
    | some found' => exact .some (Option.some.inj same)

/-- What depends on the callee of a call, but not on its place. -/
theorem callee_bind_matches {α : Type} {f f' : Node → Option α} (same : m.Matches m' n n')
    (agrees : ∀ n n', m.Matches m' n n' → f' n' = f n) :
    (n'.child? .function).bind f' = (n.child? .function).bind f := by
  have first := findRole_matches same.parts .function
  rw [Node.child?, Node.child?]
  generalize n.children.find? (·.role == .function) = found,
    n'.children.find? (·.role == .function) = found' at first ⊢
  cases first with
  | none => rfl
  | some same => exact agrees _ _ same

theorem unplaced_recorded? (same : m.Matches m' n n') (binding : Option String) :
    SameFound (m.recorded? n binding) (m'.recorded? n' binding) := by
  have args := unplaced_lowerCall same.parts
  refine sameFound_of_map ?_
  rw [recorded?, recorded?, callee_bind_matches same fun _ _ => methodOf?_matches]
  cases (n.child? .function).bind m.methodOf? with
  | none => rfl
  | some named =>
    obtain ⟨space, method⟩ := named
    dsimp only
    split
    · simp only [Option.map_some, Finding.unplaced, Declaration.unplaced, args]
    · split
      · simp only [Option.map_some, Finding.unplaced, GlobalCall.unplaced, args]
      · rw [Option.map_map, Option.map_map]
        refine congrArg (Option.map · _) (funext fun family => ?_)
        simp only [Function.comp_apply, Finding.unplaced, Registration.unplaced, args]

theorem unplaced_calledDecorator? (same : m.Matches m' n n') (function : String) :
    SameFound (m.calledDecorator? function n) (m'.calledDecorator? function n') := by
  have args := unplaced_lowerCall same.parts
  refine sameFound_of_map ?_
  rw [calledDecorator?, calledDecorator?, callee_bind_matches same fun _ _ => registering?_matches,
    Option.map_map, Option.map_map]
  refine congrArg (Option.map · _) (funext fun named => ?_)
  simp only [Function.comp_apply, Finding.unplaced, Registration.unplaced, args]

theorem unplaced_bareDecorator? (same : m.Matches m' n n') (function : String) :
    SameFound (m.bareDecorator? function n) (m'.bareDecorator? function n') := by
  refine sameFound_of_map ?_
  rw [bareDecorator?, bareDecorator?, registering?_matches same, Option.map_map, Option.map_map]
  rfl

/-- What the value of an assignment records is the same if targets and values match. -/
theorem unplaced_assignedCall? (same : List.Forall₂ (m.Matches m') nodes nodes') :
    SameFound (m.assignedCall? nodes) (m'.assignedCall? nodes') := by
  have value := findRole_matches same .right
  rw [assignedCall?, assignedCall?, assignedName?_eq (findRole_matches same .left)]
  generalize nodes.find? (·.role == .right) = found, nodes'.find? (·.role == .right) = found'
    at value ⊢
  cases value with
  | none => exact .none
  | some same =>
    dsimp only
    rw [same.kind]
    split
    · exact unplaced_recorded? same _
    · exact .none

/-! ### The search -/

mutual

/-- In matching nodes the same is found, up to places. -/
theorem unplaced_findings : ∀ {n n' : Node}, m.Matches m' n n' →
    (m'.findings n').map (·.unplaced) = (m.findings n).map (·.unplaced)
  | .mk kind role start stop children, .mk _ _ start' stop' children', .mk text parts => by
    have same : m.Matches m' (.mk kind role start stop children)
        (.mk kind role start' stop' children') := .mk text parts
    have all := unplaced_findingsAll parts
    unfold findings
    dsimp only
    rw [ownNames_matches parts]
    split
    · rw [decoratedName_matches parts]
      exact unplaced_findingsDecorated _ parts
    · have recorded := unplaced_recorded? same none
      generalize m.recorded? _ none = found, m'.recorded? _ none = found' at recorded ⊢
      cases recorded with
      | none => exact all
      | some same => exact congrArg (fun found => [found]) same
    · have recorded := unplaced_assignedCall? parts
      generalize m.assignedCall? children = found, m'.assignedCall? children' = found'
        at recorded ⊢
      cases recorded with
      | none => rw [List.map_append, List.map_append, all]
      | some same => simp only [List.map_append, List.map_cons, List.map_nil, same]
    · rw [List.map_append, List.map_append, all]
termination_by structural n => n

theorem unplaced_findingsAll : ∀ {nodes nodes' : List Node},
    List.Forall₂ (m.Matches m') nodes nodes' →
    (m'.findingsAll nodes').map (·.unplaced) = (m.findingsAll nodes).map (·.unplaced)
  | [], [], .nil => rfl
  | n :: nodes, n' :: nodes', .cons first rest => by
    rw [findingsAll, findingsAll, List.map_append, List.map_append, unplaced_findings first,
      unplaced_findingsAll rest]
termination_by structural nodes => nodes

theorem unplaced_findingsDecorated (function : String) : ∀ {nodes nodes' : List Node},
    List.Forall₂ (m.Matches m') nodes nodes' →
    (m'.findingsDecorated function nodes').map (·.unplaced) =
      (m.findingsDecorated function nodes).map (·.unplaced)
  | [], [], .nil => rfl
  | .mk kind role start stop children :: nodes, .mk _ _ start' stop' children' :: nodes',
      .cons (.mk text parts) rest => by
    rw [findingsDecorated, findingsDecorated, List.map_append, List.map_append,
      unplaced_findingsDecorated function rest]
    refine congrArg (· ++ _) ?_
    split
    · exact unplaced_findingsDecorator function parts
    · exact unplaced_findings (.mk text parts)
termination_by structural nodes => nodes

theorem unplaced_findingsDecorator (function : String) : ∀ {nodes nodes' : List Node},
    List.Forall₂ (m.Matches m') nodes nodes' →
    (m'.findingsDecorator function nodes').map (·.unplaced) =
      (m.findingsDecorator function nodes).map (·.unplaced)
  | [], [], .nil => rfl
  | n :: nodes, n' :: nodes', .cons first rest => by
    have whole := unplaced_findings first
    rw [findingsDecorator, findingsDecorator, first.kind]
    split
    · have recorded := unplaced_calledDecorator? first function
      generalize m.calledDecorator? function n = found, m'.calledDecorator? function n' = found'
        at recorded ⊢
      cases recorded with
      | none => exact whole
      | some same => exact congrArg (fun found => [found]) same
    · have recorded := unplaced_bareDecorator? first function
      generalize m.bareDecorator? function n = found, m'.bareDecorator? function n' = found'
        at recorded ⊢
      cases recorded with
      | none => rfl
      | some same => exact congrArg (fun found => [found]) same
    · exact whole
termination_by structural nodes => nodes

end

end SourceModule

end DeployManifest
