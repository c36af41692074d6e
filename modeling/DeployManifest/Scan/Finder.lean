import DeployManifest.Expr.Lower
import DeployManifest.Scan.Basic
import DeployManifest.Tree.Module

/-! # Finding registrations

A source tree is searched from top to bottom. A call that registers, declares or sets options is
recorded with its arguments, which are not searched further; everything else is searched in depth.
-/

namespace DeployManifest.SourceModule

/-! ### Names that targets bind -/

mutual

/-- The names that a target binds: every identifier that is no part of an attribute or subscript. -/
def targetNames (m : SourceModule) : Node → List String
  | .mk kind role start stop children =>
    match kind with
    | .identifier => [m.nodeText (.mk kind role start stop children)]
    | .member => []
    | .subscript => []
    | _ => targetNamesAll m children

def targetNamesAll (m : SourceModule) : List Node → List String
  | [] => []
  | n :: ns => targetNames m n ++ targetNamesAll m ns

end

/-- The names that the first node in a part binds. -/
def boundIn (m : SourceModule) (role : Role) (nodes : List Node) : List Finding :=
  match nodes.find? (·.role == role) with
  | some target => (m.targetNames target).map .localName
  | none => []

/-- The text of the first node in a part, as a bound name. -/
def boundName (m : SourceModule) (role : Role) (nodes : List Node) : List Finding :=
  match nodes.find? (·.role == role) with
  | some n => [.localName (m.nodeText n)]
  | none => []

/-- The name that a parameter binds. With a star it binds one only if it has no type. -/
def parameterName (m : SourceModule) (n : Node) : List Finding :=
  match n.kind with
  | .identifier => [.localName (m.nodeText n)]
  | .defaultParameter => m.boundName .name n.children
  | .typedDefaultParameter => m.boundName .name n.children
  | _ =>
    match n.children.find? (·.kind == .identifier) with
    | some name => [.localName (m.nodeText name)]
    | none => []

/-- The name that a part of an import binds: the alias, or the first name of a dotted one. -/
def importName (m : SourceModule) (n : Node) : List Finding :=
  if n.role = .moduleName then []
  else
    match n.kind with
    | .aliasedImport => (n.child? .alias).toList.map fun given => .importedName (m.nodeText given)
    | .dottedName => n.children.head?.toList.map fun first => .importedName (m.nodeText first)
    | _ => []

/-! ### Calls that are recorded -/

/-- The last two names of a path. -/
def lastTwo? : List String → Option (String × String)
  | [] => none
  | [_] => none
  | [space, method] => some (space, method)
  | _ :: rest => lastTwo? rest

/-- The method that a callee names, after its namespace. -/
def methodOf? (m : SourceModule) (callee : Node) : Option (String × String) :=
  (m.lower callee).path?.bind lastTwo?

def registering? (m : SourceModule) (callee : Node) : Option (Family × String) :=
  match m.methodOf? callee with
  | some (space, method) => (Family.find? space method).map fun family => (family, method)
  | none => none

/-- The kind of the parameter that a method declares. -/
def declaring? (space method : String) : Option ParamKind :=
  if space = "params" then ParamKind.ofMethod? method else none

/-- What a call records, when its result goes by a name or by none. -/
def recorded? (m : SourceModule) (call : Node) (binding : Option String) : Option Finding :=
  match (call.child? .function).bind m.methodOf? with
  | none => none
  | some (space, method) =>
    let args := m.lowerCall call.children
    let location := m.location call.start
    match declaring? space method with
    | some kind => some (.declaration ⟨kind, binding, args, location, call.start⟩)
    | none =>
      if space = "options" ∧ method = "setGlobalOptions" then
        some (.globalCall ⟨args, location, call.start⟩)
      else
        (Family.find? space method).map fun family =>
          .registration ⟨family, method, args, .call binding, location, call.start⟩

def calledDecorator? (m : SourceModule) (function : String) (call : Node) : Option Finding :=
  ((call.child? .function).bind m.registering?).map fun (family, method) =>
    .registration ⟨family, method, m.lowerCall call.children, .decorator function,
      m.location call.start, call.start⟩

def bareDecorator? (m : SourceModule) (function : String) (n : Node) : Option Finding :=
  (m.registering? n).map fun (family, method) =>
    .registration ⟨family, method, [], .bareDecorator function, m.location n.start, n.start⟩

/-! ### The search -/

/-- The names that a node binds, apart from the nodes inside it. -/
def ownNames (m : SourceModule) (kind : NodeKind) (children : List Node) : List Finding :=
  match kind with
  | .assignment => m.boundIn .left children
  | .augmentedAssignment => m.boundIn .left children
  | .forStatement => m.boundIn .left children
  | .forInClause => m.boundIn .left children
  | .functionDefinition => m.boundName .name children
  | .classDefinition => m.boundName .name children
  | .parameters => children.flatMap m.parameterName
  | .lambdaParameters => children.flatMap m.parameterName
  | .importStatement => children.flatMap m.importName
  | .importFromStatement => children.flatMap m.importName
  | .asPatternTarget => (m.targetNamesAll children).map .localName
  | _ => []

/-- The name that an assignment gives to its value, if its target is one name. -/
def assignedName? (m : SourceModule) (children : List Node) : Option String :=
  match children.find? (·.role == .left) with
  | some target => if target.kind = .identifier then some (m.nodeText target) else none
  | none => none

def assignedCall? (m : SourceModule) (children : List Node) : Option Finding :=
  match children.find? (·.role == .right) with
  | some value =>
    if value.kind = .call then m.recorded? value (m.assignedName? children) else none
  | none => none

def decoratedName (m : SourceModule) (children : List Node) : String :=
  match children.find? (·.role == .definition) with
  | some definition => m.partText .name definition.children
  | none => ""

mutual

/-- What is found in a node. -/
def findings (m : SourceModule) : Node → List Finding
  | .mk kind role start stop children =>
    let own := m.ownNames kind children
    match kind with
    | .decoratedDefinition => findingsDecorated m (m.decoratedName children) children
    | .call =>
      match m.recorded? (.mk kind role start stop children) none with
      | some found => [found]
      | none => findingsAll m children
    | .assignment =>
      match m.assignedCall? children with
      | some found => own ++ [found]
      | none => own ++ findingsAll m children
    | _ => own ++ findingsAll m children

def findingsAll (m : SourceModule) : List Node → List Finding
  | [] => []
  | n :: ns => findings m n ++ findingsAll m ns

/-- What is found in the parts of a decorated definition. -/
def findingsDecorated (m : SourceModule) (function : String) : List Node → List Finding
  | [] => []
  | .mk kind role start stop children :: ns =>
    (if kind = .decorator then findingsDecorator m function children
      else findings m (.mk kind role start stop children))
      ++ findingsDecorated m function ns

/-- What is found in a decorator. A name or attribute that registers nothing holds nothing. -/
def findingsDecorator (m : SourceModule) (function : String) : List Node → List Finding
  | [] => []
  | n :: _ =>
    match n.kind with
    | .call =>
      match m.calledDecorator? function n with
      | some found => [found]
      | none => findings m n
    | .member => (m.bareDecorator? function n).toList
    | _ => findings m n

end

/-- Searches the module, unless its text is malformed. -/
def scan? (m : SourceModule) : Option ModuleScan :=
  (Node.ofText? m.text).map fun tree => ⟨m.name, m.findings tree⟩

end DeployManifest.SourceModule
