/-! # Source trees

A source tree has a node for each construct of a module. A node knows its kind, the part it plays
in the node above it, and the bytes of the source that it covers. Punctuation and comments are not
in the tree. Children stand in source order.
-/

namespace DeployManifest

/-- What a node stands for. -/
inductive NodeKind where
  -- modules and statements
  | module
  | block
  /-- Several simple statements on one line. -/
  | line
  | expressionStatement
  | assignment
  | augmentedAssignment
  | printStatement
  | execStatement
  | assertStatement
  | returnStatement
  | deleteStatement
  | raiseStatement
  | passStatement
  | breakStatement
  | continueStatement
  | globalStatement
  | nonlocalStatement
  | typeAliasStatement
  | importStatement
  | importFromStatement
  | futureImportStatement
  | relativeImport
  | wildcardImport
  | aliasedImport
  | dottedName
  | ifStatement
  | elifClause
  | elseClause
  | whileStatement
  | forStatement
  | tryStatement
  | exceptClause
  | exceptGroupClause
  | finallyClause
  | withStatement
  | withItem
  | matchStatement
  | caseClause
  | casePattern
  | functionDefinition
  | classDefinition
  | decoratedDefinition
  | decorator
  -- parameters, targets and types
  | parameters
  | lambdaParameters
  | defaultParameter
  | typedParameter
  | typedDefaultParameter
  | keywordSeparator
  | positionalSeparator
  | listSplatPattern
  | dictionarySplatPattern
  | tuplePattern
  | listPattern
  | patternList
  | asPatternTarget
  | typeNode
  | typeParameter
  -- expressions
  | identifier
  | integer
  | float
  | true
  | false
  | none
  | ellipsis
  | string
  | concatenatedString
  | interpolation
  | list
  | tuple
  | set
  | dictionary
  | pair
  | listComprehension
  | setComprehension
  | dictionaryComprehension
  | generatorExpression
  | forInClause
  | ifClause
  | parenthesizedExpression
  | member
  | subscript
  | slice
  | call
  | argumentList
  | keywordArgument
  | listSplat
  | dictionarySplat
  /-- A sign or complement in front of its operand. -/
  | unaryOperator (sign : Char)
  | binaryOperator
  | comparisonOperator
  | booleanOperator
  | notOperator
  | conditionalExpression
  | lambda
  | namedExpression
  | await
  | yield
  | asPattern
  | expressionList
  /-- A backslash that joins two lines, unless a string or the end of the line follows. -/
  | joint
  deriving DecidableEq

/-- The part that a node plays in the one above it. -/
inductive Role where
  /-- A part without a name. -/
  | plain
  | left
  | right
  | name
  | alias
  | moduleName
  | value
  | key
  | function
  | arguments
  | argument
  | object
  | member
  | definition
  deriving DecidableEq

/-- A node of a source tree. -/
inductive Node where
  | mk (kind : NodeKind) (role : Role) (start stop : Nat) (children : List Node)

namespace Node

def kind : Node → NodeKind
  | mk kind _ _ _ _ => kind

def role : Node → Role
  | mk _ role _ _ _ => role

/-- The offset of the first byte. -/
def start : Node → Nat
  | mk _ _ start _ _ => start

/-- The offset after the last byte. -/
def stop : Node → Nat
  | mk _ _ _ stop _ => stop

def children : Node → List Node
  | mk _ _ _ _ children => children

def withRole (role : Role) : Node → Node
  | mk kind _ start stop children => mk kind role start stop children

def withKind (kind : NodeKind) : Node → Node
  | mk _ role start stop children => mk kind role start stop children

def child? (role : Role) (n : Node) : Option Node := n.children.find? (·.role == role)

end Node

end DeployManifest
