import DeployManifest.Address.Pattern
import DeployManifest.Files.Disk
import DeployManifest.Manifest.Basic
import DeployManifest.Tree.Recovery

/-! # What can be wrong with a source tree

Each error names its cause and the place that has to be changed. The wording stands in `reason` and
`message` alone; every message with a place begins with it.
-/

namespace DeployManifest

def singleQuoted (s : String) : String := "'" ++ s ++ "'"

def graveQuoted (s : String) : String := "\x60" ++ s ++ "\x60"

def SyntaxFault.reason : SyntaxFault → String
  | unexpected text => "unexpected " ++ graveQuoted text
  | missing kind => "missing " ++ graveQuoted kind

/-- Why a call is no registration or no setting of global options. -/
inductive ShapeFault where
  | decoratorNotCalled
  | positionalAfterKeyword
  | repeatedKeyword (keyword : String)
  | unpacking
  | addressTwice (keyword : String)
  | extraHandler
  | handlerByKeyword
  | handlerTwice
  | tooManyPositional
  | unknownOption (keyword : String) (family : Family)
  | positionalGlobal
  | unknownGlobal (keyword : String)
  deriving DecidableEq

def ShapeFault.reason : ShapeFault → String
  | decoratorNotCalled => "registration decorators must be called"
  | positionalAfterKeyword => "positional argument follows keyword argument"
  | repeatedKeyword keyword => "keyword " ++ singleQuoted keyword ++ " given more than once"
  | unpacking => "argument unpacking is not supported"
  | addressTwice keyword => singleQuoted keyword ++ " given both positionally and by keyword"
  | extraHandler => "decorator form takes the handler from the decorated function"
  | handlerByKeyword => "decorator form cannot also pass handler="
  | handlerTwice => "handler given both positionally and by keyword"
  | tooManyPositional => "too many positional arguments"
  | unknownOption keyword family =>
    "unknown option " ++ singleQuoted keyword ++ " for " ++ family.label ++ " triggers"
  | positionalGlobal => "global options are keyword-only"
  | unknownGlobal keyword => "unknown global option " ++ singleQuoted keyword

/-- Why an expression has no value. -/
inductive ValueFault where
  | addressNotText (keyword : String)
  | noneValue
  | functionCall
  | notConstant
  | notLiteral
  | dictionaryKey
  | unknownConstant
  | unknownMember
  | unknownMemory
  /-- The name of a parameter elsewhere has been assigned to. -/
  | shadowed (name param : String)
  | localVariable (name : String)
  | choiceArguments
  | conditionKind (name : String) (kind : ParamKind)
  | compositeBranch
  | nestedChoice
  | resetBranch
  | secretsNotList
  | secretItem
  deriving DecidableEq

def ValueFault.reason : ValueFault → String
  | addressNotText keyword => singleQuoted keyword ++ " must be a string literal"
  | noneValue => "None is only accepted as an omitted keyword"
  | functionCall => "function calls are not constant"
  | notConstant => "not a constant expression"
  | notLiteral => "expected a literal value"
  | dictionaryKey => "dictionary keys must be string literals"
  | unknownConstant => "not a known constant"
  | unknownMember => "unknown enum member"
  | unknownMemory => "unknown MemoryOption member"
  | shadowed name param =>
    graveQuoted name ++ " is assigned in this module and shadows parameter " ++ param
  | localVariable name => graveQuoted name ++ " is a local variable, not a declared parameter"
  | choiceArguments => "thenElse takes exactly two positional arguments"
  | conditionKind name kind =>
    "condition " ++ graveQuoted name ++ " is a " ++ kind.name ++ " parameter, not a boolean"
  | compositeBranch => "thenElse branches must be scalar literals or parameters"
  | nestedChoice => "nested thenElse is not supported"
  | resetBranch => "RESET_VALUE cannot be a thenElse branch"
  | secretsNotList => "secrets must be a list of secret parameters"
  | secretItem => "expected a secret parameter or its name"

/-- Why a value does not do for an option. Types are given by their names. -/
inductive OptionFault where
  | type (expected found : String)
  | paramKind (param : String) (kind : ParamKind) (expected : String)
  | listItem (found : String)
  | mapValue (key found : String)
  | notLiteralMap
  | memorySize (text : String)
  | egressWithoutConnector
  deriving DecidableEq

def OptionFault.reason : OptionFault → String
  | type expected found => "expected " ++ expected ++ ", got " ++ found
  | paramKind param kind expected =>
    "parameter " ++ param ++ " is " ++ kind.name ++ ", expected " ++ expected
  | listItem found => "expected a list of strings, found " ++ found
  | mapValue key found =>
    "value for " ++ singleQuoted key ++ " must be a string, got " ++ found
  | notLiteralMap => "expected a literal map of strings"
  | memorySize text => "unrecognized memory size " ++ singleQuoted text
  | egressWithoutConnector => "requires vpcConnector"

inductive ParamFault where
  | positional
  | unpacking
  | unexpectedKeyword (keyword : String)
  | repeatedKeyword (keyword : String)
  | missingName
  | nameNotText
  | malformedName (name : String)
  | secretDefault (name : String)
  | defaultType (kind : ParamKind) (name found : String)
  | notText (keyword : String)
  deriving DecidableEq

def ParamFault.reason : ParamFault → String
  | positional => "only the parameter name may be passed positionally"
  | unpacking => "argument unpacking is not supported in parameter declarations"
  | unexpectedKeyword keyword => "unexpected keyword " ++ singleQuoted keyword
  | repeatedKeyword keyword => singleQuoted keyword ++ " given more than once"
  | missingName => "missing parameter name"
  | nameNotText => "parameter name must be a string literal"
  | malformedName name =>
    "parameter name " ++ singleQuoted name ++ " must match ^[A-Z][A-Z0-9_]*$"
  | secretDefault name =>
    "secret parameter " ++ singleQuoted name ++ " cannot have a default"
  | defaultType kind name found =>
    "default for " ++ kind.name ++ " parameter " ++ singleQuoted name ++ " must be " ++ kind.name
      ++ ", got " ++ found
  | notText keyword => keyword ++ " must be a string literal"

/-- Why a source tree has no manifest. -/
inductive CompileError where
  /-- The text of a module is no program; what is wrong where is told by recovery. -/
  | malformed (m : SourceModule)
  /-- A file or directory of the tree cannot be read. -/
  | unreadable (path : Path) (cause : FileError)
  | missingArgument (location : Location) (call argument : String)
  | shape (location : Location) (call : String) (fault : ShapeFault)
  | unsupported (location : Location) (text : String) (fault : ValueFault)
  | invalidPattern (location : Location) (pattern : String) (cause : PatternError)
  | unknownParam (location : Location) (name : String)
  | invalidOption (location : Location) (option : String) (fault : OptionFault)
  | invalidParam (location : Location) (fault : ParamFault)
  | duplicateKey (duplicate : DuplicateKey)
  | duplicateParam (name : String) (first second : Location)
  | duplicateGlobals (first second : Location)
  deriving DecidableEq

namespace CompileError

/-- The place that has to be changed, where there is one; of two calls in conflict the second. -/
def location? (recovery : Recovery) : CompileError → Option Location
  | malformed m => (recovery.fault? m).map fun found => m.location found.1
  | unreadable _ _ => none
  | missingArgument location _ _ => some location
  | shape location _ _ => some location
  | unsupported location _ _ => some location
  | invalidPattern location _ _ => some location
  | unknownParam location _ => some location
  | invalidOption location _ _ => some location
  | invalidParam location _ => some location
  | duplicateKey duplicate => some duplicate.second
  | duplicateParam _ _ second => some second
  | duplicateGlobals _ second => some second

/-- What the message says behind its place. -/
def complaint (recovery : Recovery) : CompileError → String
  | malformed m =>
    "syntax error: " ++ ((recovery.fault? m).map fun found => found.2.reason).getD ""
  | unreadable path cause =>
    "IO error reading \"" ++ path.text ++ "\": " ++ cause.message
  | missingArgument _ call argument =>
    call ++ " is missing required argument " ++ singleQuoted argument
  | shape _ call fault => "unrecognized trigger shape for " ++ call ++ ": " ++ fault.reason
  | unsupported _ text fault =>
    "unsupported expression " ++ graveQuoted text ++ ": " ++ fault.reason
  | invalidPattern _ pattern cause =>
    "invalid pattern " ++ singleQuoted pattern ++ ": " ++ cause.reason
  | unknownParam _ name => "unknown parameter reference " ++ singleQuoted name
  | invalidOption _ option fault =>
    "invalid value for option " ++ singleQuoted option ++ ": " ++ fault.reason
  | invalidParam _ fault => "invalid parameter: " ++ fault.reason
  | duplicateKey duplicate => duplicate.complaint
  | duplicateParam name first _ =>
    "parameter " ++ singleQuoted name ++ " is already declared at " ++ first.text
  | duplicateGlobals first _ =>
    "setGlobalOptions may only be called once (first call at " ++ first.text ++ ")"

/-- The message: the place, if there is one, and what is wrong there. -/
def message (recovery : Recovery) (e : CompileError) : String :=
  match e.location? recovery with
  | some location => location.text ++ ": " ++ e.complaint recovery
  | none => e.complaint recovery

end CompileError

end DeployManifest
