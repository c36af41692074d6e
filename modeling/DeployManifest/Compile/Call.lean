import DeployManifest.Compile.Error
import DeployManifest.Eval.Literal
import DeployManifest.Scan.Basic

/-! # The arguments of a registration

A registration has an address, if its family is addressed, a handler, and options. Each argument is
given its part here; none is evaluated yet. The handler is looked at only for the name that the
function is exported under.
-/

namespace DeployManifest

structure OptionArgument where
  name : String
  value : Expr
  /-- Where the keyword stands. -/
  location : Location

structure Address where
  value : String
  location : Location
  deriving DecidableEq

/-- A registration whose arguments have been given their parts. -/
structure BoundCall where
  site : Registration
  address : Option Address
  /-- The options in source order, without those that are `None`. -/
  options : List OptionArgument
  /-- The name that the function is exported under, if one can be seen. -/
  entryPoint : Option String

namespace Registration

/-- The error that a registration has no known shape. -/
def shapeError (r : Registration) (location : Location) (fault : ShapeFault) : CompileError :=
  .shape location r.name fault

/-- The arguments by kind: the positional ones, and those with keywords. -/
structure Arguments where
  positional : List Expr
  keywords : List OptionArgument

namespace Arguments

/-- The first argument with a keyword. -/
def keyword? (args : Arguments) (name : String) : Option OptionArgument :=
  args.keywords.find? (·.name == name)

end Arguments

/-- Adds an argument behind the others. -/
def addArgument (r : Registration) (args : Arguments) : Argument → Except CompileError Arguments
  | .positional value =>
    if args.keywords.isEmpty then .ok { args with positional := args.positional ++ [value] }
    else .error (r.shapeError value.location .positionalAfterKeyword)
  | .keyword name value location =>
    match args.keyword? name with
    | some _ => .error (r.shapeError location (.repeatedKeyword name))
    | none => .ok { args with keywords := args.keywords ++ [⟨name, value, location⟩] }
  | .splat location => .error (r.shapeError location .unpacking)

def arguments (r : Registration) : Except CompileError Arguments :=
  r.args.foldlM r.addArgument ⟨[], []⟩

/-- A value that is given either by position or by keyword, and the positional ones after it. -/
def takeEither (r : Registration) (fault : ShapeFault) (positional : List Expr)
    (keyword : Option OptionArgument) : Except CompileError (Option Expr × List Expr) :=
  match positional, keyword with
  | _ :: _, some k => .error (r.shapeError k.location fault)
  | e :: rest, none => .ok (some e, rest)
  | [], some k => .ok (some k.value, [])
  | [], none => .ok (none, [])

def required (r : Registration) (argument : String) (value : Option Expr) :
    Except CompileError Expr :=
  match value.filter (!·.isNone) with
  | some e => .ok e
  | none => .error (.missingArgument r.location r.name argument)

/-- The address, and the positional arguments after it. -/
def addressOf (r : Registration) (args : Arguments) :
    Except CompileError (Option Address × List Expr) :=
  match r.family.addressKeyword? with
  | none => .ok (none, args.positional)
  | some keyword => do
    let (value, rest) ← r.takeEither (.addressTwice keyword) args.positional (args.keyword? keyword)
    let e ← r.required keyword value
    match e.text? with
    | some text => return (some ⟨text, e.location⟩, rest)
    | none => throw (e.unsupported (.addressNotText keyword))

/-- The exported name, and the positional arguments after the handler. -/
def entryPointOf (r : Registration) (args : Arguments) (positional : List Expr) :
    Except CompileError (Option String × List Expr) :=
  match r.form with
  | .decorator function =>
    match positional.head?, args.keyword? "handler" with
    | some extra, _ => .error (r.shapeError extra.location .extraHandler)
    | none, some k => .error (r.shapeError k.location .handlerByKeyword)
    | none, none => .ok (some function, [])
  | .bareDecorator _ => .ok (none, positional)
  | .call binding => do
    let (value, rest) ← r.takeEither .handlerTwice positional (args.keyword? "handler")
    let handler ← r.required "handler" value
    return (binding.or handler.name?, rest)

/-- Is the keyword that of the address or the handler? -/
def isReserved (r : Registration) (keyword : String) : Bool :=
  r.family.addressKeyword? == some keyword || keyword == "handler"

/-- The options among the keywords: each has to be one of the family's. -/
def optionsOf (r : Registration) : List OptionArgument → Except CompileError (List OptionArgument)
  | [] => .ok []
  | k :: ks =>
    if r.isReserved k.name then r.optionsOf ks
    else if r.family.accepts k.name then do
      let rest ← r.optionsOf ks
      return if k.value.isNone then rest else k :: rest
    else .error (r.shapeError k.location (.unknownOption k.name r.family))

def bound (r : Registration) : Except CompileError BoundCall :=
  match r.form with
  | .bareDecorator _ => .error (r.shapeError r.location .decoratorNotCalled)
  | _ => do
    let args ← r.arguments
    let (address, positional) ← r.addressOf args
    let (entryPoint, positional) ← r.entryPointOf args positional
    match positional with
    | extra :: _ => throw (r.shapeError extra.location .tooManyPositional)
    | [] =>
      let options ← r.optionsOf args.keywords
      return ⟨r, address, options, entryPoint⟩

end Registration

namespace GlobalCall

/-- The error that a call sets no global options. -/
def shapeError (location : Location) (fault : ShapeFault) : CompileError :=
  .shape location "options.setGlobalOptions" fault

/-- Adds an option behind the others. `seen` are the keywords in front of it. -/
def options (seen : List String) : List Argument → Except CompileError (List OptionArgument)
  | [] => .ok []
  | .positional value :: _ => .error (shapeError value.location .positionalGlobal)
  | .splat location :: _ => .error (shapeError location .unpacking)
  | .keyword name value location :: rest =>
    if seen.contains name then .error (shapeError location (.repeatedKeyword name))
    else if Family.baseOptions.contains name then do
      let rest ← options (name :: seen) rest
      return if value.isNone then rest else ⟨name, value, location⟩ :: rest
    else .error (shapeError location (.unknownGlobal name))

/-- The options that the call sets, in source order, without those that are `None`. -/
def bound (g : GlobalCall) : Except CompileError (List OptionArgument) := options [] g.args

end GlobalCall

end DeployManifest
