import DeployManifest.Options.Memory
import DeployManifest.Param.Table

/-! # The types of options

Each option takes values of one type: literals of a kind, references to parameters of some kinds,
and choices whose sides both do. A reset does for every option. Some options bring other spellings
of a value into the one that the manifest has.
-/

namespace DeployManifest

/-- The values that an option takes. -/
structure FieldType where
  /-- The type as messages name it. -/
  name : String
  accepts : Literal → Bool
  /-- The kinds of the parameters that do. -/
  kinds : List ParamKind

namespace FieldType

def int : FieldType := ⟨"an integer", Literal.isInt, [.int]⟩

def number : FieldType := ⟨"a number", Literal.isNumber, [.int, .float]⟩

def boolean : FieldType := ⟨"a boolean", Literal.isBool, [.boolean]⟩

def string : FieldType := ⟨"a string", Literal.isText, [.string]⟩

/-- One of some texts. -/
def oneOf (allowed : List String) : FieldType :=
  ⟨"one of " ++ ", ".intercalate allowed, fun l => l.text?.any allowed.contains, [.string]⟩

/-- A number of processors, or the word for as many as the first generation has. -/
def cpu : FieldType :=
  ⟨"a number or \"gcf_gen1\"", fun l => l.isNumber || l.text? == some "gcf_gen1", [.int, .float]⟩

end FieldType

/-- An option at the place where it is written. -/
structure Field where
  params : ParamTable
  option : String
  location : Location

namespace Field

/-- The error that the value does not do. -/
def invalid (f : Field) (fault : OptionFault) : CompileError :=
  .invalidOption f.location f.option fault

/-- Accepts a parameter of one of some kinds; `expected` names the type in messages. -/
def checkParam (f : Field) (expected : String) (kinds : List ParamKind) (name : String) :
    Except CompileError Unit :=
  match f.params.get? name with
  | some p =>
    if kinds.contains p.kind then .ok ()
    else .error (f.invalid (.paramKind name p.kind expected))
  | none => .error (.unknownParam f.location name)

/-- Accepts a value of a type. -/
def check (f : Field) (type : FieldType) : Setting → Except CompileError Unit
  | .reset => .ok ()
  | .literal l =>
    if type.accepts l then .ok () else .error (f.invalid (.type type.name l.typeName))
  | .param name => f.checkParam type.name type.kinds name
  | .choice _ yes no => do
    f.check type yes
    f.check type no

def typed (f : Field) (type : FieldType) (value : Setting) : Except CompileError Setting := do
  f.check type value
  return value

/-- A list whose only item is the substitution text of a value. -/
def wrapped (value : Setting) : Setting := .texts [value.expression?.getD ""]

/-- A list of texts. A single text stands for the list of it; so does a reference or choice that
gives one. -/
def stringList (f : Field) (value : Setting) : Except CompileError Setting :=
  match value with
  | .reset => .ok .reset
  | .literal (.text s) => .ok (.texts [s])
  | .literal (.list items) =>
    match items.find? (!·.isText) with
    | some item => .error (f.invalid (.listItem item.typeName))
    | none => .ok (.literal (.list items))
  | .literal l => .error (f.invalid (.type "a string or list of strings" l.typeName))
  | .param name => do
    f.checkParam "a string or list" [.string, .list] name
    return if (f.params.get? name).any (·.kind == .string) then wrapped value else value
  | .choice _ _ _ => do
    f.check .string value
    return wrapped value

/-- The texts of a map from texts to texts; a reset is the empty one. -/
def stringMap (f : Field) (value : Setting) : Except CompileError (KeyMap String) :=
  match value with
  | .reset => .ok []
  | .literal (.map entries) => entries.mapM fun entry =>
    match entry.2 with
    | .text s => .ok (entry.1, s)
    | other => .error (f.invalid (.mapValue entry.1 other.typeName))
  | .literal l => .error (f.invalid (.type "a map of strings" l.typeName))
  | _ => .error (f.invalid .notLiteralMap)

/-- A map from texts to texts as a value; the empty map is a reset. -/
def stringMapSetting (f : Field) (value : Setting) : Except CompileError Setting := do
  match ← f.stringMap value with
  | [] => return .reset
  | entries => return .literal (.map (entries.map fun entry => (entry.1, .text entry.2)))

def memoryLiteral (f : Field) : Literal → Except CompileError Literal
  | .text s =>
    match MemorySize.parse? s.toList with
    | some megabytes => .ok (.int megabytes)
    | none => .error (f.invalid (.memorySize s))
  | l => .ok l

/-- Changes the literals of a value, also those in a choice. -/
def mapLiterals (convert : Literal → Except CompileError Literal) :
    Setting → Except CompileError Setting
  | .literal l => return .literal (← convert l)
  | .choice condition yes no => do
    let yes ← mapLiterals convert yes
    let no ← mapLiterals convert no
    return .choice condition yes no
  | .param name => .ok (.param name)
  | .reset => .ok .reset

/-- Megabytes of memory, written as a number or as a size with a unit. -/
def memory (f : Field) (value : Setting) : Except CompileError Setting := do
  f.typed .int (← mapLiterals f.memoryLiteral value)

/-- The text of a filter: a text, the substitution text of a reference or choice that gives one, or
none for a reset. -/
def filterText (f : Field) (value : Setting) : Except CompileError (Option String) := do
  f.check .string value
  return match value with
    | .literal l => l.text?
    | .reset => none
    | other => other.expression?

end Field

end DeployManifest
