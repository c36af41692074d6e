import DeployManifest.Compile.Error
import DeployManifest.Expr.Basic

/-! # Literals and named constants

What a constant expression stands for. Besides written constants there are named ones: sizes of
memory, regions, and settings of the network.
-/

namespace DeployManifest

def Expr.unsupported (e : Expr) (fault : ValueFault) : CompileError :=
  .unsupported e.location e.text fault

namespace Constants

def ingressSettings : List String := ["ALLOW_ALL", "ALLOW_INTERNAL_ONLY", "ALLOW_INTERNAL_AND_GCLB"]

def egressSettings : List String := ["PRIVATE_RANGES_ONLY", "ALL_TRAFFIC"]

def regions : List String :=
  ["ASIA_EAST1", "ASIA_EAST2", "ASIA_NORTHEAST1", "ASIA_NORTHEAST2", "ASIA_NORTHEAST3",
    "ASIA_SOUTH1", "ASIA_SOUTHEAST1", "ASIA_SOUTHEAST2", "AUSTRALIA_SOUTHEAST1",
    "EUROPE_CENTRAL2", "EUROPE_NORTH1", "EUROPE_WEST1", "EUROPE_WEST2", "EUROPE_WEST3",
    "EUROPE_WEST4", "EUROPE_WEST6", "NORTHAMERICA_NORTHEAST1", "SOUTHAMERICA_EAST1",
    "US_CENTRAL1", "US_EAST1", "US_EAST4", "US_WEST1", "US_WEST2", "US_WEST3", "US_WEST4"]

/-- The name of a region: small letters with hyphens between the words. -/
def regionName (constant : String) : String :=
  String.ofList (constant.toList.map fun c => if c = '_' then '-' else c.toLower)

/-- The sizes of memory, in megabytes. -/
def memorySizes : List (String × Int) :=
  [("MB_128", 128), ("MB_256", 256), ("MB_512", 512), ("GB_1", 1024), ("GB_2", 2048),
    ("GB_4", 4096), ("GB_8", 8192), ("GB_16", 16384), ("GB_32", 32768)]

/-- The value of a path of names, which may start at the namespace of the options. -/
def value? (parts : List String) : Except ValueFault Setting :=
  let parts :=
    match parts with
    | "options" :: rest => rest
    | parts => parts
  match parts with
  | ["RESET_VALUE"] => .ok .reset
  | ["IngressSetting", member] =>
    if ingressSettings.contains member then .ok (.text member) else .error .unknownMember
  | ["VpcEgressSetting", member] =>
    if egressSettings.contains member then .ok (.text member) else .error .unknownMember
  | ["MemoryOption", member] =>
    match memorySizes.lookup member with
    | some megabytes => .ok (.literal (.int megabytes))
    | none => .error .unknownMemory
  | ["SupportedRegion", member] =>
    if regions.contains member then .ok (.text (regionName member)) else .error .unknownMember
  | _ => .error .unknownConstant

end Constants

namespace Expr

/-- The value of a path of names, as that of an expression. -/
def constant (e : Expr) (parts : List String) : Except CompileError Setting :=
  (Constants.value? parts).mapError e.unsupported

mutual

/-- The literal that an expression stands for. Names and calls are no literals. -/
def literal : Expr → Except CompileError Literal
  | ⟨form, location, offset, text⟩ =>
    let e : Expr := ⟨form, location, offset, text⟩
    match form with
    | .bool b => .ok (.bool b)
    | .int n => .ok (.int n)
    | .float x => .ok (.float x)
    | .text s => .ok (.text s)
    | .list items => return .list (← literals items)
    | .dict entries => return .map (KeyMap.ofList (← entryLiterals entries))
    | .path parts => do
      match ← e.constant parts with
      | .literal l => return l
      | _ => throw (e.unsupported .notLiteral)
    | _ => .error (e.unsupported .notLiteral)

def literals : List Expr → Except CompileError (List Literal)
  | [] => .ok []
  | item :: items => do
    let first ← literal item
    return first :: (← literals items)

/-- The literals of the entries of a mapping, whose keys are texts. -/
def entryLiterals : List (Expr × Expr) → Except CompileError (List (String × Literal))
  | [] => .ok []
  | (key, value) :: entries =>
    match key.text? with
    | none => .error (key.unsupported .dictionaryKey)
    | some name => do
      let first ← literal value
      return (name, first) :: (← entryLiterals entries)

end

end Expr

end DeployManifest
