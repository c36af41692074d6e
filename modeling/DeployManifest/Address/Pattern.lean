import DeployManifest.KeyMap
import DeployManifest.Text.Cut

/-! # Path patterns

A pattern is a path whose segments are literals, captures that bind one segment of a matching path,
or wildcards that match one segment without binding it. Slashes at either end of a pattern or of a
path do not count.
-/

namespace DeployManifest

/-- Why a text is no pattern. -/
inductive PatternError where
  | emptySegment
  /-- Braces that do not enclose a whole segment. -/
  | braces
  | captureName (name : String)
  deriving DecidableEq

def PatternError.reason : PatternError → String
  | .emptySegment => "empty path segment"
  | .braces => "unbalanced braces or partial-segment capture"
  | .captureName name => "capture '" ++ name ++ "' is not an identifier"

inductive Segment where
  | literal (text : String)
  /-- Binds one segment of the path to a name. -/
  | capture (name : String)
  | wildcard
  deriving DecidableEq

structure PathPattern where
  segments : List Segment
  deriving DecidableEq

namespace PathPattern

/-- A letter, in front of a name also an underscore, then letters, digits and underscores. -/
def isIdentifier (cs : List Char) : Bool :=
  match cs with
  | [] => false
  | c :: cs => (c.isAlpha || c == '_') && cs.all fun c => c.isAlphanum || c == '_'

/-- The segments of a path, none for the empty path. -/
def parts (path : String) : List (List Char) :=
  match Text.stripEnds (· == '/') path.toList with
  | [] => []
  | cs => Text.cut '/' cs

def segment (raw : List Char) : Except PatternError Segment :=
  if raw.isEmpty then .error .emptySegment
  else if raw = ['*'] then .ok .wildcard
  else if raw.contains '\x7b' || raw.contains '\x7d' then
    match (Text.after? ['\x7b'] raw).bind (Text.before? ['\x7d']) with
    | none => .error .braces
    | some name =>
      if isIdentifier name then .ok (.capture (String.ofList name))
      else .error (.captureName (String.ofList name))
  else .ok (.literal (String.ofList raw))

/-- Reads a pattern. The first part that is no segment decides the error. -/
def parse (pattern : String) : Except PatternError PathPattern :=
  ((parts pattern).mapM segment).map PathPattern.mk

def segmentText : Segment → String
  | .literal text => text
  | .capture name => "\x7b" ++ name ++ "\x7d"
  | .wildcard => "*"

def text (p : PathPattern) : String := "/".intercalate (p.segments.map segmentText)

/-- Does the pattern match more than one path? -/
def hasCaptures (p : PathPattern) : Bool :=
  p.segments.any fun
    | .literal _ => false
    | .capture _ => true
    | .wildcard => true

def captureNames (p : PathPattern) : List String :=
  p.segments.filterMap fun
    | .capture name => some name
    | _ => none

/-- Matches segments one by one and binds the captures. A name that occurs twice keeps its last
value. -/
def bind? : List Segment → List (List Char) → KeyMap String → Option (KeyMap String)
  | [], [], bound => some bound
  | .literal text :: segments, part :: parts, bound =>
    if text.toList = part then bind? segments parts bound else none
  | .wildcard :: segments, _ :: parts, bound => bind? segments parts bound
  | .capture name :: segments, part :: parts, bound =>
    bind? segments parts (bound.insert name (String.ofList part))
  | _, _, _ => none

def match? (p : PathPattern) (path : String) : Option (KeyMap String) :=
  bind? p.segments (parts path) []

end PathPattern

end DeployManifest
