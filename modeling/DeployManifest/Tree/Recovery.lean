import DeployManifest.Source.Module
import DeployManifest.Text.Blank
import DeployManifest.Tree.Module

/-! # Syntax errors

A tree is also made of a malformed text, by recovery: a node of it stands for characters that do not
fit, or is missing and stands for none. The first such node from the root on is what the user is told.
How texts are recovered is left open.
-/

namespace DeployManifest

/-- A node of a recovered tree: its kind, the offsets at its ends, and what it is made of. -/
inductive SyntaxNode where
  | mk (kind : String) (start stop : Nat) (children : List SyntaxNode)

/-- What is wrong with a text. -/
inductive SyntaxFault where
  | unexpected (text : String)
  | missing (kind : String)
  deriving DecidableEq

namespace SyntaxNode

/-- What is wrong with a node itself, and at which offset. Of characters that do not fit the first
forty are told. -/
def ownFault? (m : SourceModule) (isRoot : Bool) : SyntaxNode → Option (Nat × SyntaxFault)
  | mk kind start stop children =>
    if kind = "ERROR" then
      some (start, .unexpected (String.ofList (Text.trim ((m.slice start stop).take 40))))
    else if !isRoot && children.isEmpty && start == stop then some (start, .missing kind)
    else none

mutual

def fault? (m : SourceModule) (isRoot : Bool) : SyntaxNode → Option (Nat × SyntaxFault)
  | mk kind start stop children =>
    ((mk kind start stop children).ownFault? m isRoot).or (faultAmong? m children)

def faultAmong? (m : SourceModule) : List SyntaxNode → Option (Nat × SyntaxFault)
  | [] => none
  | child :: children => (child.fault? m false).or (faultAmong? m children)

end

end SyntaxNode

/-- How trees are made of texts. Something is wrong with that of a malformed one. -/
structure Recovery where
  tree : List Char → SyntaxNode
  faulty : ∀ m : SourceModule, Node.ofText? m.text = none → (tree m.text).fault? m true ≠ none

namespace Recovery

/-- The whole of a text is taken for something that does not fit. -/
def whole : Recovery where
  tree text := .mk "ERROR" 0 (Cursor.byteCount text) []
  faulty m _ := by
    rw [SyntaxNode.fault?, SyntaxNode.ownFault?, if_pos rfl]
    exact Option.some_ne_none _

def fault? (recovery : Recovery) (m : SourceModule) : Option (Nat × SyntaxFault) :=
  (recovery.tree m.text).fault? m true

end Recovery

end DeployManifest
