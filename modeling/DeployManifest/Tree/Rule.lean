import DeployManifest.Tree.Parser

/-! # The rules of the grammar

A rule that refers back to the grammar goes through `Rules`, so each definition of the grammar is a
plain function of the rules it uses; `Parser.ofRule` closes the circle.
-/

namespace DeployManifest

/-- The rules of the grammar that other rules go back to. -/
inductive Rule where
  /-- An expression; `conditional` says whether a condition may follow its first part. -/
  | expression (first : Admits) (follow : Follow) (conditional : Bool)
  /-- An operand of a boolean operator. -/
  | negation (first : Admits) (follow : Follow)
  /-- An operand of an arithmetic operator. -/
  | unary (first : Admits) (follow : Follow)
  /-- A substitution inside a string, with its braces. -/
  | interpolation
  /-- A type; `constrained` says whether a bound may follow it. -/
  | typeNode (first : Admits) (follow : Follow) (constrained : Bool)
  /-- A pattern of a case. -/
  | casePattern (first : Admits) (follow : Follow)
  /-- A pattern without aliases, such as the key of a mapping pattern. -/
  | patternChoice (first : Admits) (follow : Follow)
  /-- The right side of an assignment, which may be an assignment itself. -/
  | rightSide
  /-- A statement, in an indented block or not. -/
  | statement (inBlock : Bool)
  /-- The body of a compound statement. -/
  | suite

/-- How the rules are read. -/
abbrev Rules := Rule → Parser Node

namespace Parser

/-- A node for a part that starts where its first part does. -/
def spanning (kind : NodeKind) (children : List Node) : Parser Node :=
  match children with
  | [] => refuse
  | first :: _ => finish kind first.start children

/-- What an expression behind a comma admits: also what may follow the list. -/
def Follow.next (f : Follow) : Admits := ⟨f.newline, false, false, f.closer, true, false⟩

end Parser

end DeployManifest
