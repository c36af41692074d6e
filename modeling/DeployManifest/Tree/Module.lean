import DeployManifest.Tree.Statement

/-! # Modules

A module is a row of statements. `Parser.ofRule` ties the rules of the grammar together: each rule
may go back to the others as often as its fuel allows, and every nested rule takes up text, so fuel
proportional to the length of the module is never used up.
-/

namespace DeployManifest

namespace Parser

/-- One step of a rule, where `rules` reads what the rule goes back to. -/
def step (rules : Rules) : Rule → Parser Node
  | .expression first follow conditional => expression rules first follow conditional
  | .negation first follow => negation rules (lambdaParameter rules) first follow
  | .unary first follow => unary rules first follow
  | .interpolation => interpolation rules
  | .typeNode first follow constrained => typeNode rules first follow constrained
  | .casePattern first follow => casePattern rules first follow
  | .patternChoice first follow => patternChoice rules first follow
  | .rightSide => rightSide rules
  | .statement inBlock => statement rules inBlock
  | .suite => suite rules

/-- Reads by a rule, going back to rules at most `fuel` deep. -/
def ofRule : Nat → Rules
  | 0 => fun _ => refuse
  | fuel + 1 => step (ofRule fuel)

def wholeModule (rules : Rules) : Parser Node := do
  let statements ← many (rules (.statement false))
  let here ← token (.statement false)
  match here.rest with
  | [] => return .mk .module .plain 0 here.offset statements
  | _ => refuse

end Parser

namespace Node

/-- The tree of a module, unless its text is malformed. -/
def ofText? (text : List Char) : Option Node :=
  (Parser.wholeModule (Parser.ofRule (4 * text.length + 16)) (.ofText text)).map (·.1)

end Node

end DeployManifest
