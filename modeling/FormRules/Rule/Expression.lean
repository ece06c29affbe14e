/-
  FormRules.Rule.Expression

  The trees of rule expressions, their height, and the walk through their nodes.
-/

import FormRules.Json.Basic
import FormRules.Rule.Operator

namespace FormRules

/-- A rule expression. -/
inductive Expression where
  | literal (value : Json)
  | path (text : String)
  | negation (operand : Expression)
  | comparison (op : Comparison) (left right : Expression)
  | connective (op : Connective) (left right : Expression)
  | call (function : String) (arguments : List Expression)

namespace Expression

instance : Inhabited Expression := ⟨.literal .null⟩

/-- The condition that always holds. -/
def always : Expression := .literal (.boolean true)

/-! ## Height -/

mutual

/-- The number of nodes on the longest way down. -/
def height : Expression → Nat
  | .literal _ | .path _ => 1
  | .negation operand => height operand + 1
  | .comparison _ left right | .connective _ left right => max (height left) (height right) + 1
  | .call _ arguments => heightAll arguments + 1

/-- The height of the tallest of some trees, zero if there is none. -/
def heightAll : List Expression → Nat
  | [] => 0
  | tree :: trees => max (height tree) (heightAll trees)

end

/-! ## The walk -/

mutual

/-- All nodes, each as the tree below it: a node before its children, and the children
    from left to right. -/
def nodes : Expression → List Expression
  | .literal value => [.literal value]
  | .path text => [.path text]
  | .negation operand => .negation operand :: nodes operand
  | .comparison op left right => .comparison op left right :: (nodes left ++ nodes right)
  | .connective op left right => .connective op left right :: (nodes left ++ nodes right)
  | .call function arguments => .call function arguments :: nodesAll arguments

def nodesAll : List Expression → List Expression
  | [] => []
  | tree :: trees => nodes tree ++ nodesAll trees

end

/-- What a node is, apart from its children. -/
inductive Label where
  | literal (value : Json)
  | path (text : String)
  | negation
  | comparison (op : Comparison)
  | connective (op : Connective)
  | call (function : String) (count : Nat)
deriving DecidableEq

/-- The label of the topmost node. -/
def label : Expression → Label
  | .literal value => .literal value
  | .path text => .path text
  | .negation _ => .negation
  | .comparison op _ _ => .comparison op
  | .connective op _ _ => .connective op
  | .call function arguments => .call function arguments.length

/-- The labels of all nodes in the order of the walk. -/
def labels (tree : Expression) : List Label := (nodes tree).map label

end Expression

end FormRules
