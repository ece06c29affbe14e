/-
  FormRules.Rule.Operator

  The binary operators of rule expressions: eight comparisons, which yield a
  boolean, and two connectives, which yield one of their operands.
-/

namespace FormRules

/-- Comparison of two values. The loose forms convert operands of different kinds,
    the strict ones do not. -/
inductive Comparison where
  | looseEqual
  | looseUnequal
  | strictEqual
  | strictUnequal
  | greater
  | less
  | greaterOrEqual
  | lessOrEqual
deriving DecidableEq, Repr

namespace Comparison

/-- How a comparison is written. -/
def spelling : Comparison → String
  | .looseEqual => "=="
  | .looseUnequal => "!="
  | .strictEqual => "==="
  | .strictUnequal => "!=="
  | .greater => ">"
  | .less => "<"
  | .greaterOrEqual => ">="
  | .lessOrEqual => "<="

/-- The four equality comparisons bind looser than the four that order. -/
def isEquality : Comparison → Bool
  | .looseEqual | .looseUnequal | .strictEqual | .strictUnequal => true
  | .greater | .less | .greaterOrEqual | .lessOrEqual => false

/-- All comparisons. -/
def all : List Comparison :=
  [.looseEqual, .looseUnequal, .strictEqual, .strictUnequal,
    .greater, .less, .greaterOrEqual, .lessOrEqual]

end Comparison

/-- Combination of two conditions that stops as soon as the first one decides. -/
inductive Connective where
  | and
  | or
deriving DecidableEq, Repr

/-- How a connective is written. -/
def Connective.spelling : Connective → String
  | .and => "&&"
  | .or => "||"

end FormRules
