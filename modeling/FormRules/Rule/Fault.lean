/-
  FormRules.Rule.Fault

  The reasons for which a rule expression fails: while it is read, or because it
  calls a function that does not exist.
-/

import FormRules.Rule.Token

namespace FormRules

/-- What is wrong with the order of tokens. A missing `found` means the end. -/
inductive Misplacement where
  /-- An operand was due. -/
  | operand (found : Option TokenKind)
  /-- A parenthesis was to be closed. -/
  | closing (found : Option TokenKind)
  /-- An argument was to be followed by another one or by the end of the call. -/
  | separator (found : Option TokenKind)
  /-- The expression was complete. -/
  | trailing (found : TokenKind)
deriving DecidableEq

namespace Misplacement

/-- What was found instead of something expected. -/
def insteadOf (expected : String) : Option TokenKind → String
  | none => "Expected " ++ expected ++ " but reached end of expression"
  | some kind => "Expected " ++ expected ++ " but found '" ++ kind.text ++ "'"

/-- The wording of a misplacement. -/
def message : Misplacement → String
  | .operand none => "Unexpected end of expression"
  | .operand (some kind) => "Unexpected token '" ++ kind.text ++ "'"
  | .closing found => insteadOf "')'" found
  | .separator found => insteadOf "',' or ')'" found
  | .trailing kind => "Unexpected token '" ++ kind.text ++ "' after end of expression"

end Misplacement

/-- Why an expression fails, with the position in its source where that shows. -/
inductive Fault where
  | unterminatedString (position : Nat)
  | unexpectedCharacter (character : Char) (position : Nat)
  | invalidNumber (literal : String) (position : Nat)
  | misplaced (what : Misplacement) (position : Nat)
  | tooDeep (limit position : Nat)
  | unknownFunction (name : String)
deriving DecidableEq

/-- The stage at which a fault shows. -/
inductive FaultStage where
  | lexical
  | grammatical
  | semantic
deriving DecidableEq

/-- The name of a stage in logs. -/
def FaultStage.label : FaultStage → String
  | .lexical => "Lexical"
  | .grammatical => "Syntax"
  | .semantic => "Semantic"

namespace Fault

/-- The stage at which a fault shows. -/
def stage : Fault → FaultStage
  | .unterminatedString _ | .unexpectedCharacter _ _ | .invalidNumber _ _ => .lexical
  | .misplaced _ _ | .tooDeep _ _ => .grammatical
  | .unknownFunction _ => .semantic

/-- The position of a fault; an unknown function has none. -/
def position? : Fault → Option Nat
  | .unterminatedString position | .unexpectedCharacter _ position
  | .invalidNumber _ position | .misplaced _ position | .tooDeep _ position => some position
  | .unknownFunction _ => none

/-- The wording of a fault. -/
def message : Fault → String
  | .unterminatedString position =>
    "Unterminated string literal starting at position " ++ integerText position
  | .unexpectedCharacter character position =>
    "Unexpected character '" ++ character.toString ++ "' at position " ++ integerText position
  | .invalidNumber literal position =>
    "Invalid number literal '" ++ literal ++ "' at position " ++ integerText position
  | .misplaced what position =>
    "Syntax error at position " ++ integerText position ++ ": " ++ what.message
  | .tooDeep limit position =>
    "Expression nesting exceeds the maximum depth of " ++ integerText limit ++
      " at position " ++ integerText position
  | .unknownFunction name => "Unknown function: " ++ name

end Fault

end FormRules
