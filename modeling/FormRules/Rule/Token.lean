/-
  FormRules.Rule.Token

  The tokens of rule expressions. A dotted path such as `ctx.vehicle.mileage` is a
  single token, so that later stages always see whole paths.
-/

import FormRules.Json.Basic
import FormRules.Rule.Operator

namespace FormRules

/-- What a token is. -/
inductive TokenKind where
  | number (n : Number)
  | string (s : String)
  | boolean (b : Bool)
  | null
  | name (path : String)
  | comparison (op : Comparison)
  | connective (op : Connective)
  | negation
  | dot
  | comma
  | opening
  | closing
deriving DecidableEq

/-- The tokens whose spelling is fixed. A spelling stands before all shorter ones that
    it begins with, so that the first one that fits is the longest. -/
def TokenKind.symbols : List (String × TokenKind) := [
  ("===", .comparison .strictEqual),
  ("!==", .comparison .strictUnequal),
  ("==", .comparison .looseEqual),
  ("!=", .comparison .looseUnequal),
  (">=", .comparison .greaterOrEqual),
  ("<=", .comparison .lessOrEqual),
  ("&&", .connective .and),
  ("||", .connective .or),
  (">", .comparison .greater),
  ("<", .comparison .less),
  ("!", .negation),
  (".", .dot),
  (",", .comma),
  ("(", .opening),
  (")", .closing)]

/-- How a token is shown in messages. A string is shown in double quotes with its
    characters as they are. -/
def TokenKind.text : TokenKind → String
  | .number n => n.text
  | .string s => "\"" ++ s ++ "\""
  | .boolean b => if b then "true" else "false"
  | .null => "null"
  | .name path => path
  | .comparison op => op.spelling
  | .connective op => op.spelling
  | .negation => "!"
  | .dot => "."
  | .comma => ","
  | .opening => "("
  | .closing => ")"

/-- A token and the byte position at which it begins. -/
structure Token where
  kind : TokenKind
  position : Nat
deriving DecidableEq

end FormRules
