/-
  FormRules.Rule.Precedence

  Reading tokens as an expression. From loosest to tightest the levels are `||`,
  `&&`, the equality comparisons, the ordering comparisons, `!`, and operands:
  literals, paths, calls and parentheses. Chains on one level group to the left,
  and a name followed by `(` is always a call.

  One limit bounds two things. Source nesting is the number of `!`, `(` and call
  parentheses around an operand, plus one; it is counted down by `unary`. The
  height of the tree is computed along with it, so that a long chain without any
  nesting is refused too.

  A level is a function on the remaining tokens. `Parsed` carries the proof that
  it has used some of them, by which chains and argument lists end.
-/

import FormRules.Rule.Expression
import FormRules.Rule.Tokens

namespace FormRules

namespace Precedence

/-! ## Results -/

/-- A tree read from the front of some tokens, with its height and the tokens that
    follow it. -/
structure Parsed (input : List Token) where
  tree : Expression
  height : Nat
  rest : List Token
  shorter : rest.length < input.length

/-- The arguments of a call with the height of the tallest, and the tokens behind the
    closing parenthesis. -/
structure ParsedArguments (input : List Token) where
  trees : List Expression
  height : Nat
  rest : List Token
  shorter : rest.length < input.length

/-- A level of the grammar. -/
abbrev Level := (input : List Token) → Except Fault (Parsed input)

/-- The kind of the next token, none at the end. -/
def nextKind (tokens : List Token) : Option TokenKind := tokens.head?.map Token.kind

/-- The position of the next token, or of the end. -/
def nextPosition (stop : Nat) : List Token → Nat
  | [] => stop
  | token :: _ => token.position

/-- A tree of one node, read from the first token. -/
def leaf (tree : Expression) (token : Token) (rest : List Token) : Parsed (token :: rest) :=
  ⟨tree, 1, rest, by simp⟩

/-! ## Chains -/

/-- Extends what has been read by as many operators and operands as follow it. Each
    operator puts a node on top, whose height must not exceed the limit. -/
def chainFrom (limit : Nat) (node? : TokenKind → Option (Expression → Expression → Expression))
    (operand : Level) {input : List Token} (left : Parsed input) :
    Except Fault (Parsed input) :=
  match _hrest : left.rest with
  | [] => .ok left
  | token :: rest =>
    match node? token.kind with
    | none => .ok left
    | some node =>
      match operand rest with
      | .error fault => .error fault
      | .ok right =>
        let height := max left.height right.height + 1
        -- the operator is to blame, not the operand that made the tree too high
        if limit < height then .error (.tooDeep limit token.position)
        else
          chainFrom limit node? operand
            ⟨node left.tree right.tree, height, right.rest, by
              have := left.shorter
              have := right.shorter
              simp only [_hrest, List.length_cons] at *
              omega⟩
termination_by left.rest.length
decreasing_by
  have := right.shorter
  simp only [_hrest, List.length_cons]
  omega

/-- Operands of one level with its operators between them, grouped to the left. -/
def chain (limit : Nat) (node? : TokenKind → Option (Expression → Expression → Expression))
    (operand : Level) : Level := fun input =>
  match operand input with
  | .error fault => .error fault
  | .ok left => chainFrom limit node? operand left

/-- The operators that order values. -/
def orderingNode? : TokenKind → Option (Expression → Expression → Expression)
  | .comparison op => if op.isEquality then none else some (.comparison op)
  | _ => none

/-- The operators that test for equality. -/
def equalityNode? : TokenKind → Option (Expression → Expression → Expression)
  | .comparison op => if op.isEquality then some (.comparison op) else none
  | _ => none

/-- The operator of conjunctions. -/
def conjunctionNode? : TokenKind → Option (Expression → Expression → Expression)
  | .connective .and => some (.connective .and)
  | _ => none

/-- The operator of disjunctions. -/
def disjunctionNode? : TokenKind → Option (Expression → Expression → Expression)
  | .connective .or => some (.connective .or)
  | _ => none

/-- A whole expression, given the level of its operands. -/
def expression (limit : Nat) (unary : Level) : Level :=
  chain limit disjunctionNode? <| chain limit conjunctionNode? <|
    chain limit equalityNode? <| chain limit orderingNode? unary

/-! ## Operands -/

/-- One or more arguments up to the closing parenthesis. -/
def argumentsFrom (stop : Nat) (expression : Level) (input : List Token) :
    Except Fault (ParsedArguments input) :=
  match expression input with
  | .error fault => .error fault
  | .ok first =>
    match _hrest : first.rest with
    | ⟨.comma, _⟩ :: others =>
      match argumentsFrom stop expression others with
      | .error fault => .error fault
      | .ok more =>
        .ok ⟨first.tree :: more.trees, max first.height more.height, more.rest, by
          have := first.shorter
          have := more.shorter
          simp only [_hrest, List.length_cons] at *
          omega⟩
    | ⟨.closing, _⟩ :: rest =>
      .ok ⟨[first.tree], first.height, rest, by
        have := first.shorter
        simp only [_hrest, List.length_cons] at this
        omega⟩
    | others =>
      .error (.misplaced (.separator (nextKind others)) (nextPosition stop others))
termination_by input.length
decreasing_by
  have := first.shorter
  simp only [_hrest, List.length_cons] at this
  omega

/-- The arguments of a call, possibly none, up to the closing parenthesis. -/
def arguments (stop : Nat) (expression : Level) (input : List Token) :
    Except Fault (ParsedArguments input) :=
  match input with
  | ⟨.closing, position⟩ :: rest => .ok ⟨[], 0, rest, by simp⟩
  | input => argumentsFrom stop expression input

/-- A literal, a path, a call or an expression in parentheses, given the level of
    expressions inside. -/
def primary (limit stop : Nat) (expression : Level) : Level := fun input =>
  match input with
  | [] => .error (.misplaced (.operand none) stop)
  | ⟨.number n, position⟩ :: rest => .ok (leaf (.literal (.number n)) ⟨.number n, position⟩ rest)
  | ⟨.string s, position⟩ :: rest => .ok (leaf (.literal (.string s)) ⟨.string s, position⟩ rest)
  | ⟨.boolean b, position⟩ :: rest => .ok (leaf (.literal (.boolean b)) ⟨.boolean b, position⟩ rest)
  | ⟨.null, position⟩ :: rest => .ok (leaf (.literal .null) ⟨.null, position⟩ rest)
  -- a name in front of a parenthesis is never a path
  | ⟨.name name, position⟩ :: ⟨.opening, _⟩ :: inside =>
    match arguments stop expression inside with
    | .error fault => .error fault
    | .ok parsed =>
      if limit < parsed.height + 1 then .error (.tooDeep limit position)
      else
        .ok ⟨.call name parsed.trees, parsed.height + 1, parsed.rest, by
          have := parsed.shorter
          simp only [List.length_cons]
          omega⟩
  | ⟨.name path, position⟩ :: rest => .ok (leaf (.path path) ⟨.name path, position⟩ rest)
  | ⟨.opening, _⟩ :: inside =>
    match expression inside with
    | .error fault => .error fault
    | .ok parsed =>
      match _hrest : parsed.rest with
      -- parentheses nest the source but leave no node
      | ⟨.closing, _⟩ :: rest =>
        .ok ⟨parsed.tree, parsed.height, rest, by
          have := parsed.shorter
          simp only [_hrest, List.length_cons] at *
          omega⟩
      | others => .error (.misplaced (.closing (nextKind others)) (nextPosition stop others))
  | ⟨kind, position⟩ :: _ => .error (.misplaced (.operand (some kind)) position)

/-- Any number of `!` and an operand. The first number is how many more levels of
    nesting the limit allows. -/
def unary (limit stop : Nat) : Nat → Level
  | 0, input => .error (.tooDeep limit (nextPosition stop input))
  | levels + 1, input =>
    match input with
    | ⟨.negation, position⟩ :: rest =>
      match unary limit stop levels rest with
      | .error fault => .error fault
      | .ok operand =>
        if limit < operand.height + 1 then .error (.tooDeep limit position)
        else
          .ok ⟨.negation operand.tree, operand.height + 1, operand.rest, by
            have := operand.shorter
            simp only [List.length_cons]
            omega⟩
    | input => primary limit stop (expression limit (unary limit stop levels)) input

end Precedence

namespace Expression

/-! ## Whole expressions -/

/-- The limit on nesting and height where none is chosen. -/
def defaultLimit : Nat := 64

/-- Reads all tokens of a source as one expression. -/
def ofTokens (limit : Nat) (tokens : Tokens) : Except Fault Expression :=
  match Precedence.expression limit (Precedence.unary limit tokens.stop limit) tokens.list with
  | .error fault => .error fault
  | .ok parsed =>
    match parsed.rest with
    | [] => .ok parsed.tree
    | token :: _ => .error (.misplaced (.trailing token.kind) token.position)

/-- Reads a source as an expression. A source of blanks always holds. -/
def parse (limit : Nat) (source : String) : Except Fault Expression :=
  if source.toList.all isBlank then .ok always
  else
    match Tokens.scan source with
    | .error fault => .error fault
    | .ok tokens => ofTokens limit tokens

end Expression

end FormRules
