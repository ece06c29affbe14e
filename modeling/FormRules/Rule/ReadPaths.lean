/-
  FormRules.Rule.ReadPaths

  The context paths that an expression reads, for evaluating it again when one of them
  changes. The bare roots `ctx` and `fields` are not listed.
-/

import FormRules.Rule.Expression

namespace FormRules

/-- Puts a name into an ascending list, unless it is there already. -/
def insertName (name : String) : List String → List String
  | [] => [name]
  | other :: names =>
    if name < other then name :: other :: names
    -- listed already
    else if name = other then other :: names
    else other :: insertName name names

namespace Expression

/-- What the paths listed as dependencies begin with. -/
def dependencyRoots : List String := ["ctx.", "fields."]

/-- A path below one of the two roots. -/
def isDependency (path : String) : Bool :=
  dependencyRoots.any fun root => root.toList.isPrefixOf path.toList

/-- The path that a node reads. -/
def path? : Expression → Option String
  | .path text => some text
  | _ => none

/-- The paths below `ctx` and `fields` that occur anywhere in an expression, ascending
    and each of them once. -/
def dependencies (expression : Expression) : List String :=
  ((expression.nodes.filterMap path?).filter isDependency).foldr insertName []

end Expression

end FormRules
