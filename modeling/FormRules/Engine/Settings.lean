/-
  FormRules.Engine.Settings

  The settings of an engine and their JSON form.
-/

import FormRules.Json.Record
import FormRules.Rule.Precedence

namespace FormRules

/-- The settings of an engine. -/
structure Settings where
  /-- The limit on nesting and height of expressions. -/
  maxDepth : Nat := Expression.defaultLimit
  /-- How many compiled expressions are kept; zero turns the cache off. -/
  cacheCapacity : Nat := 1024
deriving DecidableEq

namespace Settings

/-- The settings with another limit. -/
def withMaxDepth (settings : Settings) (maxDepth : Nat) : Settings :=
  { settings with maxDepth := maxDepth }

/-- The settings with another capacity. -/
def withCacheCapacity (settings : Settings) (cacheCapacity : Nat) : Settings :=
  { settings with cacheCapacity := cacheCapacity }

/-- The written form of settings. -/
def toJson (settings : Settings) : Json :=
  .object [
    ("maxDepth", .count settings.maxDepth),
    ("cacheCapacity", .count settings.cacheCapacity)]

/-- Reads settings; what is missing takes its default. -/
def ofJson? (data : Json) : Option Settings := do
  let members ← data.recordMembers? ["maxDepth", "cacheCapacity"]
  let defaults : Settings := {}
  return {
    maxDepth := ← Json.countMember? "maxDepth" defaults.maxDepth members
    cacheCapacity := ← Json.countMember? "cacheCapacity" defaults.cacheCapacity members }

end Settings

end FormRules
