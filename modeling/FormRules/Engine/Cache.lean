/-
  FormRules.Engine.Cache

  Compiled expressions by their exact source. Faults are kept too, since the same
  source always fails in the same way. A cache that is full forgets everything before
  it takes a new source.
-/

import FormRules.Rule.Precedence

namespace FormRules

/-- The outcome of compiling a source. -/
abbrev Compiled := Except Fault Expression

/-- A bounded store of compiled expressions. -/
structure Cache where
  capacity : Nat
  entries : Table Compiled

namespace Cache

/-- The cache without entries. -/
def new (capacity : Nat) : Cache := ⟨capacity, .empty⟩

/-- The number of entries. -/
def size (cache : Cache) : Nat := cache.entries.size

/-- What is kept for a source. -/
def find? (source : String) (cache : Cache) : Option Compiled := cache.entries.get? source

/-- Whether a source has to displace everything else. -/
def resetsFor (source : String) (cache : Cache) : Bool :=
  cache.capacity ≤ cache.size && (cache.find? source).isNone

/-- Forgets all entries. -/
def clear (cache : Cache) : Cache := { cache with entries := .empty }

/-- Keeps what a source compiles to. -/
def insert (source : String) (compiled : Compiled) (cache : Cache) : Cache :=
  let kept := if cache.resetsFor source then .empty else cache.entries
  { cache with entries := kept.set source compiled }

/-- A summary of the cache. -/
def summary (cache : Cache) : String :=
  "ExpressionCache \x7b len: " ++ integerText cache.size ++
    ", capacity: " ++ integerText cache.capacity ++ " \x7d"

end Cache

end FormRules
