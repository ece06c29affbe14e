/-
  FormRules.Number.Shortest

  The shortest decimal that reads back as a given double: the fewest digits such
  that the decimal rounds to the double, and among decimals of so many digits the
  nearest to it.

  A double of `u` units is `u · 5^1074` times `10^-1074`, so on this finest grid
  its value, the ends of the interval that rounds to it and every coarser decimal
  grid are whole numbers. The search goes from the coarsest grid to the finest
  and takes the first one that has a point inside the interval; the finest one
  has the value itself.
-/

import FormRules.Number.Decimal

namespace FormRules

/-- Which of two equally near candidates is taken. -/
inductive Tie where
  | toEven
  | away
deriving DecidableEq

namespace Shortest

/-- The finest decimal grid is `10^-scale`, and `fine` times a number of units is
    the same value counted in steps of this grid. -/
def fine : Nat := 5 ^ Binary64.scale

/-! ## The interval of a double -/

/-- The distance to the next smaller double, halved and counted in quarters of a
    unit: at a power of two it is half of what it is elsewhere. -/
def quartersBelow (units : Nat) : Nat :=
  if Binary64.spacing units ≠ 0 ∧ units = 2 ^ units.log2 then 2 ^ Binary64.spacing units
  else 2 * 2 ^ Binary64.spacing units

/-- The numbers that round to a positive double, as their two ends in quarters of a
    unit. The ends belong to the interval if the last bit of the double is even. -/
structure Interval where
  low : Nat
  high : Nat
  closed : Bool
deriving DecidableEq

/-- The interval of numbers that round to a magnitude. -/
def interval (units : Nat) : Interval where
  low := 4 * units - quartersBelow units
  high := 4 * units + 2 * 2 ^ Binary64.spacing units
  closed := units / 2 ^ Binary64.spacing units % 2 == 0

/-- A number of steps of the finest grid lies in the interval. -/
def Interval.holds (i : Interval) (steps : Nat) : Bool :=
  if i.closed then i.low * fine ≤ 4 * steps && 4 * steps ≤ i.high * fine
  else i.low * fine < 4 * steps && 4 * steps < i.high * fine

/-! ## The search -/

/-- The neighbours of the value on the grid of `10^place` steps, the preferred one
    first: the nearer one, or by the rule for ties. -/
def neighbours (tie : Tie) (units place : Nat) : List Nat :=
  let value := units * fine
  let floor := value / 10 ^ place
  let twice := 2 * (value % 10 ^ place)
  let up : Bool := match tie with
    | .toEven => 10 ^ place < twice || (10 ^ place == twice && floor % 2 == 1)
    | .away => 10 ^ place ≤ twice
  if up then [floor + 1, floor] else [floor, floor + 1]

/-- The first neighbour in the interval on the coarsest grid that has one, with its
    grid. The grid of single steps holds the value itself. -/
def search (tie : Tie) (units : Nat) : Nat → Nat × Nat
  | 0 => (units * fine, 0)
  | place + 1 =>
    match (neighbours tie units (place + 1)).find?
        (fun n => (interval units).holds (n * 10 ^ (place + 1))) with
    | some n => (n, place + 1)
    | none => search tie units place

end Shortest

/-- The shortest decimal that reads back as the double; the nearest of these, with
    the given rule for ties. -/
def Binary64.shortest (tie : Tie) (x : Binary64) : Decimal :=
  if x.units = 0 then ⟨x.negative, 0, 0⟩
  else
    let (coefficient, place) :=
      Shortest.search tie x.units (Nat.toDigits 10 (x.units * Shortest.fine)).length
    ⟨x.negative, coefficient, place - (Binary64.scale : Int)⟩

end FormRules
