import Abacus.Number.Special

/-!
# Exact sums

A sum is kept as a list of partial sums that together are exactly the sum so far and do not overlap
in their digits, so that it is rounded only once, at the end. Infinite summands and those that are
no number are added up apart.
-/

namespace Abacus.Number

/-- Why numbers have no sum. -/
inductive SumError where
  /-- The sum so far is beyond all finite numbers although every summand is finite. -/
  | overflow
  /-- Both infinities are among the summands. -/
  | oppositeInfinities
deriving Repr, DecidableEq

/-- The message of an error. -/
def SumError.message : SumError → String
  | overflow => "intermediate overflow in fsum"
  | oppositeInfinities => "-inf + inf in fsum"

/-- A sum under way: the partial sums from the smallest on, the sum of all summands that are not
finite, and the sum of the infinite ones. -/
structure PartialSum where
  parts : List Float
  special : Float
  infinite : Float

namespace PartialSum

/-- The sum of nothing. -/
def empty : PartialSum := ⟨[], 0, 0⟩

/-- The rounded sum of two numbers and what the rounding lost. -/
def addExact (x y : Float) : Float × Float :=
  let (large, small) := if x.abs < y.abs then (y, x) else (x, y)
  let sum := large + small
  (sum, small - (sum - large))

/-- Adds `x` to the parts from the smallest on: the largest part, and the parts below it. -/
def absorb (x : Float) : List Float → Float × List Float
  | [] => (x, [])
  | y :: parts =>
    let (sum, lost) := addExact x y
    let (top, rest) := absorb sum parts
    (top, if lost != 0 then lost :: rest else rest)

/-- Adds a summand. -/
def add (s : PartialSum) (x : Float) : Except SumError PartialSum :=
  let (top, rest) := absorb x s.parts
  if top == 0 then .ok { s with parts := rest }
  else if top.isFinite then .ok { s with parts := rest ++ [top] }
  else if x.isFinite then .error .overflow
  else .ok ⟨[], s.special + x, if x.isInf then s.infinite + x else s.infinite⟩

/-- Whether two numbers lie on the same side of zero. -/
def sameSide (x y : Float) : Bool := (x < 0 && y < 0) || (x > 0 && y > 0)

/-- Corrects a sum that lost exactly half a unit: the next part tells on which side the exact sum
lies. -/
def correct (sum lost : Float) : List Float → Float
  | [] => sum
  | next :: _ =>
    let doubled := 2 * lost
    let moved := sum + doubled
    if sameSide lost next && doubled == moved - sum then moved else sum

/-- The sum of `top` and smaller parts, from the largest on. -/
def collapse (top : Float) : List Float → Float
  | [] => top
  | y :: parts =>
    let sum := top + y
    let lost := y - (sum - top)
    if lost != 0 then correct sum lost parts else collapse sum parts

/-- The number nearest to the sum. -/
def value (s : PartialSum) : Except SumError Float :=
  if s.special != 0 then
    if s.infinite.isNaN then .error .oppositeInfinities else .ok s.special
  else
    match s.parts.reverse with
    | [] => .ok 0
    | top :: parts => .ok (collapse top parts)

end PartialSum

/-- The sum of numbers, rounded once. -/
def sum (xs : List Float) : Except SumError Float := do
  (← xs.foldlM PartialSum.add PartialSum.empty).value

end Abacus.Number
