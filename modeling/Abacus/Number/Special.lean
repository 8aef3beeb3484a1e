import Abacus.Number.Nearest

/-!
# Infinity and what is no number
-/

namespace Abacus.Number

/-- Larger than every finite number. -/
def infinity : Float := 1 / 0

/-- The result of an operation that has none, such as infinity less infinity. -/
def notANumber : Float := 0 / 0

/-- Whether `x` has a minus sign, as negative zero has; what is no number has none. -/
def isNegative (x : Float) : Bool := !x.isNaN && twoTo 63 ≤ x.toBits.toNat

/-- A size with the sign of `x`. -/
def withSignOf (x size : Float) : Float := if isNegative x then -size else size

end Abacus.Number
