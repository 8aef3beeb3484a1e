import Abacus.Number.Dyadic
import Abacus.Number.Special

/-!
# The hypotenuse

The root of the sum of two squares, computed on whole numbers and rounded once, so that nothing
overflows or vanishes on the way.
-/

namespace Abacus.Number

/-- The whole part of the square root of `n < 4 ^ places`. -/
def wholeRoot : Nat → Nat → Nat
  | 0, _ => 0
  | places + 1, n =>
    let root := 2 * wholeRoot places (n / 4)
    if (root + 1) * (root + 1) ≤ n then root + 1 else root

/-- The number nearest to the square root of `n * 4 ^ e`. The root is taken to more than sixty
binary places; one more tells whether it is exact. -/
def nearestRoot (n : Nat) (e : Int) : Float :=
  let scaled := n * twoTo 128
  let root := wholeRoot (scaled.log2 / 2 + 1) scaled
  let rest := if root * root = scaled then 0 else 1
  (Dyadic.mk false (2 * root + rest) (e - 65)).toFloat

/-- The length of the hypotenuse over two sides; with an infinite side it is infinite whatever the
other one is. -/
def hypotenuse (a b : Float) : Float :=
  match Dyadic.ofFloat? a, Dyadic.ofFloat? b with
  | some x, some y =>
    let e := min x.exponent y.exponent
    let m := x.mantissa * twoTo (x.exponent - e).toNat
    let n := y.mantissa * twoTo (y.exponent - e).toNat
    nearestRoot (m * m + n * n) e
  | _, _ => if a.isInf || b.isInf then infinity else notANumber

end Abacus.Number
