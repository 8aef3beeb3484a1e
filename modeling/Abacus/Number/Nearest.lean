/-!
# The nearest number

Numbers have 64 bits: a sign, an exponent and 53 binary digits. `nearest` gives the number nearest
to a fraction of two whole numbers, a half going to the even neighbour. A result that was computed
exactly is rounded here, once.
-/

namespace Abacus.Number

/-- A power of two. -/
def twoTo (exponent : Nat) : Nat := Nat.pow 2 exponent

/-- A power of ten. -/
def tenTo (exponent : Nat) : Nat := Nat.pow 10 exponent

/-- `n / d` to the nearest whole number, a half going to the even neighbour. -/
def roundDiv (n d : Nat) : Nat :=
  let quotient := n / d
  let rest := n % d
  if 2 * rest < d then quotient
  else if 2 * rest = d then quotient + quotient % 2
  else quotient + 1

/-- The largest `k` for which `2 ^ k` is not larger than `n / d`, both of them positive. -/
def floorLog (n d : Nat) : Int :=
  let k : Int := (n.log2 : Int) - d.log2
  if d * twoTo k.toNat ≤ n * twoTo (-k).toNat then k else k - 1

/-- The bits of the number nearest to `n / d`. A number keeps 53 binary digits, and none below
`2 ^ (-1074)`; from the middle between the largest number and the next power of two on, infinity is
the nearest one. -/
def nearestBits (n d : Nat) : Nat :=
  if n = 0 then 0
  else
    let e := max (floorLog n d - 52) (-1074)
    let kept := roundDiv (n * twoTo (-e).toNat) (d * twoTo e.toNat)
    min ((e + 1074).toNat * twoTo 52 + kept) (2047 * twoTo 52)

/-- The number nearest to `n / d` or, if `negative`, to its negative. -/
def nearest (negative : Bool) (n d : Nat) : Float :=
  let sign := if negative then twoTo 63 else 0
  Float.ofBits (sign + nearestBits n d).toUInt64

end Abacus.Number
