import Abacus.Number.Nearest

/-!
# Finite numbers as exact fractions

Every finite number is a whole number times a power of two. `Dyadic.ofFloat?` takes a number apart,
and `Dyadic.toFloat` gives the number nearest to any such fraction.
-/

namespace Abacus.Number

/-- The fraction `mantissa * 2 ^ exponent`, or its negative. Zero keeps its sign. -/
structure Dyadic where
  negative : Bool
  mantissa : Nat
  exponent : Int
deriving Repr, DecidableEq

namespace Dyadic

/-- The exact value of a finite number. -/
def ofFloat? (x : Float) : Option Dyadic :=
  let bits := x.toBits.toNat
  let scale : Nat := bits / twoTo 52 % twoTo 11
  let fraction : Nat := bits % twoTo 52
  let negative := twoTo 63 ≤ bits
  if scale = 2047 then none
  else if scale = 0 then some ⟨negative, fraction, -1074⟩
  else some ⟨negative, twoTo 52 + fraction, (scale : Int) - 1075⟩

/-- The number nearest to the fraction. -/
def toFloat (d : Dyadic) : Float :=
  nearest d.negative (d.mantissa * twoTo d.exponent.toNat) (twoTo (-d.exponent).toNat)

/-- The whole number that the fraction is without its fractional digits. -/
def truncate (d : Dyadic) : Int :=
  let size := if 0 ≤ d.exponent then d.mantissa * twoTo d.exponent.toNat
    else d.mantissa / twoTo (-d.exponent).toNat
  if d.negative then -(size : Int) else size

/-- Whether the fraction is a whole number. -/
def isWhole (d : Dyadic) : Bool :=
  0 ≤ d.exponent || d.mantissa % twoTo (-d.exponent).toNat = 0

/-- The fraction that a whole number is. -/
def ofInt (n : Int) : Dyadic := ⟨n < 0, n.natAbs, 0⟩

end Dyadic

/-- The number nearest to a whole number, unless that lies beyond all finite numbers. -/
def ofInt? (n : Int) : Option Float :=
  let x := (Dyadic.ofInt n).toFloat
  if x.isFinite then some x else none

end Abacus.Number
