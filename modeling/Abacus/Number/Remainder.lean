import Abacus.Number.Dyadic
import Abacus.Number.Special

/-!
# Remainders

Two remainders of a division, both computed exactly. `remainder` has the sign of the dividend,
`modulo` that of the divisor.
-/

namespace Abacus.Number

/-- The remainder of two fractions when the quotient is cut off towards zero. -/
def Dyadic.remainder (a b : Dyadic) : Dyadic :=
  let e := min a.exponent b.exponent
  let m := a.mantissa * twoTo (a.exponent - e).toNat
  let n := b.mantissa * twoTo (b.exponent - e).toNat
  ⟨a.negative, m % n, e⟩

/-- The remainder with the sign of the dividend `a`. Infinity has none, and divided by infinity a
finite number is its own remainder. -/
def remainder (a b : Float) : Float :=
  match Dyadic.ofFloat? a, Dyadic.ofFloat? b with
  | some x, some y => (x.remainder y).toFloat
  | some _, none => if b.isNaN then notANumber else a
  | none, _ => notANumber

/-- The remainder with the sign of the divisor `b`, that of a zero result included. -/
def modulo (a b : Float) : Float :=
  let r := remainder a b
  if r == 0 then withSignOf b 0
  else if decide (b < 0) != decide (r < 0) then r + b
  else r

end Abacus.Number
